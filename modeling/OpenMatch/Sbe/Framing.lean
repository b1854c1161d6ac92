import OpenMatch.Sbe.Setters

/-!
# Messages behind headers

A message is sent as a header and, right behind it, a block. A client wraps an encoder
behind the place of the header and then writes the header and the fields, in any order. The
header and the block are two records next to each other, and a call updates one of them.
-/

namespace OpenMatch.Sbe

open Window

/-- The fields that writing a header sets. -/
def Template.headerSettings (t : Template) : List Setting :=
  [⟨MessageHeader.blockLength, t.blockLength⟩, ⟨MessageHeader.templateId, t.templateId⟩,
    ⟨MessageHeader.schemaId, schemaId⟩, ⟨MessageHeader.version, schemaVersion⟩]

/-- These are fields of the header. -/
theorem Template.headerSettings_fields (t : Template) :
    ∀ setting ∈ t.headerSettings, setting.1 ∈ MessageHeader.block.fields := by
  simp [Template.headerSettings, MessageHeader.block]

/-- The values of a header. -/
def Template.headerValues (t : Template) : Values :=
  Values.setAll (fun field => field.type.ofBits 0) t.headerSettings

/-- What a client calls on an encoder. -/
inductive EncoderCall where
  | header
  | put (setting : Setting)

/-- The settings of the header that a call makes. -/
def EncoderCall.headerSettings (t : Template) : EncoderCall → List Setting
  | header => t.headerSettings
  | put _ => []

/-- The settings of the block that a call makes. -/
def EncoderCall.settings : EncoderCall → List Setting
  | header => []
  | put setting => [setting]

variable {t : Template}

/-- Make one call. The header goes to `offset`; its encoder is given up for its parent at once. -/
def MessageEncoder.call (profile : Profile) (offset : Usize) (encoder : MessageEncoder t) :
    EncoderCall → Option (MessageEncoder t)
  | .header => do
    let header ← encoder.header profile offset
    header.takeParent.1.toOption
  | .put setting => encoder.put profile setting.1 setting.2

/-- Make calls one after the other. -/
def MessageEncoder.callAll (profile : Profile) (offset : Usize) (encoder : MessageEncoder t)
    (calls : List EncoderCall) : Option (MessageEncoder t) :=
  calls.foldlM (fun encoder call => encoder.call profile offset call) encoder

/-- Wrap an encoder behind the place of a header at `offset`, and make calls. -/
def writeMessage (t : Template) (profile : Profile) (buf : WriteBuf) (offset : Usize) (calls : List EncoderCall) :
    Option (MessageEncoder t) := do
  let start ← profile.add offset MessageHeader.encodedLength
  let encoder ← MessageEncoder.default.wrap profile buf start
  encoder.callAll profile offset calls

/-- Settings that agree with a record give its values to the fields they set. -/
theorem Values.setAll_eq_of_agree {settings : List Setting} {record : Values}
    (hagree : ∀ setting ∈ settings, setting.2 = record setting.1) {field : Field}
    (hset : ∃ setting ∈ settings, setting.1 = field) (values : Values) :
    values.setAll settings field = record field := by
  have hrecord : ∀ settings : List Setting, (∀ setting ∈ settings, setting.2 = record setting.1) →
      record.setAll settings = record := by
    intro settings
    induction settings with
    | nil => exact fun _ => rfl
    | cons setting rest ih =>
      intro hagree
      obtain ⟨hfirst, hrest⟩ := List.forall_mem_cons.mp hagree
      have hsame : record.set setting = record := by
        rw [Values.set, hfirst, Function.update_eq_self]
      rw [Values.setAll, List.foldl_cons, hsame]
      exact ih hrest
  rw [Values.setAll_of_mem hset values record, hrecord settings hagree]

/-- Fields of two blocks of a slice were set, and nothing outside of the blocks was changed. -/
structure SetsBoth (block block' : Block) (start start' : ℕ) (settings settings' : List Setting)
    (before after : Slice) : Prop where
  length_eq : after.bytes.length = before.bytes.length
  outside : ∀ k, Apart start block.length k 1 → Apart start' block'.length k 1 → after.bytes[k]? = before.bytes[k]?
  first : ∀ field ∈ block.fields,
    block.valuesAt after start field = (block.valuesAt before start).setAll settings field
  second : ∀ field ∈ block'.fields,
    block'.valuesAt after start' field = (block'.valuesAt before start').setAll settings' field

section Both

variable {block block' : Block} {start start' : ℕ} {settings settings' more more' : List Setting}
  {slice slice' slice'' : Slice}

/-- Setting the first block leaves the second alone. -/
theorem Block.Sets.both_first (h : block.Sets start settings slice slice')
    (hapart : Apart start block.length start' block'.length) :
    SetsBoth block block' start start' settings [] slice slice' := by
  refine ⟨h.length_eq, fun k hk _ => h.outside k hk, h.inside, fun field _ => ?_⟩
  rw [Block.valuesAt, h.window_eq hapart]
  rfl

/-- Setting the second block leaves the first alone. -/
theorem Block.Sets.both_second (h : block'.Sets start' settings' slice slice')
    (hapart : Apart start block.length start' block'.length) :
    SetsBoth block block' start start' [] settings' slice slice' := by
  refine ⟨h.length_eq, fun k _ hk => h.outside k hk, fun field _ => ?_, h.inside⟩
  rw [Block.valuesAt, h.window_eq hapart.symm]
  rfl

/-- Settings made one after the other. -/
theorem SetsBoth.trans (h : SetsBoth block block' start start' settings settings' slice slice')
    (h' : SetsBoth block block' start start' more more' slice' slice'') :
    SetsBoth block block' start start' (settings ++ more) (settings' ++ more') slice slice'' := by
  refine ⟨h'.length_eq.trans h.length_eq, fun k hk hk' => (h'.outside k hk hk').trans (h.outside k hk hk'),
    fun field hfield => ?_, fun field hfield => ?_⟩
  · rw [h'.first field hfield, Values.setAll_congr (h.first field hfield)]
    simp only [Values.setAll, List.foldl_append]
  · rw [h'.second field hfield, Values.setAll_congr (h.second field hfield)]
    simp only [Values.setAll, List.foldl_append]

end Both

/-- The header encoder of an encoder writes into the encoder's buffer. -/
theorem MessageHeaderEncoder.put_eq (profile : Profile) (encoder : MessageEncoder t) (offset : Usize)
    (setting : Setting) : MessageHeaderEncoder.put profile ⟨some encoder, offset⟩ setting.1 setting.2 =
      (encoder.buf.put profile offset setting).map fun buf => ⟨some { encoder with buf := buf }, offset⟩ := by
  cases hadd : profile.add offset setting.1.offset with
  | none => simp [put, WriteBuf.put, hadd]
  | some index =>
    cases hwrite : encoder.buf.putAt profile setting.1.type index setting.2 <;>
      simp [put, WriteBuf.put, Writer.writeBuf, hadd, hwrite]

/-- A header is written into the buffer of the encoder it was made from. -/
theorem MessageEncoder.header_eq (profile : Profile) (encoder : MessageEncoder t) (offset : Usize) :
    encoder.header profile offset = (encoder.buf.putAll profile offset t.headerSettings).map
      fun buf => ⟨some { encoder with buf := buf }, offset⟩ := by
  have hfields : encoder.header profile offset =
      t.headerSettings.foldlM (fun header setting => MessageHeaderEncoder.put profile header setting.1 setting.2)
        (⟨some encoder, offset⟩ : MessageHeaderEncoder (MessageEncoder t)) := by
    simp only [Template.headerSettings, List.foldlM_cons, List.foldlM_nil, bind_pure]
    rfl
  rw [hfields]
  apply foldlM_part (WriteBuf.put profile offset)
    (fun header setting => MessageHeaderEncoder.put profile header setting.1 setting.2)
    (fun buf => (⟨some { encoder with buf := buf }, offset⟩ : MessageHeaderEncoder (MessageEncoder t)))
  intro buf setting
  exact MessageHeaderEncoder.put_eq profile { encoder with buf := buf } offset setting

/-- Writing a header sets its four fields. -/
theorem MessageEncoder.header_sets (profile : Profile) (encoder : MessageEncoder t) (offset : Usize)
    (hfits : offset.toNat + MessageHeader.block.length ≤ encoder.buf.data.bytes.length) :
    ∃ buf, encoder.header profile offset = some ⟨some { encoder with buf := buf }, offset⟩ ∧
      MessageHeader.block.Sets offset.toNat t.headerSettings encoder.buf.data buf.data := by
  obtain ⟨buf, hputs, hsets⟩ := encoder.buf.putAll_sets profile hfits t.headerSettings_fields
  exact ⟨buf, by rw [header_eq, hputs, Option.map_some], hsets⟩

section Message

variable (profile : Profile)

/-- A call sets what it sets in the header and in the block behind it. -/
theorem MessageEncoder.call_sets (encoder : MessageEncoder t) {offset : Usize}
    (hoffset : encoder.offset.toNat = offset.toNat + MessageHeader.block.length) (hfits : encoder.Fits)
    {call : EncoderCall} (hfields : ∀ setting ∈ call.settings, setting.1 ∈ t.fields) :
    ∃ buf, encoder.call profile offset call = some { encoder with buf := buf } ∧
      SetsBoth MessageHeader.block t.block offset.toNat encoder.offset.toNat (call.headerSettings t) call.settings
        encoder.buf.data buf.data := by
  have hplace : encoder.offset.toNat + t.block.length ≤ encoder.buf.data.bytes.length := hfits
  have hapart : Apart offset.toNat MessageHeader.block.length encoder.offset.toNat t.block.length :=
    Or.inl (Nat.le_of_eq hoffset.symm)
  cases call with
  | header =>
    obtain ⟨buf, hheader, hsets⟩ := encoder.header_sets profile offset (by omega)
    refine ⟨buf, ?_, hsets.both_first hapart⟩
    simp [MessageEncoder.call, hheader, MessageHeaderEncoder.takeParent, Except.toOption]
  | put setting =>
    obtain ⟨buf, hput, hsets⟩ := encoder.buf.put_sets profile hplace (hfields setting List.mem_cons_self)
    refine ⟨buf, ?_, hsets.both_second hapart⟩
    rw [MessageEncoder.call, put_eq, hput, Option.map_some]

/-- Calls set what they set, one after the other. -/
theorem MessageEncoder.callAll_sets (encoder : MessageEncoder t) {offset : Usize}
    (hoffset : encoder.offset.toNat = offset.toNat + MessageHeader.block.length) (hfits : encoder.Fits)
    {calls : List EncoderCall} (hfields : ∀ call ∈ calls, ∀ setting ∈ call.settings, setting.1 ∈ t.fields) :
    ∃ buf, encoder.callAll profile offset calls = some { encoder with buf := buf } ∧
      SetsBoth MessageHeader.block t.block offset.toNat encoder.offset.toNat
        (calls.flatMap (EncoderCall.headerSettings t)) (calls.flatMap EncoderCall.settings)
        encoder.buf.data buf.data := by
  induction calls generalizing encoder with
  | nil => exact ⟨encoder.buf, rfl, rfl, fun _ _ _ => rfl, fun _ _ => rfl, fun _ _ => rfl⟩
  | cons call rest ih =>
    obtain ⟨hfirst, hrest⟩ := List.forall_mem_cons.mp hfields
    obtain ⟨buf, hcall, hsets⟩ := encoder.call_sets profile hoffset hfits hfirst
    have hfits' : ({ encoder with buf := buf } : MessageEncoder t).Fits := by
      unfold Fits
      rw [hsets.length_eq]
      exact hfits
    obtain ⟨buf', hcalls, hsets'⟩ := ih { encoder with buf := buf } hoffset hfits' hrest
    refine ⟨buf', ?_, hsets.trans hsets'⟩
    rw [MessageEncoder.callAll, List.foldlM_cons, hcall]
    exact hcalls

/-- The place of a message at an offset: a header, and the block behind it. -/
def Template.FitsAt (t : Template) (slice : Slice) (offset : Usize) : Prop :=
  offset.toNat + MessageHeader.block.length + t.block.length ≤ slice.bytes.length

instance (t : Template) (slice : Slice) (offset : Usize) : Decidable (t.FitsAt slice offset) :=
  inferInstanceAs (Decidable (offset.toNat + MessageHeader.block.length + t.block.length ≤ slice.bytes.length))

/-- Where a message has a place, writing it returns, and sets what its calls set. -/
theorem writeMessage_sets {buf : WriteBuf} {offset : Usize} (hfits : t.FitsAt buf.data offset)
    {calls : List EncoderCall} (hfields : ∀ call ∈ calls, ∀ setting ∈ call.settings, setting.1 ∈ t.fields) :
    ∃ encoder, writeMessage t profile buf offset calls = some encoder ∧
      encoder.offset.toNat = offset.toNat + MessageHeader.block.length ∧
      encoder.limit.toNat = encoder.offset.toNat + t.block.length ∧
      SetsBoth MessageHeader.block t.block offset.toNat (offset.toNat + MessageHeader.block.length)
        (calls.flatMap (EncoderCall.headerSettings t)) (calls.flatMap EncoderCall.settings)
        buf.data encoder.buf.data := by
  unfold Template.FitsAt at hfits
  have hheader : MessageHeader.block.length = MessageHeader.encodedLength.toNat := rfl
  have hblock : t.blockLength.toUInt64.toNat = t.block.length := UInt16.toNat_toUInt64 _
  have hplace : offset.toNat + MessageHeader.encodedLength.toNat ≤ buf.data.bytes.length := by omega
  obtain ⟨start, hstart, hoffset⟩ := profile.add_of_le_length hplace
  have hend : start.toNat + t.blockLength.toUInt64.toNat ≤ buf.data.bytes.length := by omega
  obtain ⟨limit, hlimit, hstop⟩ := profile.add_of_le_length hend
  have hwrap : MessageEncoder.default.wrap profile buf start = some (⟨buf, start, start, limit⟩ : MessageEncoder t) := by
    simp [MessageEncoder.wrap, hlimit]
  obtain ⟨buf', hcalls, hsets⟩ := MessageEncoder.callAll_sets profile (⟨buf, start, start, limit⟩ : MessageEncoder t)
    hoffset (show start.toNat + t.block.length ≤ buf.data.bytes.length by omega) hfields
  refine ⟨⟨buf', start, start, limit⟩, ?_, hoffset, by rw [hstop, hblock], hoffset ▸ hsets⟩
  simp [writeMessage, hstart, hwrap, hcalls]

end Message

end OpenMatch.Sbe

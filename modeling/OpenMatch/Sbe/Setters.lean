import OpenMatch.Sbe.Block

/-!
# Setters update a record

An encoder over a buffer that has a place for its block is a record: any calls of its
setters set the fields they name, and leave the rest of the buffer alone. When every field
was set, the block holds the encoding of the record, whatever the buffer held before. Both
hold in development builds and in release builds. The two builds differ only where the
offset of a field overflows.
-/

namespace OpenMatch.Sbe

open Window

/-- Steps on a part of a state are steps on the state. -/
theorem foldlM_part {σ τ α : Type*} (step : σ → α → Option σ) (step' : τ → α → Option τ) (embed : σ → τ)
    (hstep : ∀ s a, step' (embed s) a = (step s a).map embed) (l : List α) (s : σ) :
    l.foldlM step' (embed s) = (l.foldlM step s).map embed := by
  induction l generalizing s with
  | nil => rfl
  | cons a rest ih =>
    rw [List.foldlM_cons, List.foldlM_cons, hstep]
    cases step s a with
    | none => rfl
    | some s' => exact ih s'

/-- Inside a slice, adding to an offset neither panics nor wraps round. -/
theorem Profile.add_of_le_length (profile : Profile) {slice : Slice} {a b : Usize}
    (h : a.toNat + b.toNat ≤ slice.bytes.length) : ∃ c, profile.add a b = some c ∧ c.toNat = a.toNat + b.toNat := by
  apply profile.add_of_lt
  have hfits := slice.fits
  have hsize : UInt64.size = 2 ^ 64 := rfl
  omega

/-- Write a field of the block at `start`. -/
def WriteBuf.put (profile : Profile) (start : Usize) (buf : WriteBuf) (setting : Setting) : Option WriteBuf := do
  let index ← profile.add start setting.1.offset
  buf.putAt profile setting.1.type index setting.2

/-- Writing a field of a block that lies in the buffer sets the field. -/
theorem WriteBuf.put_sets (profile : Profile) (buf : WriteBuf) {block : Block} {start : Usize}
    (hfits : start.toNat + block.length ≤ buf.data.bytes.length) {setting : Setting}
    (hfield : setting.1 ∈ block.fields) :
    ∃ buf', buf.put profile start setting = some buf' ∧ block.Sets start.toNat [setting] buf.data buf'.data := by
  obtain ⟨field, value⟩ := setting
  have hinside : field.offset.toNat + field.type.size ≤ block.length := (block.fills.inside hfield).2
  have hwidth := field.type.length_toLeBytes value
  have hsum : start.toNat + field.offset.toNat ≤ buf.data.bytes.length := by omega
  obtain ⟨index, hadd, hindex⟩ := profile.add_of_le_length hsum
  have hplace : index.toNat + (field.type.toLeBytes value).length ≤ buf.data.bytes.length := by omega
  refine ⟨⟨buf.data.write index.toNat (field.type.toLeBytes value) hplace⟩, ?_, ?_⟩
  · simp [WriteBuf.put, hadd, buf.putAt_eq profile, hplace]
  · simp only [hindex]
    exact .write hfield value hfits (hindex ▸ hplace)

/-- Write fields of the block at `start`, one after the other. -/
def WriteBuf.putAll (profile : Profile) (start : Usize) (buf : WriteBuf) (settings : List Setting) : Option WriteBuf :=
  settings.foldlM (WriteBuf.put profile start) buf

/-- Writing fields of a block that lies in the buffer sets them, one after the other. -/
theorem WriteBuf.putAll_sets (profile : Profile) (buf : WriteBuf) {block : Block} {start : Usize}
    (hfits : start.toNat + block.length ≤ buf.data.bytes.length) {settings : List Setting}
    (hfields : ∀ setting ∈ settings, setting.1 ∈ block.fields) :
    ∃ buf', buf.putAll profile start settings = some buf' ∧ block.Sets start.toNat settings buf.data buf'.data := by
  induction settings generalizing buf with
  | nil => exact ⟨buf, rfl, .refl _ _ _⟩
  | cons setting rest ih =>
    obtain ⟨hfield, hrest⟩ := List.forall_mem_cons.mp hfields
    obtain ⟨buf', hput, hsets⟩ := buf.put_sets profile hfits hfield
    obtain ⟨buf'', hputs, hsets'⟩ := ih buf' (hsets.length_eq ▸ hfits) hrest
    refine ⟨buf'', ?_, hsets.trans hsets'⟩
    rw [WriteBuf.putAll, List.foldlM_cons, hput]
    exact hputs

/-- Reading a field of a block that lies in the buffer. -/
theorem ReadBuf.getAt_valuesAt (profile : Profile) (buf : ReadBuf) {block : Block} {start : Usize}
    (hfits : start.toNat + block.length ≤ buf.data.bytes.length) {field : Field} (hfield : field ∈ block.fields) :
    ∃ index, profile.add start field.offset = some index ∧
      buf.getAt profile field.type index = some (block.valuesAt buf.data start.toNat field) := by
  have hinside : field.offset.toNat + field.type.size ≤ block.length := (block.fills.inside hfield).2
  have hsum : start.toNat + field.offset.toNat ≤ buf.data.bytes.length := by omega
  obtain ⟨index, hadd, hindex⟩ := profile.add_of_le_length hsum
  refine ⟨index, hadd, ?_⟩
  rw [ReadBuf.getAt_eq, if_pos (by omega), hindex, ← window_window hinside]
  rfl

variable {t : Template}

namespace MessageEncoder

/-- The buffer has a place for the block. -/
def Fits (encoder : MessageEncoder t) : Prop :=
  encoder.offset.toNat + t.block.length ≤ encoder.buf.data.bytes.length

instance (encoder : MessageEncoder t) : Decidable encoder.Fits :=
  inferInstanceAs (Decidable (encoder.offset.toNat + t.block.length ≤ encoder.buf.data.bytes.length))

/-- Call setters one after the other. -/
def putAll (profile : Profile) (encoder : MessageEncoder t) (settings : List Setting) : Option (MessageEncoder t) :=
  settings.foldlM (fun encoder setting => encoder.put profile setting.1 setting.2) encoder

variable (profile : Profile) (encoder : MessageEncoder t)

/-- A setter writes into the encoder's buffer. -/
theorem put_eq (setting : Setting) : encoder.put profile setting.1 setting.2 =
    (encoder.buf.put profile encoder.offset setting).map fun buf => { encoder with buf := buf } := by
  cases hadd : profile.add encoder.offset setting.1.offset <;> simp [put, WriteBuf.put, Writer.writeBuf, hadd]

/-- Setters write into the encoder's buffer, one after the other. -/
theorem putAll_eq (settings : List Setting) : encoder.putAll profile settings =
    (encoder.buf.putAll profile encoder.offset settings).map fun buf => { encoder with buf := buf } := by
  apply foldlM_part (WriteBuf.put profile encoder.offset)
    (fun encoder setting => MessageEncoder.put profile encoder setting.1 setting.2)
    (fun buf => { encoder with buf := buf })
  intro buf setting
  exact put_eq profile { encoder with buf := buf } setting

/-- Setters set their fields, one after the other. -/
theorem putAll_sets (hfits : encoder.Fits) {settings : List Setting} (hfields : ∀ setting ∈ settings, setting.1 ∈ t.fields) :
    ∃ buf, encoder.putAll profile settings = some { encoder with buf := buf } ∧
      t.block.Sets encoder.offset.toNat settings encoder.buf.data buf.data := by
  obtain ⟨buf, hputs, hsets⟩ := encoder.buf.putAll_sets profile hfits hfields
  exact ⟨buf, by rw [putAll_eq, hputs, Option.map_some], hsets⟩

end MessageEncoder

/-- A getter returns the value of its field. -/
theorem MessageDecoder.get_eq (profile : Profile) (decoder : MessageDecoder t)
    (hfits : decoder.offset.toNat + t.block.length ≤ decoder.buf.data.bytes.length) {field : Field}
    (hfield : field ∈ t.fields) :
    decoder.get profile field = some (t.block.valuesAt decoder.buf.data decoder.offset.toNat field) := by
  obtain ⟨index, hadd, hget⟩ := decoder.buf.getAt_valuesAt profile hfits hfield
  simp [MessageDecoder.get, Reader.getBuf, hadd, hget]

/-- A block is the encoding of a record exactly if the getters read that record. -/
theorem MessageDecoder.encode_eq_iff (profile : Profile) (decoder : MessageDecoder t)
    (hfits : decoder.offset.toNat + t.block.length ≤ decoder.buf.data.bytes.length) (values : Values) :
    t.block.encode values = window decoder.buf.data.bytes decoder.offset.toNat t.block.length ↔
      ∀ field ∈ t.fields, decoder.get profile field = some (values field) := by
  rw [← t.block.encode_decodeBlock (length_window hfits), t.block.encode_inj]
  constructor
  · intro hvalues field hfield
    rw [decoder.get_eq profile hfits hfield, hvalues field hfield]
    rfl
  · intro hget field hfield
    have hread := hget field hfield
    rw [decoder.get_eq profile hfits hfield] at hread
    exact (Option.some.inj hread).symm

/-- Any calls of the setters of a message, in any order and number, update its fields as those of a
record: every decoder over the same bytes then reads each field as it was set last, or as it was
before, and no byte outside of the block has changed. -/
theorem setters_update_record (t : Template) (profile : Profile) (encoder : MessageEncoder t) (hfits : encoder.Fits)
    (settings : List Setting) (hfields : ∀ setting ∈ settings, setting.1 ∈ t.fields) :
    ∃ buf, encoder.putAll profile settings = some { encoder with buf := buf } ∧
      buf.data.bytes.length = encoder.buf.data.bytes.length ∧
      (∀ k, k < encoder.offset.toNat ∨ encoder.offset.toNat + t.block.length ≤ k →
        buf.data.bytes[k]? = encoder.buf.data.bytes[k]?) ∧
      ∀ (decoder before : MessageDecoder t), decoder.buf.data = buf.data → decoder.offset = encoder.offset →
        before.buf.data = encoder.buf.data → before.offset = encoder.offset →
          ∃ values : Values, ∀ field ∈ t.fields, before.get profile field = some (values field) ∧
            decoder.get profile field = some (values.setAll settings field) := by
  obtain ⟨buf, hputs, hsets⟩ := encoder.putAll_sets profile hfits hfields
  refine ⟨buf, hputs, hsets.length_eq, fun k hk => hsets.outside k ?_, ?_⟩
  · unfold Apart
    omega
  · intro decoder before hdata hoffset hdata' hoffset'
    refine ⟨t.block.valuesAt encoder.buf.data encoder.offset.toNat, fun field hfield => ⟨?_, ?_⟩⟩
    · rw [before.get_eq profile _ hfield, hdata', hoffset']
      rw [hdata', hoffset']
      exact hfits
    · rw [decoder.get_eq profile _ hfield, hdata, hoffset, hsets.inside field hfield]
      rw [hdata, hoffset, hsets.length_eq]
      exact hfits

/-- A slice of zeros. -/
def zeros (n : ℕ) (h : n < 2 ^ 63) : Slice := ⟨List.replicate n 0, by rwa [List.length_replicate]⟩

/-- An encoder of a fill in a buffer with four bytes to spare, two on each side. -/
def sampleEncoder : FillInfoEncoder := ⟨⟨zeros 28 (by decide)⟩, 2, 2, 26⟩

/-- Setters of the sample encoder, one of them called twice. -/
def sampleSettings : List Setting := [⟨FillInfo.filledQty, (300 : UInt64)⟩, ⟨FillInfo.orderId, (7 : UInt64)⟩,
  ⟨FillInfo.filledQty, (258 : UInt64)⟩]

/-- The sample setters return, and leave the first two bytes as they were. -/
theorem setters_update_record_sample : ∃ buf, sampleEncoder.putAll .dev sampleSettings = some { sampleEncoder with buf := buf } ∧
    buf.data.bytes[1]? = some 0 := by
  obtain ⟨buf, hputs, -, houtside, -⟩ :=
    setters_update_record fillInfo .dev sampleEncoder (by decide) sampleSettings (by decide)
  exact ⟨buf, hputs, houtside 1 (Or.inl (by decide))⟩

/-- A field that is set has the value it was set to, wherever the record started from. -/
theorem Values.setAll_of_mem {settings : List Setting} {field : Field} (hset : ∃ setting ∈ settings, setting.1 = field)
    (values values' : Values) : values.setAll settings field = values'.setAll settings field := by
  induction settings generalizing values values' with
  | nil =>
    obtain ⟨setting, hmem, -⟩ := hset
    exact absurd hmem List.not_mem_nil
  | cons first rest ih =>
    obtain ⟨setting, hmem, hfield⟩ := hset
    rcases List.mem_cons.mp hmem with rfl | hlater
    · subst hfield
      refine Values.setAll_congr ?_ rest
      rw [Values.set, Values.set, Function.update_self, Function.update_self]
    · exact ih ⟨setting, hlater, hfield⟩ _ _

/-- A message with every field set has one encoding: its block is the encoding of the values set last,
whatever the buffer held before and in whatever order they were set. And any bytes of the block's
length are the encoding of one record: the one that the getters of a decoder over these bytes read,
in either build. -/
theorem encoding_canonical (t : Template) (profile : Profile) (encoder : MessageEncoder t) (hfits : encoder.Fits)
    (settings : List Setting) (hfields : ∀ setting ∈ settings, setting.1 ∈ t.fields)
    (hall : ∀ field ∈ t.fields, ∃ setting ∈ settings, setting.1 = field) :
    (∃ buf, encoder.putAll profile settings = some { encoder with buf := buf } ∧
      ∀ values : Values, window buf.data.bytes encoder.offset.toNat t.block.length =
        t.block.encode (values.setAll settings)) ∧
      ∀ bytes : List UInt8, bytes.length = t.block.length → t.block.encode (decodeBlock bytes) = bytes ∧
        (∀ values, t.block.encode values = bytes → ∀ field ∈ t.fields, values field = decodeBlock bytes field) ∧
          ∀ (profile' : Profile) (decoder : MessageDecoder t),
            decoder.offset.toNat + t.block.length ≤ decoder.buf.data.bytes.length →
              window decoder.buf.data.bytes decoder.offset.toNat t.block.length = bytes →
                ∀ values, t.block.encode values = bytes ↔
                  ∀ field ∈ t.fields, decoder.get profile' field = some (values field) := by
  constructor
  · obtain ⟨buf, hputs, hsets⟩ := encoder.putAll_sets profile hfits hfields
    refine ⟨buf, hputs, fun values => ?_⟩
    have hplace : encoder.offset.toNat + t.block.length ≤ buf.data.bytes.length := by
      rw [hsets.length_eq]
      exact hfits
    rw [← t.block.encode_decodeBlock (length_window hplace), t.block.encode_inj]
    intro field hfield
    exact (hsets.inside field hfield).trans (Values.setAll_of_mem (hall field hfield) _ _)
  · intro bytes hbytes
    refine ⟨t.block.encode_decodeBlock hbytes, fun values hencode field hfield => ?_, ?_⟩
    · rw [← hencode, t.block.decodeBlock_encode values hfield]
    · intro profile' decoder hplace hblock values
      rw [← hblock]
      exact decoder.encode_eq_iff profile' hplace values

/-- The bytes of a time and a kind of result. -/
def sampleResultBytes : List UInt8 := [2, 3, 0, 0, 0, 0, 0, 0, 1, 0, 0, 0]

/-- A decoder of these bytes. -/
def sampleResultDecoder : TimedResultDecoder := ⟨⟨⟨sampleResultBytes, by decide⟩⟩, 0, 0, 12, 12, 0⟩

/-- Both fields of a time and a kind of result, set in the other order, and the time read from the bytes. -/
theorem encoding_canonical_sample : (∃ buf,
    MessageEncoder.putAll .release (⟨⟨zeros 12 (by decide)⟩, 0, 0, 12⟩ : TimedResultEncoder)
      [⟨TimedResult.resultCode, (1 : UInt32)⟩, ⟨TimedResult.timestampNs, (770 : UInt64)⟩] = some buf ∧
    window buf.buf.data.bytes 0 12 = sampleResultBytes) ∧
      sampleResultDecoder.get .dev TimedResult.timestampNs = some (770 : UInt64) := by
  obtain ⟨⟨buf, hputs, hbytes⟩, hcanonical⟩ := encoding_canonical timedResult .release
    ⟨⟨zeros 12 (by decide)⟩, 0, 0, 12⟩ (by decide)
    [⟨TimedResult.resultCode, (1 : UInt32)⟩, ⟨TimedResult.timestampNs, (770 : UInt64)⟩] (by decide) (by decide)
  obtain ⟨hencode, -, hread⟩ := hcanonical sampleResultBytes (by decide)
  have hget := (hread .dev sampleResultDecoder (by decide) (by decide) _).mp hencode TimedResult.timestampNs (by decide)
  exact ⟨⟨_, hputs, (hbytes fun field => field.type.ofBits 0).trans (by decide)⟩, hget⟩

/-- Writing a field at an index that could be computed. -/
theorem WriteBuf.put_eq_of_add {profile : Profile} {offset index : Usize} {setting : Setting} (buf : WriteBuf)
    (hadd : profile.add offset setting.1.offset = some index) : buf.put profile offset setting =
      if h : index.toNat + (setting.1.type.toLeBytes setting.2).length ≤ buf.data.bytes.length then
        some ⟨buf.data.write index.toNat (setting.1.type.toLeBytes setting.2) h⟩ else none := by
  simp [WriteBuf.put, hadd, buf.putAt_eq profile]

/-- The buffer after a setter of an encoder that was wrapped at some offset. -/
def wrapAndPut (t : Template) (profile : Profile) (buf : WriteBuf) (offset : Usize) (setting : Setting) : Option WriteBuf := do
  let encoder : MessageEncoder t ← MessageEncoder.default.wrap profile buf offset
  let encoder ← encoder.put profile setting.1 setting.2
  return encoder.buf

/-- A setter of a wrapped encoder writes into the buffer, unless wrapping panics. -/
theorem wrapAndPut_eq (t : Template) (profile : Profile) (buf : WriteBuf) (offset : Usize) (setting : Setting) :
    wrapAndPut t profile buf offset setting =
      (profile.add offset t.blockLength.toUInt64).bind fun _ => buf.put profile offset setting := by
  cases hlimit : profile.add offset t.blockLength.toUInt64 with
  | none => simp [wrapAndPut, MessageEncoder.wrap, hlimit]
  | some limit =>
    cases hput : buf.put profile offset setting <;>
      simp [wrapAndPut, MessageEncoder.wrap, hlimit, MessageEncoder.put_eq, hput]

/-- A setter writes exactly at the place of its field, or else panics. The one exception is a release build with
an offset so near to the end of the address space that the place wraps round: then the setter writes
at the wrapped place if that is in the buffer, where a development build has panicked. -/
theorem setter_any_offset (t : Template) (profile : Profile) (buf : WriteBuf) (offset : Usize) (setting : Setting)
    (hfield : setting.1 ∈ t.fields) :
    wrapAndPut t profile buf offset setting =
      if h : offset.toNat + setting.1.offset.toNat + (setting.1.type.toLeBytes setting.2).length ≤
          buf.data.bytes.length then
        some ⟨buf.data.write (offset.toNat + setting.1.offset.toNat) (setting.1.type.toLeBytes setting.2) h⟩
      else if h : profile = .release ∧ UInt64.size ≤ offset.toNat + setting.1.offset.toNat ∧
          offset.toNat + setting.1.offset.toNat - UInt64.size + (setting.1.type.toLeBytes setting.2).length ≤
            buf.data.bytes.length then
        some ⟨buf.data.write (offset.toNat + setting.1.offset.toNat - UInt64.size)
          (setting.1.type.toLeBytes setting.2) h.2.2⟩
      else none := by
  have hfits := buf.data.fits
  have hsize : UInt64.size = 2 ^ 64 := rfl
  have hinside : setting.1.offset.toNat + setting.1.type.size ≤ t.blockLength.toNat := (t.fills.inside hfield).2
  have hwidth := setting.1.type.length_toLeBytes setting.2
  have hblock : t.blockLength.toUInt64.toNat = t.blockLength.toNat := UInt16.toNat_toUInt64 _
  have hbound := t.blockLength.toNat_lt
  rw [wrapAndPut_eq]
  by_cases hrange : offset.toNat + setting.1.offset.toNat < UInt64.size
  · obtain ⟨index, hadd, hindex⟩ := profile.add_of_lt hrange
    have hwrap : ¬ (profile = .release ∧ UInt64.size ≤ offset.toNat + setting.1.offset.toNat ∧
        offset.toNat + setting.1.offset.toNat - UInt64.size + (setting.1.type.toLeBytes setting.2).length ≤
          buf.data.bytes.length) := by omega
    rw [buf.put_eq_of_add hadd, dif_neg hwrap]
    simp only [hindex]
    by_cases hplace : offset.toNat + setting.1.offset.toNat + (setting.1.type.toLeBytes setting.2).length ≤
        buf.data.bytes.length
    · obtain ⟨limit, hlimit, -⟩ := profile.add_of_lt
        (show offset.toNat + t.blockLength.toUInt64.toNat < UInt64.size by omega)
      rw [hlimit, Option.bind_some]
    · rw [dif_neg hplace, Option.bind_fun_none]
  · have hplace : ¬ offset.toNat + setting.1.offset.toNat + (setting.1.type.toLeBytes setting.2).length ≤
        buf.data.bytes.length := by omega
    rw [dif_neg hplace]
    cases profile with
    | dev =>
      -- the limit is behind the field, so it overflows as well
      rw [Profile.add, if_neg (by omega)]
      simp
    | release =>
      obtain ⟨-, hindex⟩ := Profile.add_of_le .release (Nat.not_lt.mp hrange) (c := offset + setting.1.offset) rfl
      have hindex' : (offset + setting.1.offset).toNat =
          offset.toNat + setting.1.offset.toNat - UInt64.size := by omega
      have hadd : Profile.add .release offset setting.1.offset = some (offset + setting.1.offset) := rfl
      rw [buf.put_eq_of_add hadd, Profile.add, Option.bind_some]
      simp only [hindex', true_and, Nat.not_lt.mp hrange]

/-- An encoder wrapped four bytes before the end of the address space writes a price to the fifth byte of its buffer. -/
theorem setter_any_offset_sample : ∃ buf,
    wrapAndPut newOrderRequest .release ⟨zeros 16 (by decide)⟩ 18446744073709551612
      ⟨NewOrderRequest.price, (258 : UInt64)⟩ = some buf ∧
    buf.data.bytes = [0, 0, 0, 0, 2, 1, 0, 0, 0, 0, 0, 0, 0, 0, 0, 0] := by
  have hput := setter_any_offset newOrderRequest .release ⟨zeros 16 (by decide)⟩ 18446744073709551612
    ⟨NewOrderRequest.price, (258 : UInt64)⟩ (by decide)
  rw [dif_neg (by decide), dif_pos (by decide)] at hput
  exact ⟨_, hput, by decide⟩

end OpenMatch.Sbe

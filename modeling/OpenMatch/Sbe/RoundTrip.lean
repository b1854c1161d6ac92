import OpenMatch.Sbe.Framing
import OpenMatch.Sbe.Reading

/-!
# Messages that were written

What an encoder wrote a decoder reads: the header tells the template and the length of the
block, and each field has the value that was set last. Nothing else in the buffer is
disturbed.
-/

namespace OpenMatch.Sbe

open Window

/-- The header of the messages of a template. -/
def Template.header (t : Template) : Header := ⟨t.blockLength, t.templateId, schemaId, schemaVersion⟩

/-- A message as its client writes it: the header at least once, and fields of its template. -/
structure Message where
  template : Template
  calls : List EncoderCall
  header_mem : .header ∈ calls
  fields_mem : ∀ call ∈ calls, ∀ setting ∈ call.settings, setting.1 ∈ template.fields

namespace Message

/-- The settings of the block of a message. -/
def settings (message : Message) : List Setting := message.calls.flatMap EncoderCall.settings

/-- The length of a message with its header. -/
def length (message : Message) : ℕ := MessageHeader.block.length + message.template.block.length

/-- The values of the fields of a message, where those it does not set are read from a slice. -/
def values (message : Message) (before : Slice) (start : ℕ) : Values :=
  (message.template.block.valuesAt before (start + MessageHeader.block.length)).setAll message.settings

/-- The message is in a slice. The fields it does not set are those of `before`. -/
structure At (message : Message) (before after : Slice) (start : ℕ) : Prop where
  header : headerAt after start = message.template.header
  fields : ∀ field ∈ message.template.fields,
    message.template.block.valuesAt after (start + MessageHeader.block.length) field =
      message.values before start field

end Message

section RoundTrip

variable {t : Template} (profile : Profile)

/-- The settings of a header agree with its values. -/
theorem Template.headerSettings_agree (t : Template) : ∀ setting ∈ t.headerSettings, setting.2 = t.headerValues setting.1 := by
  intro setting hsetting
  simp only [Template.headerSettings, List.mem_cons, List.not_mem_nil, or_false] at hsetting
  rcases hsetting with rfl | rfl | rfl | rfl <;> rfl

/-- After calls that write the header at least once, the header is there. -/
theorem headerAt_of_setsBoth {block : Block} {start' : ℕ} {calls : List EncoderCall} {settings : List Setting}
    {before after : Slice} {offset : Usize} (hheader : .header ∈ calls)
    (hsets : SetsBoth MessageHeader.block block offset.toNat start'
      (calls.flatMap (EncoderCall.headerSettings t)) settings before after) :
    headerAt after offset.toNat = t.header := by
  have hagree : ∀ setting ∈ calls.flatMap (EncoderCall.headerSettings t), setting.2 = t.headerValues setting.1 := by
    intro setting hsetting
    obtain ⟨call, -, hcall⟩ := List.mem_flatMap.mp hsetting
    cases call with
    | header => exact t.headerSettings_agree setting hcall
    | put setting => exact absurd hcall List.not_mem_nil
  have hvalue : ∀ setting ∈ t.headerSettings, MessageHeader.block.valuesAt after offset.toNat setting.1 = setting.2 := by
    intro setting hsetting
    have hset : ∃ other ∈ calls.flatMap (EncoderCall.headerSettings t), other.1 = setting.1 :=
      ⟨setting, List.mem_flatMap.mpr ⟨.header, hheader, hsetting⟩, rfl⟩
    rw [hsets.first setting.1 (t.headerSettings_fields setting hsetting), Values.setAll_eq_of_agree hagree hset,
      t.headerSettings_agree setting hsetting]
  apply Header.ext
  · exact hvalue ⟨MessageHeader.blockLength, t.blockLength⟩ (by simp [Template.headerSettings])
  · exact hvalue ⟨MessageHeader.templateId, t.templateId⟩ (by simp [Template.headerSettings])
  · exact hvalue ⟨MessageHeader.schemaId, schemaId⟩ (by simp [Template.headerSettings])
  · exact hvalue ⟨MessageHeader.version, schemaVersion⟩ (by simp [Template.headerSettings])

/-- Where a message has a place, writing it returns. Then the message is there, and the rest of the buffer is
what it was. -/
theorem writeMessage_at (message : Message) {buf : WriteBuf} {offset : Usize}
    (hfits : offset.toNat + message.length ≤ buf.data.bytes.length) :
    ∃ encoder, writeMessage message.template profile buf offset message.calls = some encoder ∧
      encoder.encodedLength profile = some message.template.blockLength.toUInt64 ∧
      encoder.limit.toNat = offset.toNat + message.length ∧
      encoder.buf.data.bytes.length = buf.data.bytes.length ∧
      (∀ k, Apart offset.toNat message.length k 1 → encoder.buf.data.bytes[k]? = buf.data.bytes[k]?) ∧
      message.At buf.data encoder.buf.data offset.toNat := by
  have hplace : message.template.FitsAt buf.data offset := by
    rw [Message.length, ← Nat.add_assoc] at hfits
    exact hfits
  obtain ⟨encoder, hwrite, hoffset, hlimit, hsets⟩ := writeMessage_sets profile hplace message.fields_mem
  refine ⟨encoder, hwrite, ?_, ?_, hsets.length_eq, fun k hk => hsets.outside k ?_ ?_, ?_, hsets.second⟩
  · apply profile.sub_of_eq
    rw [hlimit, UInt16.toNat_toUInt64]
    rfl
  · rw [hlimit, hoffset, Message.length, Nat.add_assoc]
  · unfold Apart Message.length at *
    omega
  · unfold Apart Message.length at *
    omega
  · exact headerAt_of_setsBoth message.header_mem hsets

/-- A message that is in the buffer is read by the decoder of its template. -/
theorem readMessage_of_at {message : Message} {before : Slice} {buf : ReadBuf} {offset : Usize}
    (hfits : offset.toNat + message.length ≤ buf.data.bytes.length) (hat : message.At before buf.data offset.toNat) :
    ∃ decoder, readMessage message.template profile buf offset = some decoder ∧
      decoder.actingBlockLength = message.template.blockLength ∧ decoder.actingVersion = schemaVersion ∧
      decoder.encodedLength profile = some message.template.blockLength.toUInt64 ∧
      decoder.limit.toNat = offset.toNat + message.length ∧
      ∀ field ∈ message.template.fields, decoder.get profile field =
        some (message.values before offset.toNat field) := by
  have htemplate : profile = .dev → message.template.templateId = (headerAt buf.data offset.toNat).templateId := by
    intro _
    rw [hat.header]
    rfl
  unfold Message.length at hfits
  obtain ⟨decoder, hread, hbuf, hoffset, hlength, hversion, hlimit⟩ :=
    readMessage_of_fits profile message.template (show _ ≤ buf.data.bytes.length by omega) htemplate
  rw [hat.header] at hlength hversion
  refine ⟨decoder, hread, hlength, hversion, ?_, ?_, fun field hfield => ?_⟩
  · apply profile.sub_of_eq
    rw [hlimit, hlength, UInt16.toNat_toUInt64]
    rfl
  · rw [hlimit, hoffset, hlength, Message.length, Nat.add_assoc]
    rfl
  · rw [decoder.get_eq profile _ hfield, hbuf, hoffset, hat.fields field hfield]
    rw [hbuf, hoffset]
    omega

/-- A message that is written where there is room for it is read back. The calls of its client come in any order
and number; the header is among them. Only the bytes of the message are changed, and a decoder reads every
field as it was set last or, if it was never set, as the bytes before the message would have been read. -/
theorem message_roundtrip (profile profile' : Profile) (message : Message) (buf : WriteBuf) (offset : Usize)
    (hfits : offset.toNat + message.length ≤ buf.data.bytes.length) :
    ∃ encoder, writeMessage message.template profile buf offset message.calls = some encoder ∧
      (∀ k, k < offset.toNat ∨ offset.toNat + message.length ≤ k →
        encoder.buf.data.bytes[k]? = buf.data.bytes[k]?) ∧
      ∃ decoder, readMessage message.template profile' ⟨encoder.buf.data⟩ offset = some decoder ∧
        decoder.actingBlockLength = message.template.blockLength ∧ decoder.actingVersion = schemaVersion ∧
        decoder.limit = encoder.limit ∧ decoder.encodedLength profile' = encoder.encodedLength profile ∧
        ∀ field ∈ message.template.fields, decoder.get profile' field =
          some (message.values buf.data offset.toNat field) := by
  obtain ⟨encoder, hwrite, hencoded, hlimit, hlength, houtside, hat⟩ := writeMessage_at profile message hfits
  have hfits' : offset.toNat + message.length ≤ (⟨encoder.buf.data⟩ : ReadBuf).data.bytes.length := by rwa [hlength]
  obtain ⟨decoder, hread, hblock, hversion, hencoded', hlimit', hget⟩ := readMessage_of_at profile' hfits' hat
  refine ⟨encoder, hwrite, fun k hk => houtside k ?_, decoder, hread, hblock, hversion, ?_, hencoded'.trans hencoded.symm,
    hget⟩
  · unfold Apart
    omega
  · apply UInt64.toNat_inj.mp
    rw [hlimit', hlimit]

/-- A fill whose fields are set in two steps, with the header in between. -/
def sampleMessage : Message where
  template := fillInfo
  calls := [.put ⟨FillInfo.filledQty, (300 : UInt64)⟩, .header, .put ⟨FillInfo.orderId, (7 : UInt64)⟩]
  header_mem := by simp
  fields_mem := by decide

/-- The sample is written and read in the middle of a buffer, and leaves its last byte alone. -/
theorem message_roundtrip_sample : ∃ encoder decoder,
    writeMessage fillInfo .dev ⟨zeros 40 (by decide)⟩ 4 sampleMessage.calls = some encoder ∧
      encoder.buf.data.bytes[39]? = some 0 ∧
      readMessage fillInfo .release ⟨encoder.buf.data⟩ 4 = some decoder ∧
      decoder.get .release FillInfo.filledQty = some (300 : UInt64) := by
  obtain ⟨encoder, hwrite, houtside, decoder, hread, -, -, -, -, hget⟩ :=
    message_roundtrip .dev .release sampleMessage ⟨zeros 40 (by decide)⟩ 4 (by decide)
  refine ⟨encoder, decoder, hwrite, houtside 39 (Or.inr (by decide)), hread, ?_⟩
  exact (hget FillInfo.filledQty (by decide)).trans rfl

/-- A development build makes no decoder of another message than the one that the header names. -/
theorem readMessage_other {t t' : Template} (ht : t ∈ templates) (ht' : t' ∈ templates) (hother : t ≠ t') {buf : ReadBuf}
    {offset : Usize} (hheader : (headerAt buf.data offset.toNat).templateId = t'.templateId) :
    readMessage t .dev buf offset = none := by
  by_contra hsome
  obtain ⟨decoder, hread⟩ := Option.ne_none_iff_exists'.mp hsome
  have hid := (readMessage_fits .dev hread).2 rfl
  rw [hheader] at hid
  -- the ids of different templates differ
  have hfind := find_templates ht
  rw [hid, find_templates ht'] at hfind
  exact hother (Option.some.inj hfind).symm

/-- The block of a message that is in a slice is the encoding of its values. -/
theorem Message.At.window_eq {message : Message} {before after : Slice} {start : ℕ} (hat : message.At before after start)
    (hfits : start + message.length ≤ after.bytes.length) :
    window after.bytes (start + MessageHeader.block.length) message.template.block.length =
      message.template.block.encode (message.values before start) := by
  unfold Message.length at hfits
  rw [← message.template.block.encode_decodeBlock (length_window (by omega)), message.template.block.encode_inj]
  exact hat.fields

/-- A decoder of another message. A development build does not make one. A release build does, with the limit of
the message that is there, and a field that lies inside the block of that message is read from its encoding. -/
theorem mistaken_decoder (profile : Profile) (message : Message) (hknown : message.template ∈ templates)
    (t : Template) (ht : t ∈ templates) (hother : t ≠ message.template) (buf : WriteBuf) (offset : Usize)
    (hfits : offset.toNat + message.length ≤ buf.data.bytes.length) :
    ∃ encoder, writeMessage message.template profile buf offset message.calls = some encoder ∧
      readMessage t .dev ⟨encoder.buf.data⟩ offset = none ∧
      ∃ decoder, readMessage t .release ⟨encoder.buf.data⟩ offset = some decoder ∧ decoder.limit = encoder.limit ∧
        ∀ field ∈ t.fields, field.offset.toNat + field.type.size ≤ message.template.block.length →
          decoder.get .release field =
            some (decodeBlock (message.template.block.encode (message.values buf.data offset.toNat)) field) := by
  obtain ⟨encoder, hwrite, -, hlimit, hlength, -, hat⟩ := writeMessage_at profile message hfits
  have hheader : (headerAt encoder.buf.data offset.toNat).templateId = message.template.templateId := by
    rw [hat.header]
    rfl
  have hwindow := hat.window_eq (by rwa [hlength])
  unfold Message.length at hfits hlimit
  have hplace : offset.toNat + MessageHeader.block.length ≤ (⟨encoder.buf.data⟩ : ReadBuf).data.bytes.length := by
    rw [hlength]
    omega
  obtain ⟨decoder, hread, hbuf, hoffset, hblock, -, hlimit'⟩ :=
    readMessage_of_fits .release t hplace fun hdev => nomatch hdev
  rw [hat.header] at hblock
  refine ⟨encoder, hwrite, readMessage_other ht hknown hother hheader, decoder, hread, ?_, fun field hfield hinside => ?_⟩
  · apply UInt64.toNat_inj.mp
    rw [hlimit', hoffset, hblock, hlimit, Nat.add_assoc]
    rfl
  · rw [← hwindow, decodeBlock, RecordLayout.contents]
    change _ = some (field.type.fromLeBytes (window (window _ _ _) field.offset.toNat field.type.size))
    rw [window_window hinside, decoder.get_eq_ite .release _ hfield, hbuf, hoffset,
      if_pos (show _ ≤ encoder.buf.data.bytes.length by omega)]
    rw [hbuf, hoffset]
    exact hplace

/-- The decoder of a cancel request is not made from the sample in a development build, and reads the order id of the
sample in a release build. -/
theorem mistaken_decoder_sample : ∃ encoder decoder,
    writeMessage fillInfo .dev ⟨zeros 40 (by decide)⟩ 4 sampleMessage.calls = some encoder ∧
      readMessage cancelRequest .dev ⟨encoder.buf.data⟩ 4 = none ∧
      readMessage cancelRequest .release ⟨encoder.buf.data⟩ 4 = some decoder ∧
      decoder.get .release CancelRequest.orderId = some (7 : UInt64) := by
  have hother : cancelRequest ≠ sampleMessage.template := by
    intro heq
    exact absurd (congrArg Template.templateId heq) (by decide)
  obtain ⟨encoder, hwrite, hdev, decoder, hread, -, hget⟩ :=
    mistaken_decoder .dev sampleMessage (by simp [templates, sampleMessage]) cancelRequest (by simp [templates]) hother
      ⟨zeros 40 (by decide)⟩ 4 (by decide)
  refine ⟨encoder, decoder, hwrite, hdev, hread, ?_⟩
  exact (hget CancelRequest.orderId (by decide) (by decide)).trans rfl

end RoundTrip

end OpenMatch.Sbe

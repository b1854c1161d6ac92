import OpenMatch.Sbe.Setters

/-!
# Reading whatever bytes are there

A decoder is made from a header. It takes the length of the block and the version of the
schema from there; only a development build looks at the template id, and nothing looks at
the schema id. None of the bytes has to come from an encoder: here they are arbitrary.
-/

namespace OpenMatch.Sbe

open Window

/-- Read the header at `offset`, and make a decoder from it. -/
def readMessage (t : Template) (profile : Profile) (buf : ReadBuf) (offset : Usize) : Option (MessageDecoder t) :=
  MessageDecoder.default.header profile (MessageHeaderDecoder.default.wrap buf offset) offset

/-- What a header says. -/
@[ext]
structure Header where
  blockLength : UInt16
  templateId : UInt16
  schemaId : UInt16
  version : UInt16
  deriving DecidableEq

/-- The header whose bytes are at an offset. -/
def headerAt (slice : Slice) (start : ℕ) : Header :=
  let values := MessageHeader.block.valuesAt slice start
  ⟨values MessageHeader.blockLength, values MessageHeader.templateId, values MessageHeader.schemaId,
    values MessageHeader.version⟩

section Header

variable (profile : Profile)

/-- Reading a field of a header that lies in the buffer. -/
theorem MessageHeaderDecoder.get_eq {buf : ReadBuf} {offset : Usize}
    (hfits : offset.toNat + MessageHeader.block.length ≤ buf.data.bytes.length) {field : Field}
    (hfield : field ∈ MessageHeader.block.fields) :
    (MessageHeaderDecoder.default.wrap buf offset).get profile field =
      some (MessageHeader.block.valuesAt buf.data offset.toNat field) := by
  obtain ⟨index, hadd, hget⟩ := buf.getAt_valuesAt profile hfits hfield
  simp [MessageHeaderDecoder.get, MessageHeaderDecoder.wrap, Reader.getBuf, hadd, hget]

/-- A development build looks at the template id. -/
theorem MessageDecoder.assertTemplate_eq (t : Template) {buf : ReadBuf} {offset : Usize}
    (hfits : offset.toNat + MessageHeader.block.length ≤ buf.data.bytes.length) :
    MessageDecoder.assertTemplate t profile (MessageHeaderDecoder.default.wrap buf offset) =
      if profile = .dev → t.templateId = (headerAt buf.data offset.toNat).templateId then some () else none := by
  cases profile with
  | dev =>
    have htemplateId : (MessageHeaderDecoder.default.wrap buf offset).templateId .dev =
        some (headerAt buf.data offset.toNat).templateId :=
      MessageHeaderDecoder.get_eq .dev hfits (by decide)
    simp [assertTemplate, htemplateId]
  | release => simp [assertTemplate]

/-- A decoder is made from a header that lies in the buffer, if a development build agrees with the template id. -/
theorem readMessage_of_fits (t : Template) {buf : ReadBuf} {offset : Usize}
    (hfits : offset.toNat + MessageHeader.block.length ≤ buf.data.bytes.length)
    (htemplate : profile = .dev → t.templateId = (headerAt buf.data offset.toNat).templateId) :
    ∃ decoder, readMessage t profile buf offset = some decoder ∧ decoder.buf = buf ∧
      decoder.offset.toNat = offset.toNat + MessageHeader.block.length ∧
      decoder.actingBlockLength = (headerAt buf.data offset.toNat).blockLength ∧
      decoder.actingVersion = (headerAt buf.data offset.toNat).version ∧
      decoder.limit.toNat = decoder.offset.toNat + decoder.actingBlockLength.toNat := by
  have hlength : MessageHeader.block.length = MessageHeader.encodedLength.toNat := rfl
  have hassert := MessageDecoder.assertTemplate_eq profile t hfits
  rw [if_pos htemplate] at hassert
  have hparent : (MessageHeaderDecoder.default.wrap buf offset).takeParent.1.toOption = some buf := rfl
  have hblockLength : (MessageHeaderDecoder.default.wrap buf offset).blockLength profile =
      some (headerAt buf.data offset.toNat).blockLength :=
    MessageHeaderDecoder.get_eq profile hfits (by decide)
  have hversion : (MessageHeaderDecoder.default.wrap buf offset).version profile =
      some (headerAt buf.data offset.toNat).version :=
    MessageHeaderDecoder.get_eq profile hfits (by decide)
  have hplace : offset.toNat + MessageHeader.encodedLength.toNat ≤ buf.data.bytes.length := by omega
  obtain ⟨start, hstart, hoffset⟩ := profile.add_of_le_length hplace
  have hrange : start.toNat + (headerAt buf.data offset.toNat).blockLength.toUInt64.toNat < UInt64.size := by
    have hbound := (headerAt buf.data offset.toNat).blockLength.toNat_lt
    have hbytes := buf.data.fits
    have hsize : UInt64.size = 2 ^ 64 := rfl
    rw [UInt16.toNat_toUInt64]
    omega
  obtain ⟨limit, hlimit, hstop⟩ := profile.add_of_lt hrange
  refine ⟨⟨buf, start, start, limit, (headerAt buf.data offset.toNat).blockLength, (headerAt buf.data offset.toNat).version⟩,
    ?_, rfl, hoffset, rfl, rfl, ?_⟩
  · simp [readMessage, MessageDecoder.header, hassert, hblockLength, hversion, hparent, hstart, MessageDecoder.wrap,
      hlimit]
  · rw [hstop, UInt16.toNat_toUInt64]

/-- Where a field of a header was read, its bytes are in the buffer, unless their offset wrapped round. -/
theorem MessageHeaderDecoder.le_of_get {buf : ReadBuf} {offset : Usize} (field : Field)
    (hrange : offset.toNat + field.offset.toNat < UInt64.size)
    (hget : ((MessageHeaderDecoder.default.wrap buf offset).get profile field).isSome) :
    offset.toNat + field.offset.toNat + field.type.size ≤ buf.data.bytes.length := by
  obtain ⟨index, hadd, hindex⟩ := profile.add_of_lt hrange
  by_contra hbeyond
  have hnone : buf.getAt profile field.type index = none := by
    rw [ReadBuf.getAt_eq, if_neg (by omega)]
  simp [MessageHeaderDecoder.get, MessageHeaderDecoder.wrap, Reader.getBuf, hadd, hnone] at hget

/-- A decoder is made from a header only if the header lies in the buffer and a development build agrees
with the template id. -/
theorem readMessage_fits {t : Template} {buf : ReadBuf} {offset : Usize} {decoder : MessageDecoder t}
    (hread : readMessage t profile buf offset = some decoder) :
    offset.toNat + MessageHeader.block.length ≤ buf.data.bytes.length ∧
      (profile = .dev → t.templateId = (headerAt buf.data offset.toNat).templateId) := by
  simp only [readMessage, MessageDecoder.header, Option.bind_eq_bind, Option.bind_eq_some_iff] at hread
  obtain ⟨⟨⟩, hassert, blockLength, hblockLength, version, hversion, -⟩ := hread
  have hsize : UInt64.size = 2 ^ 64 := rfl
  have hbytes := buf.data.fits
  -- the block length is read at the offset itself, so an offset that the version's could wrap round from panics
  have hfirst : offset.toNat + 0 + 2 ≤ buf.data.bytes.length := by
    apply MessageHeaderDecoder.le_of_get profile MessageHeader.blockLength
    · exact offset.toNat_lt
    · exact Option.isSome_of_eq_some hblockLength
  have hlast : offset.toNat + 6 + 2 ≤ buf.data.bytes.length := by
    apply MessageHeaderDecoder.le_of_get profile MessageHeader.version
    · change offset.toNat + 6 < UInt64.size
      omega
    · exact Option.isSome_of_eq_some hversion
  have hfits : offset.toNat + MessageHeader.block.length ≤ buf.data.bytes.length := hlast
  refine ⟨hfits, ?_⟩
  rw [MessageDecoder.assertTemplate_eq profile t hfits] at hassert
  by_contra hwrong
  rw [if_neg hwrong] at hassert
  cases hassert

end Header

/-- A field of a message starts less than 64 KiB behind the start of the block. -/
theorem Template.offset_lt (t : Template) {field : Field} (hfield : field ∈ t.fields) : field.offset.toNat < 2 ^ 16 := by
  have hinside : field.offset.toNat + field.type.size ≤ t.blockLength.toNat := (t.fills.inside hfield).2
  have hbound := t.blockLength.toNat_lt
  have hsize : 0 < field.type.size := by cases field.type <;> decide
  omega

/-- A getter returns exactly if the bytes of its field are in the buffer. -/
theorem MessageDecoder.get_eq_ite {t : Template} (profile : Profile) (decoder : MessageDecoder t) {field : Field}
    (hoffset : decoder.offset.toNat ≤ decoder.buf.data.bytes.length) (hfield : field ∈ t.fields) :
    decoder.get profile field =
      if decoder.offset.toNat + field.offset.toNat + field.type.size ≤ decoder.buf.data.bytes.length then
        some (field.type.fromLeBytes
          (window decoder.buf.data.bytes (decoder.offset.toNat + field.offset.toNat) field.type.size)) else none := by
  have hbytes := decoder.buf.data.fits
  have hbound := t.offset_lt hfield
  have hsize : UInt64.size = 2 ^ 64 := rfl
  have hrange : decoder.offset.toNat + field.offset.toNat < UInt64.size := by omega
  obtain ⟨index, hadd, hindex⟩ := profile.add_of_lt hrange
  simp only [get, Reader.getBuf, Option.bind_eq_bind, Option.bind_some, hadd, ReadBuf.getAt_eq, hindex]

/-- Decoding arbitrary bytes. A decoder is made exactly if there is room for a header, and in a development
build if the header names the decoder's template. The schema id is not looked at. The length of the block that the
header gives decides about the limit of the decoder, and about nothing else: a getter returns exactly if
the bytes of its field are in the buffer, also where they lie behind that limit. -/
theorem decoding_any_bytes (t : Template) (profile : Profile) (buf : ReadBuf) (offset : Usize) :
    ((readMessage t profile buf offset).isSome ↔
      offset.toNat + MessageHeader.encodedLength.toNat ≤ buf.data.bytes.length ∧
        (profile = .dev → t.templateId = (headerAt buf.data offset.toNat).templateId)) ∧
    ∀ decoder, readMessage t profile buf offset = some decoder →
      decoder.offset.toNat = offset.toNat + MessageHeader.encodedLength.toNat ∧
      decoder.limit.toNat = decoder.offset.toNat + (headerAt buf.data offset.toNat).blockLength.toNat ∧
      decoder.actingBlockLength = (headerAt buf.data offset.toNat).blockLength ∧
      decoder.actingVersion = (headerAt buf.data offset.toNat).version ∧
      ∀ field ∈ t.fields, decoder.get profile field =
        if decoder.offset.toNat + field.offset.toNat + field.type.size ≤ buf.data.bytes.length then
          some (field.type.fromLeBytes
            (window buf.data.bytes (decoder.offset.toNat + field.offset.toNat) field.type.size)) else none := by
  constructor
  · constructor
    · intro hsome
      obtain ⟨decoder, hread⟩ := Option.isSome_iff_exists.mp hsome
      exact readMessage_fits profile hread
    · rintro ⟨hfits, htemplate⟩
      obtain ⟨decoder, hread, -⟩ := readMessage_of_fits profile t hfits htemplate
      exact Option.isSome_of_eq_some hread
  · intro decoder hread
    obtain ⟨hfits, htemplate⟩ := readMessage_fits profile hread
    obtain ⟨decoder', hread', hbuf, hoffset, hlength, hversion, hlimit⟩ := readMessage_of_fits profile t hfits htemplate
    obtain rfl : decoder' = decoder := Option.some.inj (hread'.symm.trans hread)
    refine ⟨hoffset, by rw [hlimit, hlength], hlength, hversion, fun field hfield => ?_⟩
    have hinside : decoder'.offset.toNat ≤ decoder'.buf.data.bytes.length := by
      rw [hbuf]
      omega
    rw [decoder'.get_eq_ite profile hinside hfield, hbuf]

end OpenMatch.Sbe

import OpenMatch.Common.RecordLayout
import OpenMatch.Sbe.Buffer

/-!
# The generated encoders and decoders

The eight message codecs are one program with different constants. A `Template` has these
constants; `MessageEncoder` and `MessageDecoder` are the program. The message header is a
composite that borrows the buffer of the codec it was made from, and gives it back.

Every function follows the source function of its name. Where the source adds nothing to an
offset, zero is added here, which never panics.
-/

namespace OpenMatch.Sbe

/-- The only error of the codec. -/
inductive SbeErr where
  | parentNotSet
  deriving DecidableEq

/-- `SBE_SCHEMA_ID`. -/
def schemaId : UInt16 := 1

/-- `SBE_SCHEMA_VERSION`. -/
def schemaVersion : UInt16 := 0

/-- A field: its type and its offset from the start of the block. -/
structure Field where
  type : Primitive
  offset : Usize
  deriving DecidableEq

/-- Where the fields lie in a block. -/
def fieldLayout : RecordLayout Field where
  offset field := field.offset.toNat
  width field := field.type.size

/-- Fields that fill a block of bytes. -/
structure Block where
  length : ℕ
  fields : List Field
  fills : fieldLayout.Fills 0 fields length

/-- What distinguishes the codec of one message from that of another. Its fields fill its block. -/
structure Template where
  /-- `SBE_BLOCK_LENGTH`. -/
  blockLength : UInt16
  /-- `SBE_TEMPLATE_ID`. -/
  templateId : UInt16
  fields : List Field
  fills : fieldLayout.Fills 0 fields blockLength.toNat

/-- The block of a message. -/
def Template.block (t : Template) : Block where
  length := t.blockLength.toNat
  fields := t.fields
  fills := t.fills

/-- What owns a buffer to write to. -/
class Writer (P : Type) where
  /-- Write through `get_buf_mut`. -/
  writeBuf : P → (WriteBuf → Option WriteBuf) → Option P

/-- What owns a buffer to read from. -/
class Reader (P : Type) where
  getBuf : P → Option ReadBuf

instance : Reader ReadBuf where
  getBuf buf := some buf

namespace MessageHeader

/-- `ENCODED_LENGTH`. -/
def encodedLength : Usize := 8

/-- The length of the block behind the header. -/
def blockLength : Field := ⟨.uint16, 0⟩

/-- Which message the block belongs to. -/
def templateId : Field := ⟨.uint16, 2⟩

/-- The schema of the message. -/
def schemaId : Field := ⟨.uint16, 4⟩

/-- The version of that schema. -/
def version : Field := ⟨.uint16, 6⟩

/-- The header is a block as well. -/
def block : Block where
  length := encodedLength.toNat
  fields := [blockLength, templateId, schemaId, version]
  fills := by decide

end MessageHeader

/-- Writes a message header into the buffer of its parent. -/
structure MessageHeaderEncoder (P : Type) where
  parent : Option P
  offset : Usize

namespace MessageHeaderEncoder

variable {P : Type}

/-- The derived default. -/
def default : MessageHeaderEncoder P := ⟨none, 0⟩

/-- Take a parent, and write at an offset of its buffer. -/
def wrap (header : MessageHeaderEncoder P) (parent : P) (offset : Usize) : MessageHeaderEncoder P :=
  { header with parent := some parent, offset := offset }

/-- Give the parent back: the source's function `parent`. -/
def takeParent (header : MessageHeaderEncoder P) : Except SbeErr P × MessageHeaderEncoder P :=
  match header.parent with
  | some parent => (.ok parent, { header with parent := none })
  | none => (.error .parentNotSet, header)

/-- A header encoder writes through its parent, and panics without one. -/
instance [Writer P] : Writer (MessageHeaderEncoder P) where
  writeBuf header write := do
    let parent ← header.parent
    let parent ← Writer.writeBuf parent write
    return { header with parent := some parent }

/-- Write a field of the header. -/
def put [Writer P] (profile : Profile) (header : MessageHeaderEncoder P) (field : Field) (value : field.type.Value) :
    Option (MessageHeaderEncoder P) := do
  let offset ← profile.add header.offset field.offset
  Writer.writeBuf header fun buf => buf.putAt profile field.type offset value

variable [Writer P] (profile : Profile) (header : MessageHeaderEncoder P) (value : UInt16)

/-- Write `blockLength`. -/
def blockLength : Option (MessageHeaderEncoder P) := header.put profile MessageHeader.blockLength value

/-- Write `templateId`. -/
def templateId : Option (MessageHeaderEncoder P) := header.put profile MessageHeader.templateId value

/-- Write `schemaId`. -/
def schemaId : Option (MessageHeaderEncoder P) := header.put profile MessageHeader.schemaId value

/-- Write `version`. -/
def version : Option (MessageHeaderEncoder P) := header.put profile MessageHeader.version value

end MessageHeaderEncoder

/-- Reads a message header from the buffer of its parent. -/
structure MessageHeaderDecoder (P : Type) where
  parent : Option P
  offset : Usize

namespace MessageHeaderDecoder

variable {P : Type}

/-- The derived default. -/
def default : MessageHeaderDecoder P := ⟨none, 0⟩

/-- Take a parent, and read at an offset of its buffer. -/
def wrap (header : MessageHeaderDecoder P) (parent : P) (offset : Usize) : MessageHeaderDecoder P :=
  { header with parent := some parent, offset := offset }

/-- Give the parent back: the source's function `parent`. -/
def takeParent (header : MessageHeaderDecoder P) : Except SbeErr P × MessageHeaderDecoder P :=
  match header.parent with
  | some parent => (.ok parent, { header with parent := none })
  | none => (.error .parentNotSet, header)

/-- A header decoder reads from its parent, and panics without one. -/
instance [Reader P] : Reader (MessageHeaderDecoder P) where
  getBuf header := header.parent.bind Reader.getBuf

/-- Read a field of the header. -/
def get [Reader P] (profile : Profile) (header : MessageHeaderDecoder P) (field : Field) :
    Option field.type.Value := do
  let buf ← Reader.getBuf header
  let offset ← profile.add header.offset field.offset
  buf.getAt profile field.type offset

variable [Reader P] (profile : Profile) (header : MessageHeaderDecoder P)

/-- Read `blockLength`. -/
def blockLength : Option UInt16 := header.get profile MessageHeader.blockLength

/-- Read `templateId`. -/
def templateId : Option UInt16 := header.get profile MessageHeader.templateId

/-- Read `schemaId`. -/
def schemaId : Option UInt16 := header.get profile MessageHeader.schemaId

/-- Read `version`. -/
def version : Option UInt16 := header.get profile MessageHeader.version

end MessageHeaderDecoder

/-- Writes the block of a message. -/
@[ext]
structure MessageEncoder (t : Template) where
  buf : WriteBuf
  initialOffset : Usize
  offset : Usize
  limit : Usize

namespace MessageEncoder

variable {t : Template}

/-- The derived default. -/
def default : MessageEncoder t := ⟨⟨.empty⟩, 0, 0, 0⟩

instance : Writer (MessageEncoder t) where
  writeBuf encoder write := (write encoder.buf).map fun buf => { encoder with buf := buf }

/-- The end of the message. -/
def getLimit (encoder : MessageEncoder t) : Usize := encoder.limit

/-- Move the end of the message. -/
def setLimit (encoder : MessageEncoder t) (limit : Usize) : MessageEncoder t := { encoder with limit := limit }

/-- Write a block at an offset of a buffer. -/
def wrap (profile : Profile) (encoder : MessageEncoder t) (buf : WriteBuf) (offset : Usize) :
    Option (MessageEncoder t) := do
  let limit ← profile.add offset t.blockLength.toUInt64
  return { encoder with buf := buf, initialOffset := offset, offset := offset, limit := limit }

/-- The length of the message. -/
def encodedLength (profile : Profile) (encoder : MessageEncoder t) : Option Usize :=
  profile.sub encoder.limit encoder.offset

/-- Write the message's header at an offset. -/
def header (profile : Profile) (encoder : MessageEncoder t) (offset : Usize) :
    Option (MessageHeaderEncoder (MessageEncoder t)) := do
  let header := MessageHeaderEncoder.default.wrap encoder offset
  let header ← header.blockLength profile t.blockLength
  let header ← header.templateId profile t.templateId
  let header ← header.schemaId profile schemaId
  header.version profile schemaVersion

/-- Write a field of the block. -/
def put (profile : Profile) (encoder : MessageEncoder t) (field : Field) (value : field.type.Value) :
    Option (MessageEncoder t) := do
  let offset ← profile.add encoder.offset field.offset
  Writer.writeBuf encoder fun buf => buf.putAt profile field.type offset value

end MessageEncoder

/-- Reads the block of a message. -/
structure MessageDecoder (t : Template) where
  buf : ReadBuf
  initialOffset : Usize
  offset : Usize
  limit : Usize
  actingBlockLength : UInt16
  actingVersion : UInt16

namespace MessageDecoder

variable {t : Template}

/-- The derived default. -/
def default : MessageDecoder t := ⟨⟨.empty⟩, 0, 0, 0, 0, 0⟩

instance : Reader (MessageDecoder t) where
  getBuf decoder := some decoder.buf

/-- The end of the message. -/
def getLimit (decoder : MessageDecoder t) : Usize := decoder.limit

/-- Move the end of the message. -/
def setLimit (decoder : MessageDecoder t) (limit : Usize) : MessageDecoder t := { decoder with limit := limit }

/-- Read a block at an offset of a buffer. -/
def wrap (profile : Profile) (decoder : MessageDecoder t) (buf : ReadBuf) (offset : Usize)
    (actingBlockLength actingVersion : UInt16) : Option (MessageDecoder t) := do
  let limit ← profile.add offset actingBlockLength.toUInt64
  return { decoder with
    buf := buf
    initialOffset := offset
    offset := offset
    limit := limit
    actingBlockLength := actingBlockLength
    actingVersion := actingVersion }

/-- The length of the message. -/
def encodedLength (profile : Profile) (decoder : MessageDecoder t) : Option Usize :=
  profile.sub decoder.limit decoder.offset

/-- `debug_assert_eq!(SBE_TEMPLATE_ID, header.template_id())`, which a release build skips. -/
def assertTemplate (t : Template) (profile : Profile) (header : MessageHeaderDecoder ReadBuf) : Option Unit :=
  match profile with
  | .dev => do
    let templateId ← header.templateId profile
    if t.templateId = templateId then some () else none
  | .release => some ()

/-- Read the block behind a header. -/
def header (profile : Profile) (decoder : MessageDecoder t) (header : MessageHeaderDecoder ReadBuf) (offset : Usize) :
    Option (MessageDecoder t) := do
  assertTemplate t profile header
  let actingBlockLength ← header.blockLength profile
  let actingVersion ← header.version profile
  let buf ← header.takeParent.1.toOption
  let start ← profile.add offset MessageHeader.encodedLength
  decoder.wrap profile buf start actingBlockLength actingVersion

/-- Read a field of the block. -/
def get (profile : Profile) (decoder : MessageDecoder t) (field : Field) : Option field.type.Value := do
  let buf ← Reader.getBuf decoder
  let offset ← profile.add decoder.offset field.offset
  buf.getAt profile field.type offset

end MessageDecoder

end OpenMatch.Sbe

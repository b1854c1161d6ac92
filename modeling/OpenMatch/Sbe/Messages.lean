import OpenMatch.Sbe.Codec

/-!
# The messages

The eight messages with their constants, and the setters and getters of their fields.
`messageSchema` is the schema that the codec was generated from. What the generator should
have made of it, fields one after the other in the order of the schema, is what it made.
-/

namespace OpenMatch.Sbe

/-- The null value of an optional `uint64` field. -/
def nullValue : UInt64 := 0xffffffffffffffff

namespace NewOrderRequest

/-- The id of the new order. -/
def orderId : Field := ⟨.uint64, 0⟩

/-- Its price. -/
def price : Field := ⟨.uint64, 8⟩

/-- Its quantity. -/
def qty : Field := ⟨.uint64, 16⟩

end NewOrderRequest

/-- A request for a new order. -/
def newOrderRequest : Template where
  blockLength := 24
  templateId := 1
  fields := [NewOrderRequest.orderId, NewOrderRequest.price, NewOrderRequest.qty]
  fills := by decide

/-- Writes a `NewOrderRequest`. -/
abbrev NewOrderRequestEncoder := MessageEncoder newOrderRequest

namespace NewOrderRequestEncoder

variable (profile : Profile) (encoder : NewOrderRequestEncoder)

/-- Write `orderId`. -/
def orderId (value : UInt64) : Option NewOrderRequestEncoder := encoder.put profile NewOrderRequest.orderId value

/-- Write `price`. -/
def price (value : UInt64) : Option NewOrderRequestEncoder := encoder.put profile NewOrderRequest.price value

/-- Write `qty`. -/
def qty (value : UInt64) : Option NewOrderRequestEncoder := encoder.put profile NewOrderRequest.qty value

end NewOrderRequestEncoder

/-- Reads a `NewOrderRequest`. -/
abbrev NewOrderRequestDecoder := MessageDecoder newOrderRequest

namespace NewOrderRequestDecoder

variable (profile : Profile) (decoder : NewOrderRequestDecoder)

/-- Read `orderId`. -/
def orderId : Option UInt64 := decoder.get profile NewOrderRequest.orderId

/-- Read `price`. -/
def price : Option UInt64 := decoder.get profile NewOrderRequest.price

/-- Read `qty`. -/
def qty : Option UInt64 := decoder.get profile NewOrderRequest.qty

end NewOrderRequestDecoder

namespace CancelRequest

/-- The order to cancel. -/
def orderId : Field := ⟨.uint64, 0⟩

end CancelRequest

/-- A request to cancel an order. -/
def cancelRequest : Template where
  blockLength := 8
  templateId := 2
  fields := [CancelRequest.orderId]
  fills := by decide

/-- Writes a `CancelRequest`. -/
abbrev CancelRequestEncoder := MessageEncoder cancelRequest

namespace CancelRequestEncoder

variable (profile : Profile) (encoder : CancelRequestEncoder)

/-- Write `orderId`. -/
def orderId (value : UInt64) : Option CancelRequestEncoder := encoder.put profile CancelRequest.orderId value

end CancelRequestEncoder

/-- Reads a `CancelRequest`. -/
abbrev CancelRequestDecoder := MessageDecoder cancelRequest

namespace CancelRequestDecoder

variable (profile : Profile) (decoder : CancelRequestDecoder)

/-- Read `orderId`. -/
def orderId : Option UInt64 := decoder.get profile CancelRequest.orderId

end CancelRequestDecoder

namespace UpdateQtyRequest

/-- The order to update. -/
def orderId : Field := ⟨.uint64, 0⟩

/-- Its new quantity. -/
def newQty : Field := ⟨.uint64, 8⟩

end UpdateQtyRequest

/-- A request to give an order a new quantity. -/
def updateQtyRequest : Template where
  blockLength := 16
  templateId := 3
  fields := [UpdateQtyRequest.orderId, UpdateQtyRequest.newQty]
  fills := by decide

/-- Writes a `UpdateQtyRequest`. -/
abbrev UpdateQtyRequestEncoder := MessageEncoder updateQtyRequest

namespace UpdateQtyRequestEncoder

variable (profile : Profile) (encoder : UpdateQtyRequestEncoder)

/-- Write `orderId`. -/
def orderId (value : UInt64) : Option UpdateQtyRequestEncoder := encoder.put profile UpdateQtyRequest.orderId value

/-- Write `newQty`. -/
def newQty (value : UInt64) : Option UpdateQtyRequestEncoder := encoder.put profile UpdateQtyRequest.newQty value

end UpdateQtyRequestEncoder

/-- Reads a `UpdateQtyRequest`. -/
abbrev UpdateQtyRequestDecoder := MessageDecoder updateQtyRequest

namespace UpdateQtyRequestDecoder

variable (profile : Profile) (decoder : UpdateQtyRequestDecoder)

/-- Read `orderId`. -/
def orderId : Option UInt64 := decoder.get profile UpdateQtyRequest.orderId

/-- Read `newQty`. -/
def newQty : Option UInt64 := decoder.get profile UpdateQtyRequest.newQty

end UpdateQtyRequestDecoder

namespace PartialFillRequest

/-- The quantity to fill. -/
def qtyToFill : Field := ⟨.uint64, 0⟩

end PartialFillRequest

/-- A request to fill a part of the order at the head. -/
def partialFillRequest : Template where
  blockLength := 8
  templateId := 4
  fields := [PartialFillRequest.qtyToFill]
  fills := by decide

/-- Writes a `PartialFillRequest`. -/
abbrev PartialFillRequestEncoder := MessageEncoder partialFillRequest

namespace PartialFillRequestEncoder

variable (profile : Profile) (encoder : PartialFillRequestEncoder)

/-- Write `qtyToFill`. -/
def qtyToFill (value : UInt64) : Option PartialFillRequestEncoder := encoder.put profile PartialFillRequest.qtyToFill value

end PartialFillRequestEncoder

/-- Reads a `PartialFillRequest`. -/
abbrev PartialFillRequestDecoder := MessageDecoder partialFillRequest

namespace PartialFillRequestDecoder

variable (profile : Profile) (decoder : PartialFillRequestDecoder)

/-- Read `qtyToFill`. -/
def qtyToFill : Option UInt64 := decoder.get profile PartialFillRequest.qtyToFill

end PartialFillRequestDecoder

namespace TimedResult

/-- When the result was committed. -/
def timestampNs : Field := ⟨.uint64, 0⟩

/-- What kind of result it is. -/
def resultCode : Field := ⟨.uint32, 8⟩

end TimedResult

/-- The time and the kind of a result. -/
def timedResult : Template where
  blockLength := 12
  templateId := 10
  fields := [TimedResult.timestampNs, TimedResult.resultCode]
  fills := by decide

/-- Writes a `TimedResult`. -/
abbrev TimedResultEncoder := MessageEncoder timedResult

namespace TimedResultEncoder

variable (profile : Profile) (encoder : TimedResultEncoder)

/-- Write `timestampNs`. -/
def timestampNs (value : UInt64) : Option TimedResultEncoder := encoder.put profile TimedResult.timestampNs value

/-- Write `resultCode`. -/
def resultCode (value : UInt32) : Option TimedResultEncoder := encoder.put profile TimedResult.resultCode value

end TimedResultEncoder

/-- Reads a `TimedResult`. -/
abbrev TimedResultDecoder := MessageDecoder timedResult

namespace TimedResultDecoder

variable (profile : Profile) (decoder : TimedResultDecoder)

/-- Read `timestampNs`. -/
def timestampNs : Option UInt64 := decoder.get profile TimedResult.timestampNs

/-- Read `resultCode`. -/
def resultCode : Option UInt32 := decoder.get profile TimedResult.resultCode

end TimedResultDecoder

namespace FillInfo

/-- The order that was filled. -/
def orderId : Field := ⟨.uint64, 0⟩

/-- The quantity that was filled. -/
def filledQty : Field := ⟨.uint64, 8⟩

/-- The quantity that remains, if any does. -/
def remainingQty : Field := ⟨.uint64, 16⟩

end FillInfo

/-- A fill, with the quantity that remains if any does. -/
def fillInfo : Template where
  blockLength := 24
  templateId := 11
  fields := [FillInfo.orderId, FillInfo.filledQty, FillInfo.remainingQty]
  fills := by decide

/-- Writes a `FillInfo`. -/
abbrev FillInfoEncoder := MessageEncoder fillInfo

namespace FillInfoEncoder

variable (profile : Profile) (encoder : FillInfoEncoder)

/-- Write `orderId`. -/
def orderId (value : UInt64) : Option FillInfoEncoder := encoder.put profile FillInfo.orderId value

/-- Write `filledQty`. -/
def filledQty (value : UInt64) : Option FillInfoEncoder := encoder.put profile FillInfo.filledQty value

/-- Write `remainingQty`. -/
def remainingQty (value : UInt64) : Option FillInfoEncoder := encoder.put profile FillInfo.remainingQty value

end FillInfoEncoder

/-- Reads a `FillInfo`. -/
abbrev FillInfoDecoder := MessageDecoder fillInfo

namespace FillInfoDecoder

variable (profile : Profile) (decoder : FillInfoDecoder)

/-- Read `orderId`. -/
def orderId : Option UInt64 := decoder.get profile FillInfo.orderId

/-- Read `filledQty`. -/
def filledQty : Option UInt64 := decoder.get profile FillInfo.filledQty

/-- Read `remainingQty`, which is optional: the null value stands for none. -/
def remainingQty : Option (Option UInt64) := do
  let value : UInt64 ← decoder.get profile FillInfo.remainingQty
  if value = nullValue then some none else some (some value)

end FillInfoDecoder

namespace RemoveInfo

/-- The order that was cancelled. -/
def orderId : Field := ⟨.uint64, 0⟩

/-- The quantity it still had. -/
def canceledQty : Field := ⟨.uint64, 8⟩

end RemoveInfo

/-- A cancelled order. -/
def removeInfo : Template where
  blockLength := 16
  templateId := 12
  fields := [RemoveInfo.orderId, RemoveInfo.canceledQty]
  fills := by decide

/-- Writes a `RemoveInfo`. -/
abbrev RemoveInfoEncoder := MessageEncoder removeInfo

namespace RemoveInfoEncoder

variable (profile : Profile) (encoder : RemoveInfoEncoder)

/-- Write `orderId`. -/
def orderId (value : UInt64) : Option RemoveInfoEncoder := encoder.put profile RemoveInfo.orderId value

/-- Write `canceledQty`. -/
def canceledQty (value : UInt64) : Option RemoveInfoEncoder := encoder.put profile RemoveInfo.canceledQty value

end RemoveInfoEncoder

/-- Reads a `RemoveInfo`. -/
abbrev RemoveInfoDecoder := MessageDecoder removeInfo

namespace RemoveInfoDecoder

variable (profile : Profile) (decoder : RemoveInfoDecoder)

/-- Read `orderId`. -/
def orderId : Option UInt64 := decoder.get profile RemoveInfo.orderId

/-- Read `canceledQty`. -/
def canceledQty : Option UInt64 := decoder.get profile RemoveInfo.canceledQty

end RemoveInfoDecoder

namespace QtyUpdatedInfo

/-- The order that was updated. -/
def orderId : Field := ⟨.uint64, 0⟩

/-- Its new quantity. -/
def newQty : Field := ⟨.uint64, 8⟩

end QtyUpdatedInfo

/-- An order with its new quantity. -/
def qtyUpdatedInfo : Template where
  blockLength := 16
  templateId := 13
  fields := [QtyUpdatedInfo.orderId, QtyUpdatedInfo.newQty]
  fills := by decide

/-- Writes a `QtyUpdatedInfo`. -/
abbrev QtyUpdatedInfoEncoder := MessageEncoder qtyUpdatedInfo

namespace QtyUpdatedInfoEncoder

variable (profile : Profile) (encoder : QtyUpdatedInfoEncoder)

/-- Write `orderId`. -/
def orderId (value : UInt64) : Option QtyUpdatedInfoEncoder := encoder.put profile QtyUpdatedInfo.orderId value

/-- Write `newQty`. -/
def newQty (value : UInt64) : Option QtyUpdatedInfoEncoder := encoder.put profile QtyUpdatedInfo.newQty value

end QtyUpdatedInfoEncoder

/-- Reads a `QtyUpdatedInfo`. -/
abbrev QtyUpdatedInfoDecoder := MessageDecoder qtyUpdatedInfo

namespace QtyUpdatedInfoDecoder

variable (profile : Profile) (decoder : QtyUpdatedInfoDecoder)

/-- Read `orderId`. -/
def orderId : Option UInt64 := decoder.get profile QtyUpdatedInfo.orderId

/-- Read `newQty`. -/
def newQty : Option UInt64 := decoder.get profile QtyUpdatedInfo.newQty

end QtyUpdatedInfoDecoder

/-- The codecs of all messages, in the order of the schema. -/
def templates : List Template :=
  [newOrderRequest, cancelRequest, updateQtyRequest, partialFillRequest, timedResult, fillInfo, removeInfo,
    qtyUpdatedInfo]

/-- The template ids tell the templates apart. -/
theorem find_templates {t : Template} (ht : t ∈ templates) :
    templates.find? (fun other => other.templateId = t.templateId) = some t := by
  simp only [templates, List.mem_cons, List.not_mem_nil, or_false] at ht
  rcases ht with rfl | rfl | rfl | rfl | rfl | rfl | rfl | rfl <;> rfl

/-- A message of the schema: its id, and the types of its fields. -/
structure SchemaMessage where
  id : UInt16
  fieldTypes : List Primitive

/-- The messages of `messages.xml`, with the type aliases replaced by the primitive types. -/
def messageSchema : List SchemaMessage :=
  [⟨1, [.uint64, .uint64, .uint64]⟩, ⟨2, [.uint64]⟩, ⟨3, [.uint64, .uint64]⟩, ⟨4, [.uint64]⟩,
    ⟨10, [.uint64, .uint32]⟩, ⟨11, [.uint64, .uint64, .uint64]⟩, ⟨12, [.uint64, .uint64]⟩, ⟨13, [.uint64, .uint64]⟩]

/-- The fields of these types, one behind the other from an offset on. -/
def fieldsFrom (offset : Usize) : List Primitive → List Field
  | [] => []
  | type :: rest => ⟨type, offset⟩ :: fieldsFrom (offset + UInt64.ofNat type.size) rest

/-- The codecs have the ids, the fields and the block lengths of the schema. -/
theorem templates_eq_schema :
    (templates.map fun t => (t.templateId, t.fields, t.blockLength.toNat)) =
      messageSchema.map fun message =>
        (message.id, fieldsFrom 0 message.fieldTypes, (message.fieldTypes.map Primitive.size).sum) := by
  decide

end OpenMatch.Sbe

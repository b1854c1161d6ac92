import OpenMatch.Sbe.RoundTrip

/-!
# The optional field

The remaining quantity of a fill is the one optional field of the schema. A decoder takes
the null value for none, and an encoder does nothing about the field on its own. So a client
that sends no remaining quantity has to set the null value; one that only leaves the field out
sends what the buffer held before.
-/

namespace OpenMatch.Sbe

open Window

/-- Eight bytes are read as the null value exactly if all their bits are set. -/
theorem fromLeBytes_eq_nullValue {bytes : List UInt8} (hlength : bytes.length = 8) :
    Primitive.uint64.fromLeBytes bytes = nullValue ↔ bytes = List.replicate 8 255 := by
  constructor
  · intro hnull
    have hbytes := Primitive.toLeBytes_fromLeBytes .uint64 hlength
    rw [hnull] at hbytes
    exact hbytes.symm.trans (by decide)
  · intro hbytes
    rw [hbytes]
    decide

namespace Message

variable {message : Message} {before : Slice} {start : ℕ}

/-- A field of a message has the value of the last call that sets it. -/
theorem values_of_last {field : Field} {value : field.type.Value} {earlier later : List EncoderCall}
    (hcalls : message.calls = earlier ++ .put ⟨field, value⟩ :: later)
    (hlater : ∀ call ∈ later, ∀ setting ∈ call.settings, setting.1 ≠ field) :
    message.values before start field = value := by
  have hlast : ∀ setting ∈ later.flatMap EncoderCall.settings, setting.1 ≠ field := by
    intro setting hsetting
    obtain ⟨call, hcall, hmem⟩ := List.mem_flatMap.mp hsetting
    exact hlater call hcall setting hmem
  have hsettings : message.settings =
      earlier.flatMap EncoderCall.settings ++ ⟨field, value⟩ :: later.flatMap EncoderCall.settings := by
    rw [settings, hcalls, List.flatMap_append, List.flatMap_cons]
    rfl
  rw [values, hsettings]
  exact Values.setAll_of_last hlast _ _

/-- A field that no call sets has the value that is read from what was there before. -/
theorem values_of_unset {field : Field} (hunset : ∀ call ∈ message.calls, ∀ setting ∈ call.settings, setting.1 ≠ field) :
    message.values before start field =
      message.template.block.valuesAt before (start + MessageHeader.block.length) field := by
  apply Values.setAll_of_unset
  intro setting hsetting
  obtain ⟨call, hcall, hmem⟩ := List.mem_flatMap.mp hsetting
  exact hunset call hcall setting hmem

end Message

/-- What a getter of an optional field makes of a value. -/
theorem FillInfoDecoder.remainingQty_of_get {profile : Profile} {decoder : FillInfoDecoder} {value : UInt64}
    (hget : decoder.get profile FillInfo.remainingQty = some value) :
    decoder.remainingQty profile = some (if value = nullValue then none else some value) := by
  rw [remainingQty, hget]
  by_cases hnull : value = nullValue
  · rw [if_pos hnull]
    exact if_pos hnull
  · rw [if_neg hnull]
    exact if_neg hnull

/-- The remaining quantity of a fill, whatever calls its client makes in whatever order, the header among them. If it
is set, a decoder reads the value it was set to last, and none for the null value. If it is never set, it is
none exactly if all eight bytes at its place were `0xff` before the message, and otherwise some quantity that
the client did not send. -/
theorem remaining_quantity (profile profile' : Profile) (calls : List EncoderCall) (hheader : .header ∈ calls)
    (hfields : ∀ call ∈ calls, ∀ setting ∈ call.settings, setting.1 ∈ fillInfo.fields) (buf : WriteBuf)
    (offset : Usize) (hfits : offset.toNat + 32 ≤ buf.data.bytes.length) :
    ∃ encoder decoder, writeMessage fillInfo profile buf offset calls = some encoder ∧
      readMessage fillInfo profile' ⟨encoder.buf.data⟩ offset = some decoder ∧
      (∀ earlier later (value : UInt64), calls = earlier ++ .put ⟨FillInfo.remainingQty, value⟩ :: later →
        (∀ call ∈ later, ∀ setting ∈ call.settings, setting.1 ≠ FillInfo.remainingQty) →
          FillInfoDecoder.remainingQty profile' decoder = some (if value = nullValue then none else some value)) ∧
      ((∀ call ∈ calls, ∀ setting ∈ call.settings, setting.1 ≠ FillInfo.remainingQty) →
        ∃ stale, FillInfoDecoder.remainingQty profile' decoder = some stale ∧
          (stale = none ↔
            ∀ k, offset.toNat + 24 ≤ k → k < offset.toNat + 32 → buf.data.bytes[k]? = some 255)) := by
  let message : Message := ⟨fillInfo, calls, hheader, hfields⟩
  have hfits' : offset.toNat + message.length ≤ buf.data.bytes.length := hfits
  obtain ⟨encoder, hwrite, -, -, hlength, -, hat⟩ := writeMessage_at profile message hfits'
  have hplace : offset.toNat + message.length ≤ (⟨encoder.buf.data⟩ : ReadBuf).data.bytes.length := by rwa [hlength]
  obtain ⟨decoder, hread, -, -, -, -, hget⟩ := readMessage_of_at profile' hplace hat
  have hmem : FillInfo.remainingQty ∈ fillInfo.fields := by decide
  have hremaining := FillInfoDecoder.remainingQty_of_get (hget FillInfo.remainingQty hmem)
  refine ⟨encoder, decoder, hwrite, hread, fun earlier later value hcalls hlater => ?_, fun hunset => ?_⟩
  · have hvalue : message.values buf.data offset.toNat FillInfo.remainingQty = value :=
      Message.values_of_last hcalls hlater
    rw [hvalue] at hremaining
    exact hremaining
  · have hinside : 16 + 8 ≤ fillInfo.block.length := by decide
    have hvalue : message.values buf.data offset.toNat FillInfo.remainingQty =
        Primitive.uint64.fromLeBytes (window buf.data.bytes (offset.toNat + 24) 8) :=
      (Message.values_of_unset hunset).trans (congrArg Primitive.uint64.fromLeBytes (window_window hinside))
    rw [hvalue] at hremaining
    have hones := (fromLeBytes_eq_nullValue (length_window (show offset.toNat + 24 + 8 ≤ buf.data.bytes.length by omega))).trans
      (window_eq_replicate (255 : UInt8))
    refine ⟨_, hremaining, ?_⟩
    rw [← hones]
    by_cases hnull : Primitive.uint64.fromLeBytes (window buf.data.bytes (offset.toNat + 24) 8) = nullValue
    · simp [hnull]
    · simp [hnull]

/-- The sample message leaves the remaining quantity out. In a buffer of zeros a quantity is read all the same. -/
theorem remaining_quantity_sample : ∃ encoder decoder,
    writeMessage fillInfo .dev ⟨zeros 40 (by decide)⟩ 4 sampleMessage.calls = some encoder ∧
      readMessage fillInfo .release ⟨encoder.buf.data⟩ 4 = some decoder ∧
      ∃ qty, FillInfoDecoder.remainingQty .release decoder = some (some qty) := by
  obtain ⟨encoder, decoder, hwrite, hread, -, hunset⟩ := remaining_quantity .dev .release sampleMessage.calls
    sampleMessage.header_mem sampleMessage.fields_mem ⟨zeros 40 (by decide)⟩ 4 (by decide)
  obtain ⟨stale, hstale, hnone⟩ := hunset (by decide)
  cases stale with
  | none => exact absurd (hnone.mp rfl 28 (by decide) (by decide)) (by decide)
  | some qty => exact ⟨encoder, decoder, hwrite, hread, qty, hstale⟩

end OpenMatch.Sbe

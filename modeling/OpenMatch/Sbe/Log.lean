import Mathlib.Data.List.Forall2
import OpenMatch.Sbe.RoundTrip

/-!
# Messages back to back

The limit of an encoder is where the next message goes, and the limit of a decoder is where
the next message starts. A client that follows them can write any number of messages behind
each other. A client that follows them while reading, and asks each header for the template,
gets the same messages.
-/

namespace OpenMatch.Sbe

open Window

/-- Write messages back to back, each at the limit of the one before. -/
def writeLog (profile : Profile) : WriteBuf → Usize → List Message → Option (WriteBuf × Usize)
  | buf, offset, [] => some (buf, offset)
  | buf, offset, message :: rest => do
    let encoder ← writeMessage message.template profile buf offset message.calls
    writeLog profile encoder.buf encoder.getLimit rest

/-- What is read of a message: its template, and a decoder of it. -/
abbrev Received := (t : Template) × MessageDecoder t

/-- Read a number of messages, each at the limit of the one before, with the decoder that the header asks for. -/
def readLog (profile : Profile) (buf : ReadBuf) : Usize → ℕ → Option (List Received)
  | _, 0 => some []
  | offset, n + 1 => do
    let templateId ← (MessageHeaderDecoder.default.wrap buf offset).templateId profile
    let t ← templates.find? fun t => t.templateId = templateId
    let decoder ← readMessage t profile buf offset
    let rest ← readLog profile buf decoder.getLimit n
    return ⟨t, decoder⟩ :: rest

/-- The messages of a log are in a slice. -/
def LogAt (before after : Slice) : ℕ → List Message → Prop
  | _, [] => True
  | start, message :: rest => message.At before after start ∧ LogAt before after (start + message.length) rest

/-- The length of a log. -/
def logLength (messages : List Message) : ℕ := (messages.map Message.length).sum

variable {before before' after after' : Slice} {start : ℕ}

/-- The values at a place depend on the bytes there. -/
theorem Block.valuesAt_congr (block : Block) {slice slice' : Slice}
    (h : ∀ k, start ≤ k → k < start + block.length → slice.bytes[k]? = slice'.bytes[k]?) :
    block.valuesAt slice start = block.valuesAt slice' start := by
  rw [Block.valuesAt, Block.valuesAt, window_congr h]

/-- Whether a message is there depends on the bytes at its place. -/
theorem Message.At.congr {message : Message} (hat : message.At before after start)
    (hbefore : ∀ k, start ≤ k → before.bytes[k]? = before'.bytes[k]?)
    (hafter : ∀ k, start ≤ k → k < start + message.length → after.bytes[k]? = after'.bytes[k]?) :
    message.At before' after' start := by
  unfold Message.length at hafter
  constructor
  · rw [← hat.header, headerAt, headerAt, MessageHeader.block.valuesAt_congr]
    intro k hstart hstop
    exact (hafter k hstart (by omega)).symm
  · intro field hfield
    have hvalues : message.values before' start = message.values before start := by
      rw [Message.values, Message.values, message.template.block.valuesAt_congr]
      intro k hstart _
      exact (hbefore k (by omega)).symm
    rw [hvalues, ← hat.fields field hfield, message.template.block.valuesAt_congr]
    intro k hstart hstop
    exact (hafter k (by omega) (by omega)).symm

/-- A log does not depend on what was in front of it. -/
theorem LogAt.congr_before {messages : List Message} (hlog : LogAt before after start messages)
    (hbefore : ∀ k, start ≤ k → before.bytes[k]? = before'.bytes[k]?) : LogAt before' after start messages := by
  induction messages generalizing start with
  | nil => trivial
  | cons message rest ih =>
    obtain ⟨hat, hrest⟩ := hlog
    constructor
    · exact hat.congr hbefore fun _ _ _ => rfl
    · apply ih hrest
      intro k hk
      exact hbefore k (by omega)

/-- Where a log has a place, writing it returns. Then the log is there, and the rest of the buffer is what it was. -/
theorem writeLog_at (profile : Profile) (messages : List Message) {buf : WriteBuf} {offset : Usize}
    (hfits : offset.toNat + logLength messages ≤ buf.data.bytes.length) :
    ∃ buf' stop, writeLog profile buf offset messages = some (buf', stop) ∧
      stop.toNat = offset.toNat + logLength messages ∧ buf'.data.bytes.length = buf.data.bytes.length ∧
      (∀ k, Apart offset.toNat (logLength messages) k 1 → buf'.data.bytes[k]? = buf.data.bytes[k]?) ∧
      LogAt buf.data buf'.data offset.toNat messages := by
  induction messages generalizing buf offset with
  | nil => exact ⟨buf, offset, rfl, rfl, rfl, fun _ _ => rfl, trivial⟩
  | cons message rest ih =>
    simp only [logLength, List.map_cons, List.sum_cons] at hfits ih ⊢
    obtain ⟨encoder, hwrite, -, hlimit, hlength, houtside, hat⟩ :=
      writeMessage_at profile message (show offset.toNat + message.length ≤ buf.data.bytes.length by omega)
    obtain ⟨buf', stop, hlog, hstop, hlength', houtside', hrest⟩ :=
      ih (show encoder.limit.toNat + _ ≤ encoder.buf.data.bytes.length by omega)
    refine ⟨buf', stop, ?_, by omega, hlength'.trans hlength, fun k hk => ?_, ?_, ?_⟩
    · simp [writeLog, hwrite, MessageEncoder.getLimit, hlog]
    · unfold Apart at hk houtside houtside'
      rw [houtside' k (by omega), houtside k (by omega)]
    · apply hat.congr fun _ _ => rfl
      intro k _ hk
      unfold Apart at houtside'
      exact (houtside' k (by omega)).symm
    · rw [hlimit] at hrest
      apply hrest.congr_before
      intro k hk
      unfold Apart at houtside
      exact houtside k (by omega)

/-- The decoder belongs to the template of the message, and reads every field that the message sets. -/
def Received.Matches (profile : Profile) (message : Message) (received : Received) : Prop :=
  received.1 = message.template ∧ ∀ field ∈ message.template.fields,
    (∃ setting ∈ message.settings, setting.1 = field) →
      ∀ values : Values, received.2.get profile field = some (values.setAll message.settings field)

/-- A log that is in the buffer is read back. -/
theorem readLog_of_logAt (profile : Profile) {messages : List Message} {buf : ReadBuf} {offset : Usize}
    (hknown : ∀ message ∈ messages, message.template ∈ templates)
    (hfits : offset.toNat + logLength messages ≤ buf.data.bytes.length)
    (hlog : LogAt before buf.data offset.toNat messages) :
    ∃ received, readLog profile buf offset messages.length = some received ∧
      List.Forall₂ (Received.Matches profile) messages received := by
  induction messages generalizing offset with
  | nil => exact ⟨[], rfl, .nil⟩
  | cons message rest ih =>
    obtain ⟨hat, hrest⟩ := hlog
    obtain ⟨hfirst, hothers⟩ := List.forall_mem_cons.mp hknown
    simp only [logLength, List.map_cons, List.sum_cons] at hfits ih
    have hplace : offset.toNat + message.length ≤ buf.data.bytes.length := by omega
    obtain ⟨decoder, hread, -, -, -, hlimit, hget⟩ := readMessage_of_at profile hplace hat
    have htemplate : (MessageHeaderDecoder.default.wrap buf offset).templateId profile =
        some (headerAt buf.data offset.toNat).templateId :=
      MessageHeaderDecoder.get_eq profile (by unfold Message.length at hplace; omega) (by decide)
    rw [hat.header] at htemplate
    rw [← hlimit] at hrest
    obtain ⟨received, hreceived, hall⟩ := ih hothers (by omega) hrest
    refine ⟨⟨message.template, decoder⟩ :: received, ?_, .cons ⟨rfl, ?_⟩ hall⟩
    · simp [readLog, htemplate, Template.header, find_templates hfirst, hread, MessageDecoder.getLimit, hreceived]
    · intro field hfield hset values
      rw [hget field hfield, Message.values, Values.setAll_of_mem hset]

/-- Messages that are written back to back, each at the limit of the encoder before it, are all read back in
their order, by a client that asks each header for the template and goes on at the limit of the decoder.
Every field that was set is read as it was set last, and only the bytes of the log are changed. -/
theorem log_roundtrip (profile profile' : Profile) (messages : List Message)
    (hknown : ∀ message ∈ messages, message.template ∈ templates) (buf : WriteBuf) (offset : Usize)
    (hfits : offset.toNat + logLength messages ≤ buf.data.bytes.length) :
    ∃ buf' stop, writeLog profile buf offset messages = some (buf', stop) ∧
      stop.toNat = offset.toNat + logLength messages ∧
      (∀ k, k < offset.toNat ∨ offset.toNat + logLength messages ≤ k → buf'.data.bytes[k]? = buf.data.bytes[k]?) ∧
      ∃ received, readLog profile' ⟨buf'.data⟩ offset messages.length = some received ∧
        List.Forall₂ (Received.Matches profile') messages received := by
  obtain ⟨buf', stop, hwrite, hstop, hlength, houtside, hlog⟩ := writeLog_at profile messages hfits
  have hfits' : offset.toNat + logLength messages ≤ (⟨buf'.data⟩ : ReadBuf).data.bytes.length := by rwa [hlength]
  obtain ⟨received, hread, hall⟩ := readLog_of_logAt profile' hknown hfits' hlog
  refine ⟨buf', stop, hwrite, hstop, fun k hk => houtside k ?_, received, hread, hall⟩
  unfold Apart
  omega

/-- The sample message twice, read by a client that did not write it. -/
theorem log_roundtrip_sample : ∃ buf stop received,
    writeLog .release ⟨zeros 70 (by decide)⟩ 2 [sampleMessage, sampleMessage] = some (buf, stop) ∧ stop.toNat = 66 ∧
      buf.data.bytes[66]? = some 0 ∧ readLog .dev ⟨buf.data⟩ 2 2 = some received ∧ received.length = 2 := by
  have hknown : ∀ message ∈ [sampleMessage, sampleMessage], message.template ∈ templates := by
    simp [templates, sampleMessage]
  obtain ⟨buf, stop, hwrite, hstop, houtside, received, hread, hall⟩ :=
    log_roundtrip .release .dev [sampleMessage, sampleMessage] hknown ⟨zeros 70 (by decide)⟩ 2 (by decide)
  exact ⟨buf, stop, received, hwrite, hstop, houtside 66 (Or.inr (by decide)), hread, hall.length_eq.symm⟩

end OpenMatch.Sbe

import Mathlib.Logic.Function.Basic
import OpenMatch.Sbe.Messages

/-!
# A block as a record

What a block of bytes is for: it is a record with a value for each field. A setter updates
one value, and getters read the values, whatever order the setters come in. The bytes of a
block and the values of its fields determine each other.
-/

namespace OpenMatch.Sbe

open Window

/-- A value for every field. Only those of the fields of a block matter. -/
abbrev Values := (field : Field) → field.type.Value

/-- A field and a value to set it to. -/
abbrev Setting := (field : Field) × field.type.Value

/-- Give a field another value. -/
def Values.set (values : Values) (setting : Setting) : Values := Function.update values setting.1 setting.2

/-- Set fields one after the other. -/
def Values.setAll (values : Values) (settings : List Setting) : Values := settings.foldl Values.set values

/-- The values of the fields of a block. -/
def decodeBlock (bytes : List UInt8) : Values := fun field => field.type.fromLeBytes (fieldLayout.contents bytes field)

namespace Block

/-- The bytes of a block: those of its fields, one after the other. -/
def encode (block : Block) (values : Values) : List UInt8 :=
  (block.fields.map fun field => field.type.toLeBytes (values field)).flatten

/-- The values in the block that starts at an offset of a slice. -/
def valuesAt (block : Block) (slice : Slice) (start : ℕ) : Values := decodeBlock (window slice.bytes start block.length)

variable (block : Block)

/-- The bytes of a field have its width. -/
theorem length_part (values : Values) (field : Field) (_ : field ∈ block.fields) :
    (field.type.toLeBytes (values field)).length = fieldLayout.width field := field.type.length_toLeBytes _

/-- The values of an encoded block are those it was made from. -/
theorem decodeBlock_encode (values : Values) {field : Field} (hfield : field ∈ block.fields) :
    decodeBlock (block.encode values) field = values field := by
  have hpart := block.fills.window_flatten (block.length_part values) hfield
  rw [Nat.sub_zero] at hpart
  rw [decodeBlock, RecordLayout.contents, encode, hpart, Primitive.fromLeBytes_toLeBytes]

/-- Any bytes of the block's length are the encoding of their values. -/
theorem encode_decodeBlock {bytes : List UInt8} (hbytes : bytes.length = block.length) :
    block.encode (decodeBlock bytes) = bytes := by
  have hparts : (block.fields.map fun field => field.type.toLeBytes (decodeBlock bytes field)) =
      block.fields.map (fieldLayout.contents bytes) := by
    apply List.map_congr_left
    intro field hfield
    have hinside := (block.fills.inside hfield).2
    rw [← hbytes] at hinside
    apply Primitive.toLeBytes_fromLeBytes
    exact length_window hinside
  rw [encode, hparts, block.fills.flatten_contents, Nat.sub_zero, ← hbytes, window, List.drop_zero, List.take_length]

/-- Blocks are equal if and only if the values of their fields are. -/
theorem encode_inj {values values' : Values} :
    block.encode values = block.encode values' ↔ ∀ field ∈ block.fields, values field = values' field := by
  constructor
  · intro heq field hfield
    rw [← block.decodeBlock_encode values hfield, heq, block.decodeBlock_encode values' hfield]
  · intro hvalues
    rw [encode, encode]
    congr 1
    apply List.map_congr_left
    intro field hfield
    rw [hvalues field hfield]

/-- Overwriting a field's bytes sets the field, and no other. -/
theorem decodeBlock_overwrite {bytes : List UInt8} (hbytes : bytes.length = block.length) {field field' : Field}
    (hfield : field ∈ block.fields) (hfield' : field' ∈ block.fields) (value : field.type.Value) :
    decodeBlock (overwrite bytes field.offset.toNat (field.type.toLeBytes value)) field' =
      (decodeBlock bytes).set ⟨field, value⟩ field' := by
  have hwidth := field.type.length_toLeBytes value
  have hinside : field.offset.toNat + field.type.size ≤ block.length := (block.fills.inside hfield).2
  rw [decodeBlock, RecordLayout.contents, Values.set]
  by_cases hsame : field' = field
  · subst hsame
    have hplace : field'.offset.toNat + (field'.type.toLeBytes value).length ≤ bytes.length := by omega
    have hread := window_overwrite_self hplace
    rw [hwidth] at hread
    change field'.type.fromLeBytes (window _ field'.offset.toNat field'.type.size) = _
    rw [Function.update_self, hread, Primitive.fromLeBytes_toLeBytes]
  · rw [Function.update_of_ne hsame, window_overwrite_of_apart (by omega)]
    · rfl
    · rw [hwidth]
      exact block.fills.apart hfield hfield' (Ne.symm hsame)

end Block

/-- Setting fields changes what is set, wherever it started from. -/
theorem Values.setAll_congr {values values' : Values} {field : Field} (heq : values field = values' field)
    (settings : List Setting) : values.setAll settings field = values'.setAll settings field := by
  induction settings generalizing values values' with
  | nil => exact heq
  | cons setting rest ih =>
    apply ih
    rw [Values.set, Values.set]
    by_cases hsame : field = setting.1
    · subst hsame
      rw [Function.update_self, Function.update_self]
    · rw [Function.update_of_ne hsame, Function.update_of_ne hsame, heq]

/-- Fields that are not set keep their values. -/
theorem Values.setAll_of_unset {settings : List Setting} {field : Field}
    (hunset : ∀ setting ∈ settings, setting.1 ≠ field) (values : Values) : values.setAll settings field = values field := by
  induction settings generalizing values with
  | nil => rfl
  | cons setting rest ih =>
    obtain ⟨hfirst, hrest⟩ := List.forall_mem_cons.mp hunset
    exact (ih hrest (values.set setting)).trans (Function.update_of_ne (Ne.symm hfirst) _ _)

/-- A field has the value it was set to last. -/
theorem Values.setAll_of_last {later : List Setting} {setting : Setting}
    (hlater : ∀ other ∈ later, other.1 ≠ setting.1) (values : Values) (earlier : List Setting) :
    values.setAll (earlier ++ setting :: later) setting.1 = setting.2 := by
  have hsplit : values.setAll (earlier ++ setting :: later) = ((values.setAll earlier).set setting).setAll later := by
    rw [Values.setAll, List.foldl_append, List.foldl_cons]
    rfl
  rw [hsplit, Values.setAll_of_unset hlater, Values.set, Function.update_self]

/-- Between two states of a slice these fields of the block at `start` were set, one after the other,
and nothing outside of the block was changed. -/
structure Block.Sets (block : Block) (start : ℕ) (settings : List Setting) (before after : Slice) : Prop where
  length_eq : after.bytes.length = before.bytes.length
  outside : ∀ k, Apart start block.length k 1 → after.bytes[k]? = before.bytes[k]?
  inside : ∀ field ∈ block.fields,
    block.valuesAt after start field = (block.valuesAt before start).setAll settings field

namespace Block.Sets

variable {block : Block} {start : ℕ} {settings settings' : List Setting} {slice slice' slice'' : Slice}

/-- Nothing set, nothing changed. -/
theorem refl (block : Block) (start : ℕ) (slice : Slice) : block.Sets start [] slice slice :=
  ⟨rfl, fun _ _ => rfl, fun _ _ => rfl⟩

/-- Settings made one after the other. -/
theorem trans (h : block.Sets start settings slice slice') (h' : block.Sets start settings' slice' slice'') :
    block.Sets start (settings ++ settings') slice slice'' := by
  refine ⟨h'.length_eq.trans h.length_eq, fun k hk => (h'.outside k hk).trans (h.outside k hk), fun field hfield => ?_⟩
  rw [h'.inside field hfield, Values.setAll_congr (h.inside field hfield)]
  simp only [Values.setAll, List.foldl_append]

/-- A window apart from the block keeps what it holds. -/
theorem window_eq (h : block.Sets start settings slice slice') {start' n : ℕ}
    (hapart : Apart start block.length start' n) : window slice'.bytes start' n = window slice.bytes start' n := by
  apply window_congr
  intro k hstart hstop
  apply h.outside
  unfold Apart at hapart ⊢
  omega

/-- Writing the bytes of a field sets it. -/
theorem write {field : Field} (hfield : field ∈ block.fields) (value : field.type.Value)
    (hfits : start + block.length ≤ slice.bytes.length)
    (hplace : start + field.offset.toNat + (field.type.toLeBytes value).length ≤ slice.bytes.length) :
    block.Sets start [⟨field, value⟩] slice
      (slice.write (start + field.offset.toNat) (field.type.toLeBytes value) hplace) := by
  have hwidth := field.type.length_toLeBytes value
  have hinside : field.offset.toNat + field.type.size ≤ block.length := (block.fills.inside hfield).2
  refine ⟨length_overwrite hplace, fun k hk => ?_, fun field' hfield' => ?_⟩
  · apply getElem?_overwrite_of_apart hplace
    unfold Apart at hk ⊢
    omega
  · change decodeBlock (window (overwrite _ _ _) start block.length) field' = _
    rw [window_overwrite_inside (by omega) hfits,
      block.decodeBlock_overwrite (length_window hfits) hfield hfield' value]
    rfl

end Block.Sets

end OpenMatch.Sbe

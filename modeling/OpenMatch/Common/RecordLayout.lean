import OpenMatch.Common.Window

/-!
# Records with adjacent fields

The fields of a record lie next to each other and fill it. So no two of them overlap, the
contents of the record are the contents of its fields, one after the other, and each field
is found again in contents put together this way.
-/

open Window

/-- Where each field starts, and how many entries it has. -/
structure RecordLayout (φ : Type*) where
  offset : φ → ℕ
  width : φ → ℕ

namespace RecordLayout

variable {φ α : Type*}

/-- The fields fill the record from `start` to `stop`, in this order and without gaps. -/
def Fills (layout : RecordLayout φ) : ℕ → List φ → ℕ → Prop
  | start, [], stop => start = stop
  | start, field :: rest, stop => layout.offset field = start ∧ layout.Fills (start + layout.width field) rest stop

instance decidableFills (layout : RecordLayout φ) :
    ∀ (start : ℕ) (fields : List φ) (stop : ℕ), Decidable (layout.Fills start fields stop)
  | start, [], stop => inferInstanceAs (Decidable (start = stop))
  | start, field :: rest, stop =>
    have := layout.decidableFills (start + layout.width field) rest stop
    inferInstanceAs (Decidable (layout.offset field = start ∧ layout.Fills (start + layout.width field) rest stop))

/-- The contents of a field. -/
def contents (layout : RecordLayout φ) (l : List α) (field : φ) : List α :=
  window l (layout.offset field) (layout.width field)

variable {layout : RecordLayout φ} {start stop : ℕ} {fields : List φ} {field field' : φ}

/-- A record ends behind its start. -/
theorem Fills.le (h : layout.Fills start fields stop) : start ≤ stop := by
  induction fields generalizing start with
  | nil => exact Nat.le_of_eq h
  | cons first rest ih => exact Nat.le_of_add_right_le (ih h.2)

/-- Every field lies inside the record. -/
theorem Fills.inside (h : layout.Fills start fields stop) (hfield : field ∈ fields) :
    start ≤ layout.offset field ∧ layout.offset field + layout.width field ≤ stop := by
  induction fields generalizing start with
  | nil => exact absurd hfield List.not_mem_nil
  | cons first rest ih =>
    obtain ⟨hfirst, hrest⟩ := h
    rcases List.mem_cons.mp hfield with rfl | hfield
    · rw [hfirst]
      exact ⟨Nat.le_refl start, hrest.le⟩
    · have hinside := ih hrest hfield
      omega

/-- Two fields of a record are apart. -/
theorem Fills.apart (h : layout.Fills start fields stop) (hfield : field ∈ fields) (hfield' : field' ∈ fields)
    (hne : field ≠ field') :
    Apart (layout.offset field) (layout.width field) (layout.offset field') (layout.width field') := by
  induction fields generalizing start with
  | nil => exact absurd hfield List.not_mem_nil
  | cons first rest ih =>
    obtain ⟨hfirst, hrest⟩ := h
    have hbehind : ∀ other ∈ rest,
        Apart (layout.offset first) (layout.width first) (layout.offset other) (layout.width other) := by
      intro other hother
      apply Or.inl
      rw [hfirst]
      exact (hrest.inside hother).1
    rcases List.mem_cons.mp hfield with rfl | hlater
    · rcases List.mem_cons.mp hfield' with rfl | hlater'
      · exact absurd rfl hne
      · exact hbehind field' hlater'
    · rcases List.mem_cons.mp hfield' with rfl | hlater'
      · exact (hbehind field hlater).symm
      · exact ih hrest hlater hlater'

/-- The contents of a record are the contents of its fields, one after the other. -/
theorem Fills.flatten_contents (h : layout.Fills start fields stop) (l : List α) :
    (fields.map (layout.contents l)).flatten = window l start (stop - start) := by
  induction fields generalizing start with
  | nil =>
    have hend : start = stop := h
    have hempty : stop - start = 0 := by omega
    rw [hempty]
    rfl
  | cons field rest ih =>
    obtain ⟨rfl, hrest⟩ := h
    have hle := hrest.le
    have hsplit : stop - layout.offset field =
        layout.width field + (stop - (layout.offset field + layout.width field)) := by omega
    rw [List.map_cons, List.flatten_cons, ih hrest, hsplit, contents, window_append]

/-- In contents made of one part for each field, of the field's width, each part is found in its field. -/
theorem Fills.window_flatten (h : layout.Fills start fields stop) {parts : φ → List α}
    (hparts : ∀ field ∈ fields, (parts field).length = layout.width field) (hfield : field ∈ fields) :
    window (fields.map parts).flatten (layout.offset field - start) (layout.width field) = parts field := by
  induction fields generalizing start with
  | nil => exact absurd hfield List.not_mem_nil
  | cons first rest ih =>
    obtain ⟨hfirst, hrest⟩ := h
    have hwidth := hparts first List.mem_cons_self
    rw [List.map_cons, List.flatten_cons]
    rcases List.mem_cons.mp hfield with rfl | hfield
    · rw [hfirst, Nat.sub_self, ← hwidth]
      exact window_append_left
    · have hle := (hrest.inside hfield).1
      have hshift : layout.offset field - start =
          (parts first).length + (layout.offset field - (start + layout.width first)) := by omega
      rw [hshift, window_append_right]
      exact ih hrest (fun other hother => hparts other (List.mem_cons_of_mem first hother)) hfield

end RecordLayout

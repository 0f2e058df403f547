import Mathlib.Data.List.Basic

/-! A reorder buffer is a list of slots, filled out of order and read from the
front up to the first gap. Nothing here depends on what the slots hold. -/
namespace WorldChain.Library.ReorderBuffer

variable {α : Type}

abbrev Buffer (α : Type) := List (Option α)

/-- What slot `i` holds; a slot past the end holds nothing. -/
def slot (buffer : Buffer α) (i : Nat) : Option α := buffer[i]?.join

/-- The contents of the slots before the first gap, in order. -/
def filledPrefix : Buffer α → List α
  | some a :: rest => a :: filledPrefix rest
  | _ => []

def blank (buffer : Buffer α) : Buffer α := buffer.map fun _ => none

/-- Append empty slots up to the given length; a longer buffer stays as it is. -/
def resize (buffer : Buffer α) (len : Nat) : Buffer α :=
  buffer ++ List.replicate (len - buffer.length) none

@[simp] theorem slot_nil (i : Nat) : slot ([] : Buffer α) i = none := rfl

@[simp] theorem slot_cons_zero (a : Option α) (rest : Buffer α) : slot (a :: rest) 0 = a := rfl

@[simp] theorem slot_cons_succ (a : Option α) (rest : Buffer α) (i : Nat) :
    slot (a :: rest) (i + 1) = slot rest i := rfl

theorem slot_of_length_le {buffer : Buffer α} {i : Nat} (hpast : buffer.length ≤ i) :
    slot buffer i = none := by
  rw [slot, List.getElem?_eq_none hpast]
  rfl

@[simp] theorem slot_blank (buffer : Buffer α) (i : Nat) : slot (blank buffer) i = none := by
  unfold slot blank
  rw [List.getElem?_map]
  cases buffer[i]? <;> rfl

@[simp] theorem length_blank (buffer : Buffer α) : (blank buffer).length = buffer.length := by
  simp [blank]

@[simp] theorem slot_resize (buffer : Buffer α) (len i : Nat) :
    slot (resize buffer len) i = slot buffer i := by
  unfold slot resize
  by_cases hlt : i < buffer.length
  · rw [List.getElem?_append_left hlt]
  · rw [List.getElem?_append_right (by omega), List.getElem?_replicate,
      List.getElem?_eq_none (by omega)]
    split <;> rfl

@[simp] theorem length_resize (buffer : Buffer α) (len : Nat) :
    (resize buffer len).length = max buffer.length len := by
  simp only [resize, List.length_append, List.length_replicate]
  omega

theorem slot_set (buffer : Buffer α) {i : Nat} (hlt : i < buffer.length) (a : Option α)
    (j : Nat) : slot (buffer.set i a) j = if j = i then a else slot buffer j := by
  unfold slot
  rw [List.getElem?_set]
  by_cases hij : i = j
  · subst hij
    simp [hlt]
  · simp [hij, Ne.symm hij]

theorem eq_of_slot_eq {left right : Buffer α} (hlength : left.length = right.length)
    (hslot : ∀ i, slot left i = slot right i) : left = right := by
  apply List.ext_getElem hlength
  intro i hleft hright
  have h := hslot i
  unfold slot at h
  simpa [List.getElem?_eq_getElem, hleft, hright] using h

theorem slot_of_lt_filledPrefix {buffer : Buffer α} {i : Nat}
    (h : i < (filledPrefix buffer).length) :
    slot buffer i = (filledPrefix buffer)[i]? := by
  induction buffer generalizing i with
  | nil => simp [filledPrefix] at h
  | cons head rest ih =>
      cases head with
      | none => simp [filledPrefix] at h
      | some a =>
          cases i with
          | zero => rfl
          | succ i =>
              simp only [filledPrefix, List.length_cons, Nat.add_lt_add_iff_right] at h
              simpa [filledPrefix] using ih h

theorem length_filledPrefix_le (buffer : Buffer α) :
    (filledPrefix buffer).length ≤ buffer.length := by
  induction buffer with
  | nil => exact Nat.le_refl _
  | cons head rest ih =>
      cases head with
      | none => exact Nat.zero_le _
      | some a => exact Nat.succ_le_succ ih

theorem slot_filledPrefix_length (buffer : Buffer α) :
    slot buffer (filledPrefix buffer).length = none := by
  induction buffer with
  | nil => rfl
  | cons head rest ih =>
      cases head with
      | none => rfl
      | some a => simpa [filledPrefix] using ih

theorem slot_mem_filledPrefix {buffer : Buffer α} {a : α} (h : a ∈ filledPrefix buffer) :
    ∃ i, slot buffer i = some a := by
  obtain ⟨i, hi, hget⟩ := List.getElem_of_mem h
  refine ⟨i, ?_⟩
  rw [slot_of_lt_filledPrefix hi, List.getElem?_eq_getElem hi, hget]

/-- The prefix is determined by where the first gap is and what stands before it. -/
theorem length_filledPrefix_eq {buffer : Buffer α} {k : Nat}
    (hfilled : ∀ i < k, (slot buffer i).isSome) (hgap : slot buffer k = none) :
    (filledPrefix buffer).length = k := by
  rcases Nat.lt_trichotomy (filledPrefix buffer).length k with hlt | heq | hgt
  · have h := hfilled _ hlt
    rw [slot_filledPrefix_length] at h
    cases h
  · exact heq
  · rw [slot_of_lt_filledPrefix hgt, List.getElem?_eq_getElem hgt] at hgap
    cases hgap

theorem filledPrefix_prefix {left right : Buffer α}
    (h : ∀ i a, slot left i = some a → slot right i = some a) :
    filledPrefix left <+: filledPrefix right := by
  induction left generalizing right with
  | nil => simp [filledPrefix]
  | cons head rest ih =>
      cases head with
      | none => simp [filledPrefix]
      | some a =>
          cases right with
          | nil => simpa using h 0 a rfl
          | cons head' rest' =>
              have hhead : head' = some a := by simpa using h 0 a rfl
              subst hhead
              have htail : ∀ i b, slot rest i = some b → slot rest' i = some b := by
                intro i b hi
                simpa using h (i + 1) b (by simpa using hi)
              simpa [filledPrefix] using ih htail

theorem filledPrefix_congr {left right : Buffer α} (h : ∀ i, slot left i = slot right i) :
    filledPrefix left = filledPrefix right := by
  have hprefix := filledPrefix_prefix fun i a hi => (h i).symm.trans hi
  have hprefix' := filledPrefix_prefix fun i a hi => (h i).trans hi
  exact hprefix.eq_of_length (Nat.le_antisymm hprefix.length_le hprefix'.length_le)

theorem filledPrefix_drop {buffer : Buffer α} {n : Nat} (h : n ≤ (filledPrefix buffer).length) :
    filledPrefix (buffer.drop n) = (filledPrefix buffer).drop n := by
  induction n generalizing buffer with
  | zero => rfl
  | succ n ih =>
      cases buffer with
      | nil => rfl
      | cons head rest =>
          cases head with
          | none => simp [filledPrefix] at h
          | some a => exact ih (by simpa [filledPrefix] using h)

end WorldChain.Library.ReorderBuffer

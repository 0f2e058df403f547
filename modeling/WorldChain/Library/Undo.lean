import Mathlib.Data.List.Basic

/-! Undo logs. A step puts a value back or leaves what it finds; the steps of a
log are given from the earliest to the latest and are undone from the latest on. -/
namespace WorldChain.Library.Undo

variable {R V : Type} {put : R → Option V}

def undoAll (put : R → Option V) (steps : List R) (value : V) : V :=
  steps.foldr (fun step value => (put step).getD value) value

/-- The earliest step that puts something back has the last word. -/
theorem undoAll_eq (put : R → Option V) (steps : List R) (value : V) :
    undoAll put steps value = (steps.findSome? put).getD value := by
  induction steps with
  | nil => rfl
  | cons step rest ih =>
      rw [undoAll, List.foldr_cons, List.findSome?_cons]
      cases put step with
      | none => exact ih
      | some old => rfl

theorem put_merged {merge : R → R → R}
    (hmerge : ∀ kept new, put (merge kept new) = (put kept).or (put new)) (first : R)
    (rest : List R) : put (rest.foldl merge first) = (first :: rest).findSome? put := by
  induction rest generalizing first with
  | nil =>
      rw [List.foldl_nil, List.findSome?_singleton]
  | cons next rest ih =>
      rw [List.foldl_cons, ih, List.findSome?_cons, List.findSome?_cons, List.findSome?_cons, hmerge]
      cases put first <;> rfl

end WorldChain.Library.Undo

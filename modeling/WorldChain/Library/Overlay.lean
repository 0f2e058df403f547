import Mathlib.Data.List.Induction

/-! Stores read through layers of changes, and what is left when snapshots of
one base are merged in place of the layers themselves. -/
namespace WorldChain.Library.Overlay

variable {K : Type} {V : K → Type}

abbrev Changes (V : K → Type) := ∀ k, Option (V k)

def blank : Changes V := fun _ => none

/-- What `top` says, and below it what `base` says. -/
def overlay (base top : Changes V) : Changes V := fun k => (top k).or (base k)

def overlays (base : Changes V) (layers : List (Changes V)) : Changes V :=
  layers.foldl overlay base

/-- Merge a snapshot of `base` for each layer, where each holds `base` too. -/
def snapshots (base : Changes V) (layers : List (Changes V)) : Changes V :=
  layers.foldl (fun merged layer => overlay merged (overlay base layer)) base

def lastLayer (layers : List (Changes V)) : Changes V := layers.getLast?.getD blank

def through {m : Type → Type} [Pure m] (changes : Changes V) (below : ∀ k, m (V k)) (k : K) :
    m (V k) :=
  match changes k with
  | some v => pure v
  | none => below k

theorem overlay_apply (base top : Changes V) (k : K) :
    overlay base top k = (top k).or (base k) := rfl

@[simp] theorem overlay_blank (base : Changes V) : overlay base blank = base := by
  funext k
  simp [overlay, blank]

theorem overlay_assoc (a b c : Changes V) :
    overlay (overlay a b) c = overlay a (overlay b c) := by
  funext k
  simp [overlay, Option.or_assoc]

@[simp] theorem overlays_nil (base : Changes V) : overlays base [] = base := rfl

theorem overlays_append (base : Changes V) (left right : List (Changes V)) :
    overlays base (left ++ right) = overlays (overlays base left) right := List.foldl_append ..

theorem overlays_concat (base : Changes V) (layers : List (Changes V)) (layer : Changes V) :
    overlays base (layers ++ [layer]) = overlay (overlays base layers) layer := by
  rw [overlays_append]
  rfl

theorem overlays_eq (base : Changes V) (layers : List (Changes V)) :
    overlays base layers = overlay base (overlays blank layers) := by
  induction layers using List.reverseRecOn with
  | nil => simp
  | append_singleton layers layer ih => rw [overlays_concat, overlays_concat, ih, overlay_assoc]

@[simp] theorem lastLayer_concat (layers : List (Changes V)) (layer : Changes V) :
    lastLayer (layers ++ [layer]) = layer := by
  simp [lastLayer]

theorem overlays_of_lastLayer_some {base : Changes V} {layers : List (Changes V)} {k : K} {v : V k}
    (h : lastLayer layers k = some v) : overlays base layers k = some v := by
  induction layers using List.reverseRecOn with
  | nil => cases h
  | append_singleton layers layer _ =>
      rw [lastLayer_concat] at h
      rw [overlays_concat, overlay_apply, h, Option.some_or]

/-- The value of a key that the base holds comes from the last layer alone. -/
theorem snapshots_apply (base : Changes V) (layers : List (Changes V)) (k : K) :
    snapshots base layers k =
      if (base k).isSome then (lastLayer layers k).or (base k) else overlays blank layers k := by
  induction layers using List.reverseRecOn with
  | nil =>
      cases hbase : base k with
      | none => simpa [snapshots, blank] using hbase
      | some v => simpa [snapshots, lastLayer, blank] using hbase
  | append_singleton layers layer ih =>
      have hconcat : snapshots base (layers ++ [layer]) k =
          ((layer k).or (base k)).or (snapshots base layers k) := by
        simp [snapshots, overlay]
      rw [hconcat, overlays_concat, overlay_apply]
      cases hbase : base k with
      | none =>
          rw [hbase] at ih
          simp [ih]
      | some v =>
          have hlast : lastLayer (layers ++ [layer]) = layer := by simp [lastLayer]
          rw [hlast]
          cases layer k <;> simp

@[simp] theorem snapshots_blank (layers : List (Changes V)) :
    snapshots blank layers = overlays blank layers := by
  funext k
  rw [snapshots_apply]
  rfl

/-- A key of the base that the last layer leaves alone is left alone, or
brought back, by all of the layers together. -/
def KeepsUpdates (base : Changes V) (layers : List (Changes V)) : Prop :=
  ∀ k, (base k).isSome → lastLayer layers k = none → overlays base layers k = base k

theorem snapshots_apply_eq_iff (base : Changes V) (layers : List (Changes V)) (k : K) :
    snapshots base layers k = overlays base layers k ↔
      ((base k).isSome → lastLayer layers k = none → overlays base layers k = base k) := by
  rw [snapshots_apply]
  cases hbase : base k with
  | none =>
      have hcollapse := congrFun (overlays_eq base layers) k
      rw [overlay_apply, hbase, Option.or_none] at hcollapse
      simp [hcollapse]
  | some v =>
      simp only [Option.isSome_some, ↓reduceIte, forall_const]
      cases hlast : lastLayer layers k with
      | none =>
          rw [Option.none_or]
          exact ⟨fun h _ => h.symm, fun h => (h rfl).symm⟩
      | some w =>
          rw [Option.some_or, overlays_of_lastLayer_some hlast]
          simp

/-- Exactly when merging snapshots loses no update. -/
theorem snapshots_eq_iff (base : Changes V) (layers : List (Changes V)) :
    snapshots base layers = overlays base layers ↔ KeepsUpdates base layers := by
  constructor
  · intro h k
    exact (snapshots_apply_eq_iff base layers k).mp (congrFun h k)
  · intro h
    funext k
    exact (snapshots_apply_eq_iff base layers k).mpr (h k)

theorem snapshots_isSome (base : Changes V) (layers : List (Changes V)) (k : K) :
    (snapshots base layers k).isSome = (overlays base layers k).isSome := by
  have hcollapse := congrFun (overlays_eq base layers) k
  rw [snapshots_apply, hcollapse, overlay_apply]
  cases base k with
  | none => simp
  | some v => simp

theorem through_eq_iff {m : Type → Type} [Pure m]
    (hpure : ∀ k, Function.Injective (pure : V k → m (V k)))
    {changes changes' : Changes V} (below : ∀ k, m (V k)) {k : K}
    (hkeys : (changes k).isSome = (changes' k).isSome) :
    through changes below k = through changes' below k ↔ changes k = changes' k := by
  unfold through
  cases hleft : changes k with
  | none =>
      cases hright : changes' k with
      | none => simp
      | some w => simp [hleft, hright] at hkeys
  | some v =>
      cases hright : changes' k with
      | none => simp [hleft, hright] at hkeys
      | some w => simpa using (hpure k).eq_iff

end WorldChain.Library.Overlay

import Mathlib.Data.List.Induction
import Mathlib.Data.List.Perm.Basic
import WorldChain.Library.Upsert

/-! Pairs collated by key. The value of a key is its values merged from the
first to the last, so with an associative merge the pairs can be collated
piece by piece. The keys of the result are in no particular order. -/
namespace WorldChain.Library.Collate
open Upsert

variable {K V : Type} [DecidableEq K]

def collate (merge : V → V → V) (pairs : List (K × V)) : Map K V :=
  pairs.foldl (fun m pair => upsert m pair.1 (merge · pair.2) pair.2) ∅

def mergeNext (merge : V → V → V) (kept : Option V) (value : V) : Option V :=
  some (kept.elim value (merge · value))

def mergeAll (merge : V → V → V) : List V → Option V
  | [] => none
  | first :: rest => some (rest.foldl merge first)

theorem foldl_mergeNext (merge : V → V → V) (first : V) (rest : List V) :
    rest.foldl (mergeNext merge) (some first) = some (rest.foldl merge first) := by
  induction rest generalizing first with
  | nil => rfl
  | cons next rest ih => exact ih (merge first next)

theorem foldl_mergeNext_none (merge : V → V → V) (values : List V) :
    values.foldl (mergeNext merge) none = mergeAll merge values := by
  cases values with
  | nil => rfl
  | cons first rest => exact foldl_mergeNext merge first rest

theorem lookup_collate (merge : V → V → V) (pairs : List (K × V)) (key : K) :
    (collate merge pairs).lookup key = mergeAll merge (valuesOf key pairs) :=
  (lookup_foldl_upsert merge pairs ∅ key).trans (foldl_mergeNext_none merge _)

theorem lookup_collate_append (merge : V → V → V) (left right : List (K × V)) (key : K) :
    (collate merge (left ++ right)).lookup key =
      (valuesOf key right).foldl (mergeNext merge) ((collate merge left).lookup key) := by
  rw [lookup_collate, lookup_collate, valuesOf_append, ← foldl_mergeNext_none,
    ← foldl_mergeNext_none, List.foldl_append]

theorem lookup_collate_pairsOf_append (merge : V → V → V) (m : Map K V) (right : List (K × V))
    (key : K) :
    (collate merge (pairsOf m ++ right)).lookup key =
      (valuesOf key right).foldl (mergeNext merge) (m.lookup key) := by
  rw [lookup_collate_append, lookup_collate, valuesOf_pairsOf]
  cases m.lookup key <;> rfl

/-! The pairs of a map. -/

theorem mem_pairsOf {m : Map K V} {key : K} {value : V} :
    (key, value) ∈ pairsOf m ↔ m.lookup key = some value := by
  unfold pairsOf
  rw [List.mem_map]
  constructor
  · rintro ⟨entry, hentry, heq⟩
    cases heq
    exact List.mem_dlookup m.nodupKeys hentry
  · intro hlookup
    exact ⟨⟨key, value⟩, List.of_mem_dlookup hlookup, rfl⟩

omit [DecidableEq K] in
theorem keys_pairsOf_nodup (m : Map K V) : ((pairsOf m).map Prod.fst).Nodup := by
  have hkeys : (pairsOf m).map Prod.fst = m.entries.keys := by
    rw [pairsOf, List.map_map]
    rfl
  rw [hkeys]
  exact m.nodupKeys

theorem valuesOf_eq_nil_iff (key : K) (pairs : List (K × V)) :
    valuesOf key pairs = [] ↔ key ∉ pairs.map Prod.fst := by
  induction pairs with
  | nil => simp [valuesOf]
  | cons pair rest ih =>
      rw [valuesOf_cons, List.append_eq_nil_iff, ih, List.map_cons, List.mem_cons, not_or]
      by_cases hkey : pair.1 = key
      · simp [hkey]
      · simp [hkey, Ne.symm hkey]

theorem mem_keys_collate (merge : V → V → V) (pairs : List (K × V)) (key : K) :
    key ∈ (pairsOf (collate merge pairs)).map Prod.fst ↔ key ∈ pairs.map Prod.fst := by
  have hempty := valuesOf_eq_nil_iff key (pairsOf (collate merge pairs))
  rw [valuesOf_pairsOf, Option.toList_eq_nil_iff, lookup_collate] at hempty
  rw [← not_iff_not, ← hempty, ← valuesOf_eq_nil_iff]
  cases valuesOf key pairs with
  | nil => simp [mergeAll]
  | cons first rest => simp [mergeAll]

/-- The same pairs, up to their order and to what counts as the same value. -/
def SamePairs (same : V → V → Prop) (left right : List (K × V)) : Prop :=
  ∃ reordered, left.Perm reordered ∧
    List.Forall₂ (fun a b => a.1 = b.1 ∧ same a.2 b.2) reordered right

omit [DecidableEq K] in
theorem exists_of_rel_some_left {same : V → V → Prop} {left : V} {right : Option V}
    (h : Option.Rel same (some left) right) : ∃ value, right = some value ∧ same left value := by
  cases h with
  | some hsame => exact ⟨_, rfl, hsame⟩

omit [DecidableEq K] in
theorem exists_of_rel_some_right {same : V → V → Prop} {left : Option V} {right : V}
    (h : Option.Rel same left (some right)) : ∃ value, left = some value ∧ same value right := by
  cases h with
  | some hsame => exact ⟨_, rfl, hsame⟩

theorem samePairs_of_lookup {same : V → V → Prop} {m m' : Map K V}
    (h : ∀ key, Option.Rel same (m.lookup key) (m'.lookup key)) :
    SamePairs same (pairsOf m) (pairsOf m') := by
  have hkeys : (((pairsOf m').map fun pair => (pair.1, (m.lookup pair.1).getD pair.2)).map
      Prod.fst).Nodup := by
    rw [List.map_map]
    exact keys_pairsOf_nodup m'
  refine ⟨(pairsOf m').map fun pair => (pair.1, (m.lookup pair.1).getD pair.2), ?_, ?_⟩
  · rw [List.perm_ext_iff_of_nodup (keys_pairsOf_nodup m).of_map hkeys.of_map]
    rintro ⟨key, value⟩
    rw [mem_pairsOf, List.mem_map]
    constructor
    · intro hlookup
      have hrel := h key
      rw [hlookup] at hrel
      obtain ⟨other, hother, _⟩ := exists_of_rel_some_left hrel
      exact ⟨(key, other), mem_pairsOf.mpr hother, by simp [hlookup]⟩
    · rintro ⟨⟨key', other⟩, hmem, heq⟩
      have hrel := h key'
      rw [mem_pairsOf.mp hmem] at hrel
      obtain ⟨kept, hkept, _⟩ := exists_of_rel_some_right hrel
      rw [hkept] at heq
      cases heq
      exact hkept
  · rw [List.forall₂_map_left_iff, List.forall₂_same]
    rintro ⟨key, other⟩ hmem
    have hrel := h key
    rw [mem_pairsOf.mp hmem] at hrel
    obtain ⟨kept, hkept, hsame⟩ := exists_of_rel_some_right hrel
    refine ⟨rfl, ?_⟩
    rw [hkept]
    exact hsame

/-! An associative merge. -/

structure Associative (same : V → V → Prop) (merge : V → V → V) : Prop where
  equivalence : Equivalence same
  congr : ∀ {left right : V} (value : V), same left right →
    same (merge left value) (merge right value)
  assoc : ∀ x y z, same (merge x (merge y z)) (merge (merge x y) z)

variable {same : V → V → Prop} {merge : V → V → V}

omit [DecidableEq K] in
theorem Associative.foldl (h : Associative same merge) (kept first : V) (rest : List V) :
    same (merge kept (rest.foldl merge first)) ((first :: rest).foldl merge kept) := by
  induction rest using List.reverseRecOn with
  | nil => exact h.equivalence.refl _
  | append_singleton rest last ih =>
      rw [← List.cons_append, List.foldl_concat, List.foldl_concat]
      exact h.equivalence.trans (h.assoc _ _ _) (h.congr last ih)

theorem rel_collate_append (h : Associative same merge) (left right : List (K × V)) (key : K) :
    Option.Rel same
      ((collate merge (pairsOf (collate merge left) ++ pairsOf (collate merge right))).lookup key)
      ((collate merge (left ++ right)).lookup key) := by
  rw [lookup_collate_pairsOf_append, lookup_collate_append, valuesOf_pairsOf,
    lookup_collate merge right]
  cases valuesOf key right with
  | nil =>
      cases (collate merge left).lookup key with
      | none => exact .none
      | some kept => exact .some (h.equivalence.refl kept)
  | cons first rest =>
      cases (collate merge left).lookup key with
      | none =>
          have hall := foldl_mergeNext_none merge (first :: rest)
          rw [hall]
          exact .some (h.equivalence.refl _)
      | some kept =>
          have hall := foldl_mergeNext merge kept (first :: rest)
          rw [hall]
          exact .some (h.foldl kept first rest)

end WorldChain.Library.Collate

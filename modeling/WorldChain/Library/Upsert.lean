import Mathlib.Data.List.AList

/-! Maps filled through their entry of a key: insert it when vacant, modify it
when occupied. What such a map holds is counted over all of its values. -/
namespace WorldChain.Library.Upsert
open scoped List

abbrev Map (K V : Type) := AList fun _ : K => V

variable {K V E : Type} [DecidableEq K]

/-- `entry(key).and_modify(modify).or_insert(value)` -/
def upsert (m : Map K V) (key : K) (modify : V → V) (value : V) : Map K V :=
  m.insert key (match m.lookup key with
    | some old => modify old
    | none => value)

/-- Collect pairs; the last one of a key stays. -/
def ofPairs (pairs : List (K × V)) : Map K V :=
  pairs.foldl (fun m pair => m.insert pair.1 pair.2) ∅

def holds (held : K → V → List E) (m : Map K V) : List E :=
  m.entries.flatMap fun entry => held entry.1 entry.2

omit [DecidableEq K] in
@[simp] theorem holds_empty (held : K → V → List E) : holds held ∅ = [] := rfl

variable {held : K → V → List E}

theorem holds_insert_of_notMem {m : Map K V} {key : K} (h : key ∉ m) (value : V) :
    holds held (m.insert key value) = held key value ++ holds held m := by
  rw [holds, AList.entries_insert_of_notMem h]
  rfl

theorem exists_perm_of_lookup {m : Map K V} {key : K} {old : V} (h : m.lookup key = some old) :
    ∃ rest : List (Sigma fun _ : K => V),
      m.entries.Perm (⟨key, old⟩ :: rest) ∧
        ∀ value, (m.insert key value).entries.Perm (⟨key, value⟩ :: rest) := by
  have hkey : key ∈ m.entries.keys := AList.lookup_isSome.mp (by simp [h])
  obtain ⟨found, left, right, hleft, hentries, herase⟩ := List.exists_of_kerase hkey
  have hfound : found = old := by
    have hmem : (⟨key, found⟩ : Sigma fun _ : K => V) ∈ m.entries := by
      rw [hentries]
      simp
    have hlookup := List.mem_dlookup m.nodupKeys hmem
    exact Option.some.inj (hlookup.symm.trans h)
  subst hfound
  refine ⟨left ++ right, ?_, ?_⟩
  · rw [hentries]
    exact List.perm_middle
  · intro value
    rw [AList.entries_insert, herase]

/-- Where modifying adds what inserting would have put there, the map holds
what it held and that. -/
theorem holds_upsert_perm {m : Map K V} {key : K} {modify : V → V} {value : V}
    (hmodify : ∀ old, (held key (modify old)).Perm (held key old ++ held key value)) :
    (holds held (upsert m key modify value)).Perm (holds held m ++ held key value) := by
  unfold upsert
  cases hlookup : m.lookup key with
  | none =>
      rw [holds_insert_of_notMem (AList.lookup_eq_none.mp hlookup)]
      exact List.perm_append_comm
  | some old =>
      obtain ⟨rest, hold, hnew⟩ := exists_perm_of_lookup hlookup
      have hbefore := hold.flatMap_right fun entry => held entry.1 entry.2
      have hafter := (hnew (modify old)).flatMap_right fun entry => held entry.1 entry.2
      rw [List.flatMap_cons] at hbefore hafter
      calc holds held (m.insert key (modify old))
          ~ held key (modify old) ++ rest.flatMap fun entry => held entry.1 entry.2 := hafter
        _ ~ (held key old ++ held key value) ++ rest.flatMap fun entry => held entry.1 entry.2 :=
            (hmodify old).append_right _
        _ ~ held key value ++ (held key old ++ rest.flatMap fun entry => held entry.1 entry.2) := by
            rw [List.append_assoc]
            exact List.perm_append_comm_assoc _ _ _
        _ ~ held key value ++ holds held m := hbefore.symm.append_left _
        _ ~ holds held m ++ held key value := List.perm_append_comm

theorem mem_holds {m : Map K V} {x : E} :
    x ∈ holds held m ↔ ∃ key value, m.lookup key = some value ∧ x ∈ held key value := by
  unfold holds
  rw [List.mem_flatMap]
  constructor
  · rintro ⟨entry, hentry, hx⟩
    exact ⟨entry.1, entry.2, List.mem_dlookup m.nodupKeys hentry, hx⟩
  · rintro ⟨key, value, hlookup, hx⟩
    exact ⟨⟨key, value⟩, List.of_mem_dlookup hlookup, hx⟩

omit [DecidableEq K] in
theorem holds_nodup {m : Map K V} (hnodup : ∀ key value, (held key value).Nodup)
    (hdisjoint : ∀ key key' value value' x, x ∈ held key value → x ∈ held key' value' →
      key = key') : (holds held m).Nodup := by
  unfold holds
  rw [List.nodup_flatMap]
  constructor
  · intro entry _
    exact hnodup entry.1 entry.2
  · apply (List.nodupKeys_iff_pairwise.mp m.nodupKeys).imp
    intro entry entry' hne x hx hx'
    exact hne (hdisjoint _ _ _ _ x hx hx')

theorem mem_holds_upsert {m : Map K V} {key : K} {modify : V → V} {value : V} {x : E}
    (hmodify : ∀ old, x ∈ held key (modify old) ↔ x ∈ held key old ∨ x ∈ held key value) :
    x ∈ holds held (upsert m key modify value) ↔ x ∈ holds held m ∨ x ∈ held key value := by
  unfold upsert
  cases hlookup : m.lookup key with
  | none =>
      rw [holds_insert_of_notMem (AList.lookup_eq_none.mp hlookup), List.mem_append, or_comm]
  | some old =>
      obtain ⟨rest, hold, hnew⟩ := exists_perm_of_lookup hlookup
      have hmerged :=
        ((hnew (modify old)).flatMap_right fun entry => held entry.1 entry.2).mem_iff (a := x)
      have hbefore := (hold.flatMap_right fun entry => held entry.1 entry.2).mem_iff (a := x)
      unfold holds
      rw [hmerged, hbefore, List.flatMap_cons, List.flatMap_cons, List.mem_append, List.mem_append,
        hmodify]
      exact or_right_comm

def mergeInto (modify : V → V → V) (m other : Map K V) : Map K V :=
  other.entries.foldl (fun m entry => upsert m entry.1 (modify · entry.2) entry.2) m

theorem holds_mergeInto_perm {modify : V → V → V} (m other : Map K V)
    (hmodify : ∀ key old value,
      (held key (modify old value)).Perm (held key old ++ held key value)) :
    (holds held (mergeInto modify m other)).Perm (holds held m ++ holds held other) := by
  unfold mergeInto
  rw [show holds held other = other.entries.flatMap fun entry => held entry.1 entry.2 from rfl]
  generalize other.entries = entries
  induction entries generalizing m with
  | nil => simp
  | cons entry rest ih =>
      rw [List.foldl_cons, List.flatMap_cons, ← List.append_assoc]
      refine (ih _).trans ?_
      exact (holds_upsert_perm fun old => hmodify entry.1 old entry.2).append_right _

theorem mem_holds_mergeInto {modify : V → V → V} {m other : Map K V} {x : E}
    (hmodify : ∀ key old value,
      x ∈ held key (modify old value) ↔ x ∈ held key old ∨ x ∈ held key value) :
    x ∈ holds held (mergeInto modify m other) ↔ x ∈ holds held m ∨ x ∈ holds held other := by
  unfold mergeInto
  rw [show holds held other = other.entries.flatMap fun entry => held entry.1 entry.2 from rfl]
  generalize other.entries = entries
  induction entries generalizing m with
  | nil => simp
  | cons entry rest ih =>
      rw [List.foldl_cons, List.flatMap_cons, List.mem_append, ih,
        mem_holds_upsert fun old => hmodify entry.1 old entry.2]
      exact or_assoc

theorem holds_foldl_insert_perm (held : K → V → List E) (pairs : List (K × V)) (m : Map K V)
    (hdistinct : (pairs.map Prod.fst).Nodup) (hfresh : ∀ pair ∈ pairs, pair.1 ∉ m) :
    (holds held (pairs.foldl (fun m pair => m.insert pair.1 pair.2) m)).Perm
      (holds held m ++ pairs.flatMap fun pair => held pair.1 pair.2) := by
  induction pairs generalizing m with
  | nil => simp
  | cons pair rest ih =>
      simp only [List.map_cons, List.nodup_cons] at hdistinct
      have hrest : ∀ next ∈ rest, next.1 ∉ m.insert pair.1 pair.2 := by
        intro next hnext hmem
        rcases (AList.mem_insert m).mp hmem with heq | hold
        · exact hdistinct.1 (heq ▸ List.mem_map_of_mem hnext)
        · exact hfresh next (List.mem_cons_of_mem _ hnext) hold
      have htail := ih (m.insert pair.1 pair.2) hdistinct.2 hrest
      rw [holds_insert_of_notMem (hfresh pair List.mem_cons_self), List.append_assoc] at htail
      rw [List.foldl_cons, List.flatMap_cons]
      exact htail.trans (List.perm_append_comm_assoc _ _ _)

theorem holds_ofPairs {pairs : List (K × V)} (hdistinct : (pairs.map Prod.fst).Nodup) :
    (holds held (ofPairs pairs)).Perm (pairs.flatMap fun pair => held pair.1 pair.2) := by
  have h := holds_foldl_insert_perm held pairs ∅ hdistinct (by simp)
  rwa [holds_empty, List.nil_append] at h

/-! What stands under one key. -/

def valuesOf (key : K) (pairs : List (K × V)) : List V :=
  pairs.filterMap fun pair => if pair.1 = key then some pair.2 else none

def pairsOf (m : Map K V) : List (K × V) := m.entries.map fun entry => (entry.1, entry.2)

@[simp] theorem valuesOf_append (key : K) (left right : List (K × V)) :
    valuesOf key (left ++ right) = valuesOf key left ++ valuesOf key right := by
  simp [valuesOf]

theorem valuesOf_cons (key : K) (pair : K × V) (rest : List (K × V)) :
    valuesOf key (pair :: rest) =
      (if pair.1 = key then [pair.2] else []) ++ valuesOf key rest := by
  unfold valuesOf
  by_cases hkey : pair.1 = key
  · simp [hkey]
  · simp [hkey]

theorem valuesOf_pairsOf (m : Map K V) (key : K) :
    valuesOf key (pairsOf m) = (m.lookup key).toList := by
  rw [AList.lookup, ← List.lookupAll_eq_dlookup key m.nodupKeys]
  unfold pairsOf
  induction m.entries with
  | nil => rfl
  | cons entry rest ih =>
      obtain ⟨first, value⟩ := entry
      rw [List.map_cons, valuesOf_cons, ih]
      by_cases hkey : first = key
      · subst hkey
        rw [if_pos rfl, List.lookupAll_cons_eq]
        rfl
      · rw [if_neg hkey, List.lookupAll_cons_ne _ _ (Ne.symm hkey)]
        rfl

theorem lookup_upsert (m : Map K V) (key other : K) (modify : V → V) (value : V) :
    (upsert m key modify value).lookup other =
      if key = other then some ((m.lookup other).elim value modify) else m.lookup other := by
  unfold upsert
  by_cases hkey : key = other
  · subst hkey
    rw [if_pos rfl, AList.lookup_insert]
    cases m.lookup key <;> rfl
  · rw [if_neg hkey, AList.lookup_insert_ne (Ne.symm hkey)]

theorem lookup_foldl_upsert (modify : V → V → V) (pairs : List (K × V)) (m : Map K V) (key : K) :
    (pairs.foldl (fun m pair => upsert m pair.1 (modify · pair.2) pair.2) m).lookup key =
      (valuesOf key pairs).foldl (fun kept value => some (kept.elim value (modify · value)))
        (m.lookup key) := by
  induction pairs generalizing m with
  | nil => rfl
  | cons pair rest ih =>
      rw [List.foldl_cons, ih, valuesOf_cons, List.foldl_append, lookup_upsert]
      by_cases hkey : pair.1 = key
      · rw [if_pos hkey, if_pos hkey]
        rfl
      · rw [if_neg hkey, if_neg hkey]
        rfl

theorem mergeInto_eq (modify : V → V → V) (m other : Map K V) :
    mergeInto modify m other =
      (pairsOf other).foldl (fun m pair => upsert m pair.1 (modify · pair.2) pair.2) m := by
  rw [mergeInto, pairsOf, List.foldl_map]

theorem lookup_mergeInto_kept (m other : Map K V) (key : K) :
    (mergeInto (fun kept _ => kept) m other).lookup key =
      (m.lookup key).or (other.lookup key) := by
  have hfold := lookup_foldl_upsert (fun kept _ => kept) (pairsOf other) m key
  rw [mergeInto_eq]
  refine hfold.trans ?_
  rw [valuesOf_pairsOf]
  cases other.lookup key with
  | none => simp
  | some value => cases m.lookup key <;> rfl

end WorldChain.Library.Upsert

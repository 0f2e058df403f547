import Mathlib.Data.Set.Insert
import Mathlib.Logic.Relation

/-! Flooding: a node that learns an item passes it on over every link, and an item
on its way is given up only where it is known already. Nothing here depends on what the
nodes and the items are. -/
namespace WorldChain.Library.Flooding
open Relation

variable {ι κ : Type}

structure Flood (ι κ : Type) where
  /-- What has been introduced at the node from outside. -/
  origin : ι → Set κ
  knows : ι → Set κ
  underway : ι → ι → Set κ

/-- What has been introduced at a node from which links lead to this one. -/
def Flood.reached (linked : ι → ι → Prop) (flood : Flood ι κ) (node : ι) : Set κ :=
  {item | ∃ source, item ∈ flood.origin source ∧ ReflTransGen linked source node}

/-- Nothing is known without a source, and nothing known is lost on a link. -/
structure Flooded (linked : ι → ι → Prop) (flood : Flood ι κ) : Prop where
  introduced : ∀ n, flood.origin n ⊆ flood.knows n
  sourced : ∀ n, flood.knows n ⊆ flood.reached linked n
  sent : ∀ n m, ∀ item ∈ flood.underway n m, linked n m ∧ item ∈ flood.knows n
  passed : ∀ n m, linked n m → flood.knows n ⊆ flood.knows m ∪ flood.underway n m

def Flood.introduce (flood : Flood ι κ) (node : ι) (item : κ) : Flood ι κ :=
  { flood with origin := fun n => {other | n = node ∧ other = item ∨ other ∈ flood.origin n} }

def Flood.learn (linked : ι → ι → Prop) (flood : Flood ι κ) (node : ι) (item : κ) : Flood ι κ :=
  { flood with
    knows := fun n => {other | n = node ∧ other = item ∨ other ∈ flood.knows n}
    underway := fun n m =>
      {other | (n = node ∧ linked n m) ∧ other = item ∨ other ∈ flood.underway n m} }

variable {linked : ι → ι → Prop} {flood : Flood ι κ}

theorem reached_mono {flood' : Flood ι κ} (h : ∀ n, flood.origin n ⊆ flood'.origin n) (node : ι) :
    flood.reached linked node ⊆ flood'.reached linked node := by
  rintro item ⟨source, hitem, hpath⟩
  exact ⟨source, h source hitem, hpath⟩

theorem reached_pass {n m : ι} (hlinked : linked n m) :
    flood.reached linked n ⊆ flood.reached linked m := by
  rintro item ⟨source, hitem, hpath⟩
  exact ⟨source, hitem, hpath.tail hlinked⟩

theorem flooded_start : Flooded linked (⟨fun _ => ∅, fun _ => ∅, fun _ _ => ∅⟩ : Flood ι κ) where
  introduced _ := subset_rfl
  sourced _ := Set.empty_subset _
  sent _ _ _ h := h.elim
  passed _ _ _ := Set.empty_subset _

theorem Flooded.learn (h : Flooded linked flood) {node : ι} {item : κ}
    (hsource : item ∈ flood.reached linked node) : Flooded linked (flood.learn linked node item) where
  introduced n := (h.introduced n).trans fun _ hknown => .inr hknown
  sourced n := by
    rintro other (⟨rfl, rfl⟩ | hknown)
    · exact hsource
    · exact h.sourced n hknown
  sent n m := by
    rintro other (⟨⟨hn, hlinked⟩, heq⟩ | hsent)
    · exact ⟨hlinked, .inl ⟨hn, heq⟩⟩
    · exact (h.sent n m other hsent).imp_right .inr
  passed n m hlinked := by
    rintro other (⟨hn, heq⟩ | hknown)
    · exact .inr (.inl ⟨⟨hn, hlinked⟩, heq⟩)
    · exact (h.passed n m hlinked hknown).imp .inr .inr

theorem Flooded.introduce (h : Flooded linked flood) (node : ι) (item : κ) :
    Flooded linked ((flood.introduce node item).learn linked node item) where
  introduced n := by
    rintro other (hnew | hold)
    · exact .inl hnew
    · exact .inr (h.introduced n hold)
  sourced n := by
    rintro other (⟨hn, heq⟩ | hknown)
    · exact ⟨n, .inl ⟨hn, heq⟩, .refl⟩
    · have hmore : ∀ a, flood.origin a ⊆ (flood.introduce node item).origin a :=
        fun a old hold => Or.inr hold
      exact reached_mono hmore n (h.sourced n hknown)
  sent n m := by
    rintro other (⟨⟨hn, hlinked⟩, heq⟩ | hsent)
    · exact ⟨hlinked, .inl ⟨hn, heq⟩⟩
    · exact (h.sent n m other hsent).imp_right .inr
  passed n m hlinked := by
    rintro other (⟨hn, heq⟩ | hknown)
    · exact .inr (.inl ⟨⟨hn, hlinked⟩, heq⟩)
    · exact (h.passed n m hlinked hknown).imp .inr .inr

theorem Flooded.giveUp (h : Flooded linked flood) {underway : ι → ι → Set κ}
    (hless : ∀ n m, underway n m ⊆ flood.underway n m)
    (hknown : ∀ n m, flood.underway n m ⊆ underway n m ∪ flood.knows m) :
    Flooded linked { flood with underway := underway } where
  introduced := h.introduced
  sourced := h.sourced
  sent n m item hitem := h.sent n m item (hless n m hitem)
  passed n m hlinked item hitem := by
    rcases h.passed n m hlinked hitem with hknows | hunderway
    · exact .inl hknows
    · exact (hknown n m hunderway).symm

/-- With nothing on its way, a node knows exactly what links lead to it. -/
theorem Flooded.knows_eq (h : Flooded linked flood) (hrest : ∀ n m, flood.underway n m = ∅)
    (node : ι) : flood.knows node = flood.reached linked node := by
  apply (h.sourced node).antisymm
  rintro item ⟨source, hitem, hpath⟩
  induction hpath with
  | refl => exact h.introduced source hitem
  | tail _ hlinked ih =>
      have hpassed := h.passed _ _ hlinked ih
      rwa [hrest, Set.union_empty] at hpassed

end WorldChain.Library.Flooding

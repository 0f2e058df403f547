import Mathlib.Data.List.Basic
import WorldChain.Library.Fallible

/-! Codecs of byte strings: values written to bytes and read back off the front
of a buffer, and records of fields that fill a buffer to its end. Laws hold for
buffers up to a limit, as a length has to fit a machine word. -/
namespace WorldChain.Library.Encoding
open Fallible

abbrev Bytes := List UInt8

structure Codec (ε α : Type) where
  encode : α → Bytes
  length : α → Nat
  decode : Bytes → Except ε (α × Bytes)

/-- What is written is read back, and what follows it is left. -/
structure Codec.Lawful {ε α : Type} (limit : Nat) (codec : Codec ε α) : Prop where
  length : ∀ a, codec.length a = (codec.encode a).length
  decode : ∀ a rest, (codec.encode a ++ rest).length ≤ limit →
    codec.decode (codec.encode a ++ rest) = .ok (a, rest)

/-- A value is read off the front of a buffer. -/
def Codec.Advances {ε α : Type} (codec : Codec ε α) : Prop :=
  ∀ bytes a rest, codec.decode bytes = .ok (a, rest) → rest <:+ bytes

structure Fields (ε α : Type) where
  encode : α → Bytes
  decode : Bytes → Except ε α

def Fields.Lawful {ε α : Type} (limit : Nat) (fields : Fields ε α) : Prop :=
  ∀ a, (fields.encode a).length ≤ limit → fields.decode (fields.encode a) = .ok a

variable {ε α β : Type} {limit : Nat}

/-- Read another type through a map that undoes the one it is written with. -/
def Codec.via (codec : Codec ε α) (write : β → α) (read : α → Except ε β) : Codec ε β where
  encode b := codec.encode (write b)
  length b := codec.length (write b)
  decode bytes := do
    let (a, rest) ← codec.decode bytes
    let b ← read a
    return (b, rest)

theorem Codec.Lawful.via {codec : Codec ε α} (h : codec.Lawful limit) {write : β → α}
    {read : α → Except ε β} (hread : ∀ b, read (write b) = .ok b) :
    (codec.via write read).Lawful limit where
  length b := h.length (write b)
  decode b rest hlimit := by
    have hdecode := h.decode (write b) rest hlimit
    simp only [Codec.via, hdecode, bind, Except.bind, hread]
    rfl

theorem Codec.Advances.via {codec : Codec ε α} (h : codec.Advances) (write : β → α)
    (read : α → Except ε β) : (codec.via write read).Advances := by
  intro bytes b rest hdecode
  obtain ⟨decoded, hdecoded, hrest⟩ := bind_eq_ok.mp hdecode
  obtain ⟨_, _, heq⟩ := bind_eq_ok.mp hrest
  cases heq
  exact h bytes decoded.1 decoded.2 hdecoded

def Fields.via (fields : Fields ε α) (write : β → α) (read : α → β) : Fields ε β where
  encode b := fields.encode (write b)
  decode bytes := (fields.decode bytes).map read

theorem Fields.Lawful.via {fields : Fields ε α} (h : fields.Lawful limit) {write : β → α}
    {read : α → β} (hread : ∀ b, read (write b) = b) : (fields.via write read).Lawful limit := by
  intro b hlimit
  have hdecode := h (write b) hlimit
  simp only [Fields.via, hdecode, Except.map, hread]

def Codec.before (codec : Codec ε α) (fields : Fields ε β) : Fields ε (α × β) where
  encode p := codec.encode p.1 ++ fields.encode p.2
  decode bytes := do
    let (a, rest) ← codec.decode bytes
    let b ← fields.decode rest
    return (a, b)

theorem Codec.Lawful.before {codec : Codec ε α} {fields : Fields ε β} (h : codec.Lawful limit)
    (hfields : fields.Lawful limit) : (codec.before fields).Lawful limit := by
  intro p hlimit
  have hrest : (fields.encode p.2).length ≤ limit := by
    simp only [Codec.before, List.length_append] at hlimit
    omega
  have hdecode := h.decode p.1 (fields.encode p.2) hlimit
  simp only [Codec.before, hdecode, bind, Except.bind, hfields p.2 hrest]
  rfl

/-- The last field; nothing may follow it. -/
def Codec.last (codec : Codec ε α) (leftOver : ε) : Fields ε α where
  encode := codec.encode
  decode bytes := do
    let (a, rest) ← codec.decode bytes
    if rest.isEmpty then return a else .error leftOver

theorem Codec.Lawful.last {codec : Codec ε α} (h : codec.Lawful limit) (leftOver : ε) :
    (codec.last leftOver).Lawful limit := by
  intro a hlimit
  have hdecode := h.decode a []
  rw [List.append_nil] at hdecode
  have hdecode := hdecode hlimit
  simp only [Codec.last, hdecode, bind, Except.bind]
  rfl

/-- As many values as the buffer holds. The fuel is its length, as no value is
written to nothing. -/
def Codec.decodeMany (codec : Codec ε α) (outOfFuel : ε) : Nat → Bytes → Except ε (List α)
  | _, [] => .ok []
  | 0, _ => .error outOfFuel
  | fuel + 1, bytes => do
      let (a, rest) ← codec.decode bytes
      let as ← codec.decodeMany outOfFuel fuel rest
      return a :: as

def Codec.many (codec : Codec ε α) (outOfFuel : ε) : Fields ε (List α) where
  encode as := as.flatMap codec.encode
  decode bytes := codec.decodeMany outOfFuel bytes.length bytes

theorem decodeMany_flatMap {codec : Codec ε α} (h : codec.Lawful limit)
    (hne : ∀ a, codec.encode a ≠ []) (outOfFuel : ε) (as : List α) (fuel : Nat)
    (hlimit : (as.flatMap codec.encode).length ≤ limit) (hfuel : as.length ≤ fuel) :
    codec.decodeMany outOfFuel fuel (as.flatMap codec.encode) = .ok as := by
  induction as generalizing fuel with
  | nil =>
      unfold Codec.decodeMany
      rfl
  | cons a as ih =>
      cases fuel with
      | zero => simp at hfuel
      | succ fuel =>
          rw [List.flatMap_cons] at hlimit ⊢
          have hrest := ih fuel (by rw [List.length_append] at hlimit; omega)
            (Nat.le_of_succ_le_succ hfuel)
          have hdecode := h.decode a (as.flatMap codec.encode) hlimit
          cases hbytes : codec.encode a ++ as.flatMap codec.encode with
          | nil => exact absurd (List.append_eq_nil_iff.mp hbytes).1 (hne a)
          | cons b bytes =>
              rw [hbytes] at hdecode
              simp only [Codec.decodeMany, hdecode, bind, Except.bind, hrest]
              rfl

theorem Codec.Lawful.many {codec : Codec ε α} (h : codec.Lawful limit)
    (hne : ∀ a, codec.encode a ≠ []) (outOfFuel : ε) : (codec.many outOfFuel).Lawful limit := by
  intro as hlimit
  apply decodeMany_flatMap h hne outOfFuel as _ hlimit
  unfold Codec.many
  dsimp only
  clear hlimit
  induction as with
  | nil => simp
  | cons a as ih =>
      have hpos := List.length_pos_iff.mpr (hne a)
      rw [List.flatMap_cons, List.length_append, List.length_cons]
      omega

/-- A field that may be left out at the end, or be a marker that no value
starts with. -/
def Codec.trailing (codec : Codec ε α) (marker : UInt8) (leftOver : ε) : Fields ε (Option α) where
  encode
    | none => []
    | some a => codec.encode a
  decode bytes :=
    match bytes with
    | [] => .ok none
    | b :: rest =>
        if b = marker then
          if rest.isEmpty then .ok none else .error leftOver
        else (codec.last leftOver).decode bytes |>.map some

theorem Codec.Lawful.trailing {codec : Codec ε α} (h : codec.Lawful limit) {marker : UInt8}
    (hmarker : ∀ a, ∃ b ∈ (codec.encode a).head?, b ≠ marker) (leftOver : ε) :
    (codec.trailing marker leftOver).Lawful limit := by
  intro value hlimit
  cases value with
  | none => rfl
  | some a =>
      have hlast := h.last leftOver a hlimit
      obtain ⟨b, hb, hne⟩ := hmarker a
      unfold Codec.last at hlast
      unfold Codec.trailing Codec.last
      dsimp only at hlast ⊢
      cases hbytes : codec.encode a with
      | nil =>
          rw [hbytes] at hb
          cases hb
      | cons first rest =>
          rw [hbytes] at hb hlast
          cases hb
          simp only [hne, ↓reduceIte, hlast]
          rfl

end WorldChain.Library.Encoding

import WorldChain.Library.Rlp

/-! Codecs that read their own bytes, whatever follows them. -/
namespace WorldChain.Library.Framing
open Encoding Fallible Rlp

variable {ε α β : Type}

/-- The bytes read are an item of their own. -/
def Delimited (decode : Bytes → Except ε (α × Bytes)) : Prop :=
  ∀ bytes a rest, decode bytes = .ok (a, rest) →
    ∃ item, bytes = item ++ rest ∧ ∀ other, decode (item ++ other) = .ok (a, other)

/-- A header is read with its payload behind it, whatever follows the payload. -/
def HeaderDelimited (decode : Bytes → Except ε (RlpHeader × Bytes)) : Prop :=
  ∀ bytes header rest, decode bytes = .ok (header, rest) →
    header.payloadLength ≤ rest.length ∧ ∃ head, bytes = head ++ rest ∧
      ∀ other, decode (head ++ (rest.take header.payloadLength ++ other)) =
        .ok (header, rest.take header.payloadLength ++ other)

theorem Delimited.start_eq {decode : Bytes → Except ε (α × Bytes)} (h : Delimited decode)
    {item start : Bytes} {a b : α} {rest : Bytes} (hitem : decode item = .ok (a, []))
    (hstarts : start <+: item) (hstart : decode start = .ok (b, rest)) : start = item := by
  obtain ⟨tail, rfl⟩ := hstarts
  obtain ⟨own, rfl, hown⟩ := h start b rest hstart
  rw [List.append_assoc, hown] at hitem
  have hnil := (List.append_eq_nil_iff.mp (Prod.mk.inj (Except.ok.inj hitem)).2).2
  rw [hnil, List.append_nil]

theorem Delimited.via {codec : Codec ε α} (h : Delimited codec.decode) (write : β → α)
    (read : α → Except ε β) : Delimited (codec.via write read).decode := by
  intro bytes b rest hdecode
  obtain ⟨decoded, hdecoded, hrest⟩ := bind_eq_ok.mp hdecode
  obtain ⟨_, hread, heq⟩ := bind_eq_ok.mp hrest
  cases heq
  obtain ⟨item, hitem, hother⟩ := h bytes decoded.1 decoded.2 hdecoded
  refine ⟨item, hitem, ?_⟩
  intro other
  exact bind_eq_ok.mpr ⟨_, hother other, bind_eq_ok.mpr ⟨_, hread, rfl⟩⟩

/-! RLP. -/

theorem checked_delimited (header : RlpHeader) : HeaderDelimited (checked header) := by
  intro bytes found rest h
  unfold checked at h
  split at h
  · cases h
  · rename_i hle
    cases h
    refine ⟨Nat.le_of_not_lt hle, [], rfl, ?_⟩
    intro other
    apply checked_of_le
    rw [List.nil_append, List.length_append, List.length_take]
    omega

theorem decodeLong_delimited (list : Bool) (width : Nat) :
    HeaderDelimited (decodeLong list width) := by
  intro bytes header rest h
  unfold decodeLong at h
  dsimp only at h
  split at h
  · cases h
  rename_i hwidth
  split at h
  · cases h
  rename_i hzero
  split at h
  · cases h
  rename_i hsize
  obtain ⟨hle, head, hhead, hother⟩ := checked_delimited _ _ _ _ h
  have hlength : (bytes.take width).length = width := by
    rw [List.length_take]
    omega
  refine ⟨hle, bytes.take width ++ head, ?_, ?_⟩
  · rw [List.append_assoc, ← hhead, List.take_append_drop]
  · intro other
    unfold decodeLong
    rw [List.append_assoc, if_neg (by rw [List.length_append]; omega), List.take_left' hlength,
      List.drop_left' hlength]
    simp only [hzero, hsize, ↓reduceIte]
    exact hother other

theorem decodeShortString_delimited (length : Nat) :
    HeaderDelimited (decodeShortString length) := by
  intro bytes header rest h
  unfold decodeShortString at h
  by_cases hone : length = 1
  · rw [if_pos hone] at h
    cases bytes with
    | nil => cases h
    | cons b bytes =>
        dsimp only at h
        split at h
        · cases h
        · rename_i hlarge
          unfold checked at h
          rw [if_neg (by simp)] at h
          cases h
          refine ⟨by simp, [], rfl, ?_⟩
          intro other
          simp only [List.nil_append, List.take_succ_cons, List.take_zero, List.cons_append,
            decodeShortString, hone, hlarge, ↓reduceIte]
          exact checked_of_le (by simp)
  · rw [if_neg hone] at h
    obtain ⟨hle, head, hhead, hother⟩ := checked_delimited _ _ _ _ h
    refine ⟨hle, head, hhead, ?_⟩
    intro other
    unfold decodeShortString
    rw [if_neg hone]
    exact hother other

theorem decodeHeader_cons {b : UInt8} {decode : Bytes → Except RlpError (RlpHeader × Bytes)}
    (hkind : ∀ bytes, decodeHeader (b :: bytes) = decode bytes) (h : HeaderDelimited decode)
    {bytes rest : Bytes} {header : RlpHeader}
    (hheader : decodeHeader (b :: bytes) = .ok (header, rest)) :
    header.payloadLength ≤ rest.length ∧ ∃ head, b :: bytes = head ++ rest ∧
      ∀ other, decodeHeader (head ++ (rest.take header.payloadLength ++ other)) =
        .ok (header, rest.take header.payloadLength ++ other) := by
  rw [hkind] at hheader
  obtain ⟨hle, head, hhead, hother⟩ := h _ _ _ hheader
  refine ⟨hle, b :: head, by rw [hhead]; rfl, ?_⟩
  intro other
  rw [List.cons_append, hkind]
  exact hother other

theorem decodeHeader_delimited : HeaderDelimited decodeHeader := by
  intro bytes header rest h
  cases bytes with
  | nil => cases h
  | cons b bytes =>
      by_cases hsingle : b.toNat < 0x80
      · simp only [decodeHeader, hsingle, ↓reduceIte] at h
        cases h
        refine ⟨by simp, [], rfl, ?_⟩
        intro other
        simp [decodeHeader, hsingle]
      by_cases hshort : b.toNat < 0xb8
      · apply decodeHeader_cons _ (decodeShortString_delimited (b.toNat - 0x80)) h
        intro bytes
        simp only [decodeHeader, hsingle, hshort, ↓reduceIte]
      by_cases hlong : b.toNat < 0xc0
      · apply decodeHeader_cons _ (decodeLong_delimited false (b.toNat - 0xb7)) h
        intro bytes
        simp only [decodeHeader, hsingle, hshort, hlong, ↓reduceIte]
      by_cases hlist : b.toNat < 0xf8
      · apply decodeHeader_cons _ (checked_delimited ⟨true, b.toNat - 0xc0⟩) h
        intro bytes
        simp only [decodeHeader, hsingle, hshort, hlong, hlist, ↓reduceIte]
      · apply decodeHeader_cons _ (decodeLong_delimited true (b.toNat - 0xf7)) h
        intro bytes
        simp only [decodeHeader, hsingle, hshort, hlong, hlist, ↓reduceIte]

theorem string_delimited : Delimited string.decode := by
  intro bytes a rest h
  obtain ⟨⟨header, body⟩, hheader, hbody⟩ := bind_eq_ok.mp h
  dsimp only at hbody
  split at hbody
  · cases hbody
  · rename_i hlist
    cases hbody
    obtain ⟨hle, head, hhead, hother⟩ := decodeHeader_delimited _ _ _ hheader
    refine ⟨head ++ body.take header.payloadLength, ?_, ?_⟩
    · rw [List.append_assoc, List.take_append_drop, hhead]
    · intro other
      have hlength : (body.take header.payloadLength).length = header.payloadLength := by
        rw [List.length_take]
        omega
      rw [List.append_assoc]
      refine bind_eq_ok.mpr ⟨_, hother other, ?_⟩
      dsimp only
      rw [if_neg hlist, List.take_left' hlength, List.drop_left' hlength]
      rfl

theorem number_delimited {α : Type} (width : Nat) (toNat : α → Nat) (ofNat : Nat → α) :
    Delimited (number width toNat ofNat).decode :=
  string_delimited.via _ _

end WorldChain.Library.Framing

import Mathlib.Algebra.Ring.Nat
import WorldChain.Library.Encoding

/-! RLP: byte strings and lists under a header with their length; numbers are
strings of big-endian bytes without leading zeros. -/
namespace WorldChain.Library.Rlp
open Encoding Fallible

inductive RlpError
  | overflow
  | leadingZero
  | inputTooShort
  | nonCanonicalSingleByte
  | nonCanonicalSize
  | unexpectedLength
  | unexpectedString
  | unexpectedList
  | listLengthMismatch (expected got : Nat)
  | custom (message : String)
  deriving DecidableEq

structure RlpHeader where
  list : Bool
  payloadLength : Nat
  deriving DecidableEq

/-! Numbers. -/

def bigEndian : (width : Nat) → Nat → Bytes
  | 0, _ => []
  | width + 1, n => bigEndian width (n / 256) ++ [.ofNat n]

def value (bytes : Bytes) : Nat := bytes.foldl (fun n b => n * 256 + b.toNat) 0

def minimal (width n : Nat) : Bytes := (bigEndian width n).dropWhile fun b => b = 0

theorem value_concat (bytes : Bytes) (b : UInt8) :
    value (bytes ++ [b]) = value bytes * 256 + b.toNat := by
  simp [value]

theorem value_zero_cons (bytes : Bytes) : value (0 :: bytes) = value bytes := rfl

@[simp] theorem length_bigEndian (width n : Nat) : (bigEndian width n).length = width := by
  induction width generalizing n with
  | zero => rfl
  | succ width ih => simp [bigEndian, ih]

theorem value_bigEndian {width n : Nat} (h : n < 256 ^ width) :
    value (bigEndian width n) = n := by
  induction width generalizing n with
  | zero =>
      have hzero : n = 0 := by simpa using h
      rw [hzero]
      rfl
  | succ width ih =>
      have hdiv : n / 256 < 256 ^ width := by
        rw [pow_succ] at h
        omega
      rw [bigEndian, value_concat, ih hdiv, UInt8.toNat_ofNat']
      omega

theorem value_dropWhile_zero (bytes : Bytes) :
    value (bytes.dropWhile fun b => b = 0) = value bytes := by
  induction bytes with
  | nil => rfl
  | cons b rest ih =>
      by_cases hb : b = 0
      · rw [List.dropWhile_cons_of_pos (by simpa using hb), ih, hb, value_zero_cons]
      · rw [List.dropWhile_cons_of_neg (by simpa using hb)]

theorem value_minimal {width n : Nat} (h : n < 256 ^ width) : value (minimal width n) = n := by
  rw [minimal, value_dropWhile_zero, value_bigEndian h]

theorem length_minimal_le (width n : Nat) : (minimal width n).length ≤ width := by
  have hle := (List.dropWhile_sublist (l := bigEndian width n) fun b => decide (b = 0)).length_le
  rwa [length_bigEndian] at hle

theorem head_minimal (width n : Nat) : ∀ b ∈ (minimal width n).head?, b ≠ 0 := by
  intro b hb
  have hnot := List.head?_dropWhile_not (fun b : UInt8 => decide (b = 0)) (bigEndian width n)
  unfold minimal at hb
  rw [Option.mem_def.mp hb] at hnot
  simpa using hnot

theorem length_minimal_pos {width n : Nat} (h : n < 256 ^ width) (hpos : 0 < n) :
    0 < (minimal width n).length := by
  apply List.length_pos_iff.mpr
  intro hnil
  have hvalue := value_minimal h
  rw [hnil] at hvalue
  have hzero : n = 0 := hvalue.symm
  omega

/-! Headers. -/

def encodeHeader (header : RlpHeader) : Bytes :=
  if header.payloadLength < 56 then
    [.ofNat ((if header.list then 0xc0 else 0x80) + header.payloadLength)]
  else
    let size := minimal 8 header.payloadLength
    .ofNat ((if header.list then 0xf7 else 0xb7) + size.length) :: size

def checked (header : RlpHeader) (rest : Bytes) : Except RlpError (RlpHeader × Bytes) :=
  if rest.length < header.payloadLength then .error .inputTooShort else .ok (header, rest)

def decodeLong (list : Bool) (width : Nat) (rest : Bytes) : Except RlpError (RlpHeader × Bytes) :=
  if rest.length < width then .error .inputTooShort
  else
    let size := rest.take width
    if size.head? = some 0 then .error .leadingZero
    else if value size < 56 then .error .nonCanonicalSize
    else checked ⟨list, value size⟩ (rest.drop width)

def decodeShortString (length : Nat) (rest : Bytes) : Except RlpError (RlpHeader × Bytes) :=
  if length = 1 then
    match rest with
    | [] => .error .inputTooShort
    | b :: _ => if b < 0x80 then .error .nonCanonicalSingleByte else checked ⟨false, 1⟩ rest
  else checked ⟨false, length⟩ rest

/-- A byte below 0x80 is a string of itself, without a header to consume. -/
def decodeHeader : Bytes → Except RlpError (RlpHeader × Bytes)
  | [] => .error .inputTooShort
  | b :: rest =>
      let code := b.toNat
      if code < 0x80 then .ok (⟨false, 1⟩, b :: rest)
      else if code < 0xb8 then decodeShortString (code - 0x80) rest
      else if code < 0xc0 then decodeLong false (code - 0xb7) rest
      else if code < 0xf8 then checked ⟨true, code - 0xc0⟩ rest
      else decodeLong true (code - 0xf7) rest

theorem checked_of_le {header : RlpHeader} {rest : Bytes}
    (h : header.payloadLength ≤ rest.length) : checked header rest = .ok (header, rest) :=
  if_neg (Nat.not_lt_of_le h)

theorem decodeLong_minimal {list : Bool} {n : Nat} {rest : Bytes} (hn : n < 256 ^ 8)
    (hlong : 56 ≤ n) (h : n ≤ rest.length) :
    decodeLong list (minimal 8 n).length (minimal 8 n ++ rest) = .ok (⟨list, n⟩, rest) := by
  have hhead : (minimal 8 n).head? ≠ some 0 := by
    intro hzero
    exact head_minimal 8 n 0 hzero rfl
  have hvalue := value_minimal hn
  unfold decodeLong
  rw [if_neg (by simp), List.take_left, List.drop_left]
  simp only [hhead, ↓reduceIte, hvalue, Nat.not_lt_of_le hlong]
  exact checked_of_le h

/-- A header comes back when the payload is there; a single byte below 0x80 is
not written under one. -/
theorem decodeHeader_encodeHeader {header : RlpHeader} {rest : Bytes}
    (hsize : header.payloadLength < 256 ^ 8) (h : header.payloadLength ≤ rest.length)
    (hcanonical : header = ⟨false, 1⟩ → ∀ b ∈ rest.head?, ¬b < 0x80) :
    decodeHeader (encodeHeader header ++ rest) = .ok (header, rest) := by
  obtain ⟨list, n⟩ := header
  dsimp only at hsize h
  by_cases hshort : n < 56
  · simp only [encodeHeader, hshort, ↓reduceIte, List.singleton_append, decodeHeader]
    cases list with
    | true =>
        have hcode : (UInt8.ofNat (0xc0 + n)).toNat = 0xc0 + n := by
          rw [UInt8.toNat_ofNat']
          omega
        simp only [↓reduceIte, hcode]
        rw [if_neg (by omega), if_neg (by omega), if_neg (by omega), if_pos (by omega)]
        rw [show 0xc0 + n - 0xc0 = n by omega]
        exact checked_of_le h
    | false =>
        have hcode : (UInt8.ofNat (0x80 + n)).toNat = 0x80 + n := by
          rw [UInt8.toNat_ofNat']
          omega
        simp only [Bool.false_eq_true, ↓reduceIte, hcode]
        rw [if_neg (by omega), if_pos (by omega), show 0x80 + n - 0x80 = n by omega]
        unfold decodeShortString
        by_cases hone : n = 1
        · rw [if_pos hone]
          cases rest with
          | nil => simp [hone] at h
          | cons b rest =>
              have hbyte := hcanonical (by rw [hone]) b rfl
              simp only [hbyte, ↓reduceIte]
              rw [hone] at h ⊢
              exact checked_of_le h
        · rw [if_neg hone]
          exact checked_of_le h
  · have hle := length_minimal_le 8 n
    have hpos := length_minimal_pos hsize (by omega)
    simp only [encodeHeader, hshort, ↓reduceIte, List.cons_append, decodeHeader]
    cases list with
    | true =>
        have hcode : (UInt8.ofNat (0xf7 + (minimal 8 n).length)).toNat =
            0xf7 + (minimal 8 n).length := by
          rw [UInt8.toNat_ofNat']
          omega
        simp only [↓reduceIte, hcode]
        rw [if_neg (by omega), if_neg (by omega), if_neg (by omega), if_neg (by omega)]
        rw [show 0xf7 + (minimal 8 n).length - 0xf7 = (minimal 8 n).length by omega]
        exact decodeLong_minimal hsize (by omega) h
    | false =>
        have hcode : (UInt8.ofNat (0xb7 + (minimal 8 n).length)).toNat =
            0xb7 + (minimal 8 n).length := by
          rw [UInt8.toNat_ofNat']
          omega
        simp only [Bool.false_eq_true, ↓reduceIte, hcode]
        rw [if_neg (by omega), if_neg (by omega), if_pos (by omega)]
        rw [show 0xb7 + (minimal 8 n).length - 0xb7 = (minimal 8 n).length by omega]
        exact decodeLong_minimal hsize (by omega) h

/-- A header that is read has its payload behind it. -/
def Fits (bytes : Bytes) (header : RlpHeader) (rest : Bytes) : Prop :=
  rest <:+ bytes ∧ header.payloadLength ≤ rest.length

theorem checked_fits {header header' : RlpHeader} {bytes rest rest' : Bytes}
    (hsuffix : rest <:+ bytes) (h : checked header rest = .ok (header', rest')) :
    Fits bytes header' rest' := by
  unfold checked at h
  split at h
  · cases h
  · rename_i hle
    cases h
    exact ⟨hsuffix, Nat.le_of_not_lt hle⟩

theorem decodeLong_fits {list : Bool} {width : Nat} {bytes rest rest' : Bytes}
    {header : RlpHeader} (hsuffix : rest <:+ bytes)
    (h : decodeLong list width rest = .ok (header, rest')) : Fits bytes header rest' := by
  unfold decodeLong at h
  dsimp only at h
  split at h
  · cases h
  split at h
  · cases h
  split at h
  · cases h
  · exact checked_fits ((List.drop_suffix width rest).trans hsuffix) h

theorem decodeShortString_fits {length : Nat} {bytes rest rest' : Bytes} {header : RlpHeader}
    (hsuffix : rest <:+ bytes) (h : decodeShortString length rest = .ok (header, rest')) :
    Fits bytes header rest' := by
  unfold decodeShortString at h
  split at h
  · cases rest with
    | nil => cases h
    | cons b rest =>
        dsimp only at h
        split at h
        · cases h
        · exact checked_fits hsuffix h
  · exact checked_fits hsuffix h

theorem decodeHeader_fits {bytes rest : Bytes} {header : RlpHeader}
    (h : decodeHeader bytes = .ok (header, rest)) : Fits bytes header rest := by
  cases bytes with
  | nil => cases h
  | cons b bytes =>
      have hsuffix := List.suffix_cons b bytes
      unfold decodeHeader at h
      dsimp only at h
      split at h
      · cases h
        exact ⟨List.suffix_refl _, by simp⟩
      split at h
      · exact decodeShortString_fits hsuffix h
      split at h
      · exact decodeLong_fits hsuffix h
      split at h
      · exact checked_fits hsuffix h
      · exact decodeLong_fits hsuffix h

/-! Strings and lists. The limit is the largest machine word. -/

def limit : Nat := UInt64.size - 1

def headerLength (payloadLength : Nat) : Nat :=
  if payloadLength < 56 then 1 else 1 + (minimal 8 payloadLength).length

theorem length_encodeHeader (header : RlpHeader) :
    (encodeHeader header).length = headerLength header.payloadLength := by
  unfold encodeHeader headerLength
  split
  · rfl
  · rw [List.length_cons, Nat.add_comm]

def isSingleByte (bytes : Bytes) : Bool :=
  bytes.length = 1 && bytes.all fun b => b < 0x80

def encodeString (bytes : Bytes) : Bytes :=
  if isSingleByte bytes then bytes else encodeHeader ⟨false, bytes.length⟩ ++ bytes

def decodeString (bytes : Bytes) : Except RlpError (Bytes × Bytes) := do
  let (header, rest) ← decodeHeader bytes
  if header.list then .error .unexpectedList
  else return (rest.take header.payloadLength, rest.drop header.payloadLength)

def string : Codec RlpError Bytes where
  encode := encodeString
  length bytes :=
    if isSingleByte bytes then 1 else headerLength bytes.length + bytes.length
  decode := decodeString

theorem string_lawful : string.Lawful limit where
  length bytes := by
    unfold string encodeString
    dsimp only
    split
    · rename_i hsingle
      have hone : bytes.length = 1 := by
        simp only [isSingleByte, Bool.and_eq_true, decide_eq_true_eq] at hsingle
        exact hsingle.1
      exact hone.symm
    · rw [List.length_append, length_encodeHeader]
  decode bytes rest hlimit := by
    unfold string at hlimit ⊢
    dsimp only at hlimit ⊢
    by_cases hsingle : isSingleByte bytes
    · have hbytes : ∃ b, bytes = [b] ∧ b < 0x80 := by
        simp only [isSingleByte, Bool.and_eq_true, decide_eq_true_eq] at hsingle
        obtain ⟨b, rfl⟩ := List.length_eq_one_iff.mp hsingle.1
        exact ⟨b, rfl, by simpa using hsingle.2⟩
      obtain ⟨b, rfl, hb⟩ := hbytes
      have hcode : b.toNat < 0x80 := UInt8.lt_iff_toNat_lt.mp hb
      simp only [decodeString, encodeString, hsingle, ↓reduceIte, List.singleton_append,
        decodeHeader, hcode, bind, Except.bind, Bool.false_eq_true]
      rfl
    · rw [encodeString, if_neg hsingle] at hlimit ⊢
      rw [List.append_assoc] at hlimit ⊢
      have hle : bytes.length ≤ (bytes ++ rest).length := by simp
      have hsize : bytes.length < 256 ^ 8 := by
        simp only [List.length_append, limit, UInt64.size] at hlimit
        omega
      have hcanonical : (⟨false, bytes.length⟩ : RlpHeader) = ⟨false, 1⟩ →
          ∀ b ∈ (bytes ++ rest).head?, ¬b < 0x80 := by
        intro hone b hb hlt
        obtain ⟨first, rfl⟩ := List.length_eq_one_iff.mp (congrArg RlpHeader.payloadLength hone)
        cases hb
        exact hsingle (by simp [isSingleByte, hlt])
      have hheader := decodeHeader_encodeHeader hsize hle hcanonical
      simp only [decodeString, hheader, bind, Except.bind, Bool.false_eq_true, ↓reduceIte,
        List.take_left, List.drop_left]
      rfl

theorem string_ne_nil (bytes : Bytes) : string.encode bytes ≠ [] := by
  unfold string encodeString
  dsimp only
  split
  · rename_i hsingle
    intro hnil
    rw [hnil] at hsingle
    cases hsingle
  · unfold encodeHeader
    split <;> simp

theorem string_advances : string.Advances := by
  intro bytes a rest h
  obtain ⟨⟨header, body⟩, hheader, hbody⟩ := bind_eq_ok.mp h
  dsimp only at hbody
  split at hbody
  · cases hbody
  · cases hbody
    exact (List.drop_suffix _ body).trans (decodeHeader_fits hheader).1

def fixedString {α : Type} (width : Nat) (write : α → Bytes) (read : Bytes → α) :
    Codec RlpError α :=
  string.via write fun bytes =>
    if bytes.length = width then .ok (read bytes) else .error .unexpectedLength

theorem fixedString_lawful {α : Type} {width : Nat} {write : α → Bytes} {read : Bytes → α}
    (hwidth : ∀ a, (write a).length = width) (hread : ∀ a, read (write a) = a) :
    (fixedString width write read).Lawful limit := by
  apply string_lawful.via
  intro a
  rw [if_pos (hwidth a), hread]

theorem fixedString_advances {α : Type} (width : Nat) (write : α → Bytes) (read : Bytes → α) :
    (fixedString width write read).Advances :=
  string_advances.via write _

def word (width bits : Nat) : Codec RlpError (BitVec bits) :=
  fixedString width (fun a => bigEndian width a.toNat) fun bytes => .ofNat bits (value bytes)

theorem word_lawful {width bits : Nat} (h : 2 ^ bits ≤ 256 ^ width) :
    (word width bits).Lawful limit := by
  apply fixedString_lawful
  · intro a
    exact length_bigEndian width a.toNat
  · intro a
    rw [value_bigEndian (Nat.lt_of_lt_of_le a.isLt h), BitVec.ofNat_toNat, BitVec.setWidth_eq]

theorem word_advances (width bits : Nat) : (word width bits).Advances :=
  fixedString_advances width _ _

def number {α : Type} (width : Nat) (toNat : α → Nat) (ofNat : Nat → α) : Codec RlpError α :=
  string.via (fun a => minimal width (toNat a)) fun bytes =>
    if width < bytes.length then .error .overflow
    else if bytes.head? = some 0 then .error .leadingZero
    else .ok (ofNat (value bytes))

theorem number_lawful {α : Type} {width : Nat} {toNat : α → Nat} {ofNat : Nat → α}
    (hwidth : ∀ a, toNat a < 256 ^ width) (hofNat : ∀ a, ofNat (toNat a) = a) :
    (number width toNat ofNat).Lawful limit := by
  apply string_lawful.via
  intro a
  have hhead : (minimal width (toNat a)).head? ≠ some 0 := by
    intro hzero
    exact head_minimal width (toNat a) 0 hzero rfl
  rw [if_neg (Nat.not_lt_of_le (length_minimal_le width (toNat a))), if_neg hhead,
    value_minimal (hwidth a), hofNat]

theorem number_advances {α : Type} (width : Nat) (toNat : α → Nat) (ofNat : Nat → α) :
    (number width toNat ofNat).Advances :=
  string_advances.via _ _

theorem number_ne_nil {α : Type} (width : Nat) (toNat : α → Nat) (ofNat : Nat → α) (a : α) :
    (number width toNat ofNat).encode a ≠ [] :=
  string_ne_nil (minimal width (toNat a))

def decodeList {α : Type} (fields : Fields RlpError α) (bytes : Bytes) :
    Except RlpError (α × Bytes) := do
  let (header, rest) ← decodeHeader bytes
  if header.list then
    let a ← fields.decode (rest.take header.payloadLength)
    return (a, rest.drop header.payloadLength)
  else .error .unexpectedString

def list {α : Type} (fields : Fields RlpError α) : Codec RlpError α where
  encode a := encodeHeader ⟨true, (fields.encode a).length⟩ ++ fields.encode a
  length a := headerLength (fields.encode a).length + (fields.encode a).length
  decode := decodeList fields

theorem list_lawful {α : Type} {fields : Fields RlpError α} (h : fields.Lawful limit) :
    (list fields).Lawful limit where
  length a := by
    unfold list
    dsimp only
    rw [List.length_append, length_encodeHeader]
  decode a rest hlimit := by
    unfold list at hlimit ⊢
    dsimp only at hlimit ⊢
    rw [List.append_assoc] at hlimit ⊢
    have hfits : (fields.encode a).length ≤ limit := by
      simp only [List.length_append] at hlimit
      omega
    have hsize : (fields.encode a).length < 256 ^ 8 := by
      simp only [limit, UInt64.size] at hfits
      omega
    have hle : (fields.encode a).length ≤ (fields.encode a ++ rest).length := by simp
    have hcanonical : (⟨true, (fields.encode a).length⟩ : RlpHeader) = ⟨false, 1⟩ →
        ∀ b ∈ (fields.encode a ++ rest).head?, ¬b < 0x80 := fun hstring => nomatch hstring
    have hheader := decodeHeader_encodeHeader hsize hle hcanonical
    have hfields := h a hfits
    simp only [decodeList, hheader, bind, Except.bind, ↓reduceIte, List.take_left, List.drop_left,
      hfields]
    rfl

theorem list_advances {α : Type} (fields : Fields RlpError α) : (list fields).Advances := by
  intro bytes a rest h
  obtain ⟨⟨header, body⟩, hheader, hbody⟩ := bind_eq_ok.mp h
  dsimp only at hbody
  split at hbody
  · obtain ⟨_, _, heq⟩ := bind_eq_ok.mp hbody
    cases heq
    exact (List.drop_suffix _ body).trans (decodeHeader_fits hheader).1
  · cases hbody

theorem list_head {α : Type} (fields : Fields RlpError α) (a : α) :
    ∃ b ∈ ((list fields).encode a).head?, 0xc0 ≤ b.toNat := by
  have hle := length_minimal_le 8 (fields.encode a).length
  unfold list encodeHeader
  dsimp only
  split
  · refine ⟨_, rfl, ?_⟩
    simp only [↓reduceIte, UInt8.toNat_ofNat']
    omega
  · refine ⟨_, rfl, ?_⟩
    simp only [↓reduceIte, UInt8.toNat_ofNat']
    omega

theorem list_ne_nil {α : Type} (fields : Fields RlpError α) (a : α) :
    (list fields).encode a ≠ [] := by
  intro hnil
  obtain ⟨b, hb, _⟩ := list_head fields a
  rw [hnil] at hb
  cases hb

theorem list_head_ne {α : Type} (fields : Fields RlpError α) (a : α) :
    ∃ b ∈ ((list fields).encode a).head?, b ≠ 0x80 := by
  obtain ⟨b, hb, hlist⟩ := list_head fields a
  refine ⟨b, hb, ?_⟩
  intro hmarker
  rw [hmarker] at hlist
  exact absurd hlist (by decide)

def listOf {α : Type} (codec : Codec RlpError α) : Codec RlpError (List α) :=
  list (codec.many .inputTooShort)

theorem listOf_lawful {α : Type} {codec : Codec RlpError α} (h : codec.Lawful limit)
    (hne : ∀ a, codec.encode a ≠ []) : (listOf codec).Lawful limit :=
  list_lawful (h.many hne .inputTooShort)

end WorldChain.Library.Rlp

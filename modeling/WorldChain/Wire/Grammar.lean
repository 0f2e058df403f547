import WorldChain.Wire.Alloy

/-! What the two decoders accept. The list is read inside a window of its
announced length, and the cursor then jumps to the end of the window, wherever
the fifth item has ended. -/
namespace WorldChain.Wire.Grammar
open Library.Fallible Library.Rlp Primitives Message Alloy

structure Advances {M : Type} (C : Codecs M) : Prop where
  header : ∀ buf header rest, C.header.decode buf = .ok (header, rest) →
    rest <:+ buf ∧ header.payloadLength ≤ rest.length
  u8 : C.u8.Advances
  u64 : C.u64.Advances
  b64 : C.b64.Advances
  bytes : C.bytes.Advances
  diff : C.diff.Advances
  base : C.base.Advances

/-- The bytes of a list, cut between its items. -/
structure Items where
  payloadId : Bytes
  index : Bytes
  diff : Bytes
  metadata : Bytes
  base : Bytes

def Items.body (items : Items) (extra : Bytes) : Bytes :=
  items.payloadId ++ (items.index ++ (items.diff ++ (items.metadata ++ (items.base ++ extra))))

variable {M : Type}

def ReadsBase (C : Codecs M) (item extra : Bytes) : Option ExecutionPayloadBaseV1 → Prop
  | none => item = [0x80]
  | some base =>
      (item ++ extra).head? ≠ some 0x80 ∧ C.base.decode (item ++ extra) = .ok (base, extra)

structure Items.Read (C : Codecs M) (items : Items) (payload : FlashblocksPayloadV1 M)
    (extra : Bytes) : Prop where
  payloadId : C.b64.decode (items.body extra) =
    .ok (payload.payloadId,
      items.index ++ (items.diff ++ (items.metadata ++ (items.base ++ extra))))
  index : C.u64.decode (items.index ++ (items.diff ++ (items.metadata ++ (items.base ++ extra)))) =
    .ok (payload.index, items.diff ++ (items.metadata ++ (items.base ++ extra)))
  diff : C.diff.decode (items.diff ++ (items.metadata ++ (items.base ++ extra))) =
    .ok (payload.diff, items.metadata ++ (items.base ++ extra))
  metadata : ∃ metaBytes, C.bytes.decode (items.metadata ++ (items.base ++ extra)) =
    .ok (metaBytes, items.base ++ extra) ∧ C.fromJson metaBytes = some payload.metadata
  base : ReadsBase C items.base extra payload.base

/-- The buffer starts with one list: exactly the five items, and `extra`. -/
def Spells (C : Codecs M) (buf : Bytes) (payload : FlashblocksPayloadV1 M) (extra rest : Bytes) :
    Prop :=
  ∃ (head : Bytes) (items : Items), buf = head ++ (items.body extra ++ rest) ∧
    C.header.decode buf = .ok (⟨true, (items.body extra).length⟩, items.body extra ++ rest) ∧
    items.Read C payload extra

def SpellsMsg (D : Codecs FlashblockMetadata) (buf : Bytes) :
    FlashblocksP2PMsg → (extra rest : Bytes) → Prop
  | .flashblocksPayloadV1 payload, extra, rest =>
      ∃ tag list : Bytes, buf = tag ++ list ∧ D.u8.decode buf = .ok (0, list) ∧
        Spells D list payload extra rest

def Panics (e : DecodeError) : Prop := ∃ message, e = .panic message

/-- No slice is out of range, and what is accepted is in the grammar. -/
structure AcceptsOnly {A : Type} (grammar : A → Bytes → Prop)
    (result : Except DecodeError (A × Bytes)) : Prop where
  inRange : Avoids Panics result
  accepted : ∀ a rest, result = .ok (a, rest) → grammar a rest

/-- Five items that are well formed, and at least one byte behind them in the list. -/
def Overlong (C : Codecs M) (buf : Bytes) : Prop :=
  ∃ (payload : FlashblocksPayloadV1 M) (extra rest : Bytes),
    extra ≠ [] ∧ Spells C buf payload extra rest

def OverlongMsg (D : Codecs FlashblockMetadata) (buf : Bytes) : Prop :=
  ∃ (message : FlashblocksP2PMsg) (extra rest : Bytes),
    extra ≠ [] ∧ SpellsMsg D buf message extra rest

variable {C : Codecs M}

theorem rlp_eq_ok {α : Type} {x : Except RlpError α} {a : α} : rlp x = .ok a ↔ x = .ok a := by
  cases x <;> simp [rlp, Except.mapError]

theorem rlp_avoids {α : Type} (x : Except RlpError α) : Avoids Panics (rlp x) :=
  avoids_mapError (fun _ ⟨_, h⟩ => by cases h) x

/-! Slices. -/

theorem decodeMetadata_eq_ok {metaBytes : Bytes} {metadata : M} :
    decodeMetadata C metaBytes = .ok metadata ↔ C.fromJson metaBytes = some metadata := by
  unfold decodeMetadata
  cases C.fromJson metaBytes <;> simp

theorem decodeMetadata_avoids (metaBytes : Bytes) :
    Avoids Panics (decodeMetadata C metaBytes) := by
  unfold decodeMetadata
  cases C.fromJson metaBytes <;> simp [Panics]

theorem decodeBase_avoids (body : Bytes) : Avoids Panics (decodeBase C body) := by
  unfold decodeBase
  split
  · exact avoids_ok none
  · exact (rlp_avoids _).bind_pure _

theorem decodeBody_avoids (body : Bytes) : Avoids Panics (decodeBody C body) := by
  unfold decodeBody
  refine (rlp_avoids _).bind fun _ _ => ?_
  refine (rlp_avoids _).bind fun _ _ => ?_
  refine (rlp_avoids _).bind fun _ _ => ?_
  refine (rlp_avoids _).bind fun _ _ => ?_
  refine (decodeMetadata_avoids _).bind fun _ _ => ?_
  exact (decodeBase_avoids _).bind_pure _

theorem decodePayload_avoids (h : Advances C) (buf : Bytes) :
    Avoids Panics (decodePayload C buf) := by
  unfold decodePayload
  refine (rlp_avoids _).bind fun decoded hdecoded => ?_
  obtain ⟨header, window⟩ := decoded
  have hfits := (h.header buf header window (rlp_eq_ok.mp hdecoded)).2
  dsimp only
  split
  · rw [splitAt, if_pos hfits]
    refine (avoids_ok _).bind fun _ _ => ?_
    exact (decodeBody_avoids _).bind_pure _
  · simp [Panics]

theorem decodeMsg_avoids {D : Codecs FlashblockMetadata} (h : Advances D) (buf : Bytes) :
    Avoids Panics (decodeMsg D buf) := by
  unfold decodeMsg
  refine (rlp_avoids _).bind fun decoded _ => ?_
  dsimp only
  split
  · exact (decodePayload_avoids h _).bind_pure _
  · simp [Panics]

/-! The decoders accept exactly the lists that start with five items. -/

theorem decodeBase_eq_ok (h : Advances C) {body : Bytes} {base : Option ExecutionPayloadBaseV1} :
    decodeBase C body = .ok base ↔
      ∃ item extra : Bytes, body = item ++ extra ∧ ReadsBase C item extra base := by
  unfold decodeBase
  constructor
  · intro hbase
    split at hbase
    · rename_i hmarker
      cases hbase
      obtain ⟨extra, rfl⟩ := List.head?_eq_some_iff.mp hmarker
      exact ⟨[0x80], extra, rfl, rfl⟩
    · rename_i hmarker
      obtain ⟨decoded, hdecoded, heq⟩ := bind_eq_ok.mp hbase
      cases heq
      rw [rlp_eq_ok] at hdecoded
      obtain ⟨item, rfl⟩ := h.base _ _ _ hdecoded
      exact ⟨item, decoded.2, rfl, hmarker, hdecoded⟩
  · rintro ⟨item, extra, rfl, hreads⟩
    cases base with
    | none =>
        rw [show item = [0x80] from hreads]
        rfl
    | some base =>
        rw [if_neg hreads.1, hreads.2]
        rfl

/-- The window holds the items, whatever follows the last of them. -/
theorem decodeBody_eq_ok (h : Advances C) {body : Bytes} {payload : FlashblocksPayloadV1 M} :
    decodeBody C body = .ok payload ↔
      ∃ (items : Items) (extra : Bytes), body = items.body extra ∧ items.Read C payload extra := by
  unfold decodeBody
  constructor
  · intro hbody
    obtain ⟨⟨payloadId, body₁⟩, hid, hbody⟩ := bind_eq_ok.mp hbody
    obtain ⟨⟨index, body₂⟩, hindex, hbody⟩ := bind_eq_ok.mp hbody
    obtain ⟨⟨diff, body₃⟩, hdiff, hbody⟩ := bind_eq_ok.mp hbody
    obtain ⟨⟨metaBytes, body₄⟩, hbytes, hbody⟩ := bind_eq_ok.mp hbody
    obtain ⟨metadata, hmetadata, hbody⟩ := bind_eq_ok.mp hbody
    obtain ⟨base, hbase, heq⟩ := bind_eq_ok.mp hbody
    cases heq
    rw [rlp_eq_ok] at hid hindex hdiff hbytes
    obtain ⟨baseItem, extra, rfl, hreads⟩ := (decodeBase_eq_ok h).mp hbase
    obtain ⟨idItem, rfl⟩ := h.b64 _ _ _ hid
    obtain ⟨indexItem, rfl⟩ := h.u64 _ _ _ hindex
    obtain ⟨diffItem, rfl⟩ := h.diff _ _ _ hdiff
    obtain ⟨metaItem, rfl⟩ := h.bytes _ _ _ hbytes
    exact ⟨⟨idItem, indexItem, diffItem, metaItem, baseItem⟩, extra, rfl, hid, hindex, hdiff,
      ⟨metaBytes, hbytes, decodeMetadata_eq_ok.mp hmetadata⟩, hreads⟩
  · rintro ⟨items, extra, rfl, hread⟩
    obtain ⟨metaBytes, hbytes, hmetadata⟩ := hread.metadata
    have hbase := (decodeBase_eq_ok h).mpr ⟨items.base, extra, rfl, hread.base⟩
    refine bind_eq_ok.mpr ⟨_, rlp_eq_ok.mpr hread.payloadId, ?_⟩
    refine bind_eq_ok.mpr ⟨_, rlp_eq_ok.mpr hread.index, ?_⟩
    refine bind_eq_ok.mpr ⟨_, rlp_eq_ok.mpr hread.diff, ?_⟩
    refine bind_eq_ok.mpr ⟨_, rlp_eq_ok.mpr hbytes, ?_⟩
    refine bind_eq_ok.mpr ⟨_, decodeMetadata_eq_ok.mpr hmetadata, ?_⟩
    exact bind_eq_ok.mpr ⟨_, hbase, rfl⟩

theorem decodePayload_eq_ok (h : Advances C) {buf rest : Bytes}
    {payload : FlashblocksPayloadV1 M} :
    decodePayload C buf = .ok (payload, rest) ↔ ∃ extra, Spells C buf payload extra rest := by
  unfold decodePayload
  constructor
  · intro hpayload
    obtain ⟨⟨header, window⟩, hheader, hpayload⟩ := bind_eq_ok.mp hpayload
    rw [rlp_eq_ok] at hheader
    obtain ⟨⟨head, hhead⟩, hfits⟩ := h.header _ _ _ hheader
    dsimp only at hpayload
    split at hpayload
    · rename_i hlist
      rw [splitAt, if_pos hfits] at hpayload
      obtain ⟨_, hsplit, hpayload⟩ := bind_eq_ok.mp hpayload
      cases hsplit
      obtain ⟨payload', hbody, heq⟩ := bind_eq_ok.mp hpayload
      cases heq
      obtain ⟨items, extra, hitems, hread⟩ := (decodeBody_eq_ok h).mp hbody
      have hlength : (items.body extra).length = header.payloadLength := by
        rw [← hitems, List.length_take, Nat.min_eq_left hfits]
      have hwindow : window = items.body extra ++ window.drop header.payloadLength := by
        rw [← hitems, List.take_append_drop]
      have hannounced : header = ⟨true, (items.body extra).length⟩ := by
        rw [hlength, ← hlist]
      refine ⟨extra, head, items, ?_, ?_, hread⟩
      · rw [← hwindow, hhead]
      · rw [← hwindow, hheader, hannounced]
    · cases hpayload
  · rintro ⟨extra, head, items, _, hheader, hread⟩
    have hbody := (decodeBody_eq_ok h).mpr ⟨items, extra, rfl, hread⟩
    refine bind_eq_ok.mpr ⟨_, rlp_eq_ok.mpr hheader, ?_⟩
    dsimp only
    rw [if_pos rfl]
    refine bind_eq_ok.mpr ⟨_, splitAt_append _ rest, ?_⟩
    exact bind_eq_ok.mpr ⟨payload, hbody, rfl⟩

theorem decodeMsg_eq_ok {D : Codecs FlashblockMetadata} (h : Advances D) {buf rest : Bytes}
    {message : FlashblocksP2PMsg} :
    decodeMsg D buf = .ok (message, rest) ↔ ∃ extra, SpellsMsg D buf message extra rest := by
  obtain ⟨payload⟩ := message
  unfold decodeMsg
  constructor
  · intro hmessage
    obtain ⟨⟨tag, list⟩, htag, hmessage⟩ := bind_eq_ok.mp hmessage
    rw [rlp_eq_ok] at htag
    obtain ⟨item, hitem⟩ := h.u8 _ _ _ htag
    dsimp only at hmessage
    split at hmessage
    · rename_i hzero
      rw [hzero] at htag
      obtain ⟨⟨payload', rest'⟩, hpayload, heq⟩ := bind_eq_ok.mp hmessage
      cases heq
      obtain ⟨extra, hspells⟩ := (decodePayload_eq_ok h).mp hpayload
      exact ⟨extra, item, list, hitem.symm, htag, hspells⟩
    · cases hmessage
  · rintro ⟨extra, _, list, _, htag, hspells⟩
    have hpayload := (decodePayload_eq_ok h).mpr ⟨extra, hspells⟩
    refine bind_eq_ok.mpr ⟨_, rlp_eq_ok.mpr htag, ?_⟩
    dsimp only
    rw [if_pos rfl]
    exact bind_eq_ok.mpr ⟨_, hpayload, rfl⟩

/-! A buffer is read in one way, so one that is overlong is not in the grammar. -/

theorem ReadsBase.unique {item item' extra extra' : Bytes}
    {base base' : Option ExecutionPayloadBaseV1} (h : ReadsBase C item extra base)
    (h' : ReadsBase C item' extra' base') (hbody : item ++ extra = item' ++ extra') :
    extra = extra' := by
  cases base with
  | none =>
      rw [show item = [0x80] from h] at hbody
      cases base' with
      | none =>
          rw [show item' = [0x80] from h'] at hbody
          exact List.append_cancel_left hbody
      | some base' =>
          rw [ReadsBase, ← hbody] at h'
          exact (h'.1 rfl).elim
  | some base =>
      cases base' with
      | none =>
          rw [show item' = [0x80] from h'] at hbody
          rw [ReadsBase, hbody] at h
          exact (h.1 rfl).elim
      | some base' =>
          rw [ReadsBase, hbody] at h
          have hsame := h.2.symm.trans h'.2
          exact (Prod.mk.inj (Except.ok.inj hsame)).2

theorem Items.Read.unique {items items' : Items} {payload payload' : FlashblocksPayloadV1 M}
    {extra extra' : Bytes} (h : items.Read C payload extra) (h' : items'.Read C payload' extra')
    (hbody : items.body extra = items'.body extra') : extra = extra' := by
  obtain ⟨metaBytes, hbytes, _⟩ := h.metadata
  obtain ⟨metaBytes', hbytes', _⟩ := h'.metadata
  have hid := h.payloadId
  rw [hbody, h'.payloadId] at hid
  have hindex := h.index
  rw [← (Prod.mk.inj (Except.ok.inj hid)).2, h'.index] at hindex
  have hdiff := h.diff
  rw [← (Prod.mk.inj (Except.ok.inj hindex)).2, h'.diff] at hdiff
  rw [← (Prod.mk.inj (Except.ok.inj hdiff)).2, hbytes'] at hbytes
  exact h.base.unique h'.base (Prod.mk.inj (Except.ok.inj hbytes)).2.symm

theorem Spells.unique {payload payload' : FlashblocksPayloadV1 M}
    {extra extra' buf rest rest' : Bytes} (h : Spells C buf payload extra rest)
    (h' : Spells C buf payload' extra' rest') : extra = extra' := by
  obtain ⟨_, items, _, hheader, hread⟩ := h
  obtain ⟨_, items', _, hheader', hread'⟩ := h'
  have hsame := Prod.mk.inj (Except.ok.inj (hheader.symm.trans hheader'))
  have hlength := congrArg RlpHeader.payloadLength hsame.1
  exact hread.unique hread' (List.append_inj_left hsame.2 hlength)

theorem SpellsMsg.unique {D : Codecs FlashblockMetadata} {message message' : FlashblocksP2PMsg}
    {extra extra' buf rest rest' : Bytes} (h : SpellsMsg D buf message extra rest)
    (h' : SpellsMsg D buf message' extra' rest') : extra = extra' := by
  obtain ⟨payload⟩ := message
  obtain ⟨payload'⟩ := message'
  obtain ⟨_, list, _, htag, hspells⟩ := h
  obtain ⟨_, list', _, htag', hspells'⟩ := h'
  rw [(Prod.mk.inj (Except.ok.inj (htag.symm.trans htag'))).2] at hspells
  exact hspells.unique hspells'

theorem acceptsOnly_iff_of {A : Type} (spells : A → (extra rest : Bytes) → Prop)
    {result : Except DecodeError (A × Bytes)} (hrange : Avoids Panics result)
    (hok : ∀ a rest, result = .ok (a, rest) ↔ ∃ extra, spells a extra rest)
    (hunique : ∀ a a' extra extra' rest rest', spells a extra rest → spells a' extra' rest' →
      extra = extra') :
    AcceptsOnly (fun a rest => spells a [] rest) result ↔
      ¬∃ a extra rest, extra ≠ [] ∧ spells a extra rest := by
  constructor
  · rintro honly ⟨a, extra, rest, hextra, hspells⟩
    have haccepted := honly.accepted a rest ((hok a rest).mpr ⟨extra, hspells⟩)
    exact hextra (hunique a a extra [] rest rest hspells haccepted)
  · intro hexact
    refine ⟨hrange, ?_⟩
    intro a rest haccepted
    obtain ⟨extra, hspells⟩ := (hok a rest).mp haccepted
    by_cases hextra : extra = []
    · rwa [hextra] at hspells
    · exact (hexact ⟨a, extra, rest, hextra, hspells⟩).elim

/-- Exactly when a decoder accepts no more than its grammar. -/
theorem acceptsOnly_iff {D : Codecs FlashblockMetadata} (hC : Advances C) (hD : Advances D) :
    (∀ buf, AcceptsOnly (fun payload rest => Spells C buf payload [] rest) (decodePayload C buf) ↔
      ¬Overlong C buf) ∧
    ∀ buf, AcceptsOnly (fun message rest => SpellsMsg D buf message [] rest) (decodeMsg D buf) ↔
      ¬OverlongMsg D buf := by
  constructor
  · intro buf
    apply acceptsOnly_iff_of (Spells C buf) (decodePayload_avoids hC buf)
    · intro payload rest
      exact decodePayload_eq_ok hC
    · intro _ _ _ _ _ _ h h'
      exact h.unique h'
  · intro buf
    apply acceptsOnly_iff_of (SpellsMsg D buf) (decodeMsg_avoids hD buf)
    · intro message rest
      exact decodeMsg_eq_ok hD
    · intro _ _ _ _ _ _ h h'
      exact h.unique h'

/-! Every payload can be written with more bytes behind it in the list. -/

def padded (C : Codecs M) (payload : FlashblocksPayloadV1 M) (extra : Bytes) : Bytes :=
  C.header.encode ⟨true, (encodeBody C payload ++ extra).length⟩ ++ (encodeBody C payload ++ extra)

theorem readsBase_encodeBase (h : C.Lawful) (base : Option ExecutionPayloadBaseV1) (extra : Bytes)
    (hlimit : (encodeBase C base ++ extra).length ≤ limit) :
    ReadsBase C (encodeBase C base) extra base := by
  cases base with
  | none => rfl
  | some base =>
      refine ⟨?_, h.base.decode base extra hlimit⟩
      obtain ⟨b, hb, hlist⟩ := h.baseHead base
      intro hmarker
      rw [encodeBase, List.head?_append, Option.mem_def.mp hb] at hmarker
      cases hmarker
      exact absurd hlist (by decide)

theorem spells_padded (h : C.Lawful) (payload : FlashblocksPayloadV1 M) (extra rest : Bytes)
    (hlimit : (padded C payload extra ++ rest).length ≤ limit) :
    Spells C (padded C payload extra ++ rest) payload extra rest := by
  let items : Items := {
    payloadId := C.b64.encode payload.payloadId
    index := C.u64.encode payload.index
    diff := C.diff.encode payload.diff
    metadata := C.bytes.encode (C.toJson payload.metadata)
    base := encodeBase C payload.base }
  have hbody : encodeBody C payload ++ extra = items.body extra := by
    simp only [encodeBody, Items.body, items, List.append_assoc]
  unfold padded at hlimit ⊢
  rw [hbody, List.append_assoc] at hlimit ⊢
  have hwindow : (items.body extra).length ≤ (items.body extra ++ rest).length := by simp
  have hfits : (items.body extra ++ rest).length ≤ limit := by
    rw [List.length_append] at hlimit
    omega
  have hitems := Nat.le_trans hwindow hfits
  simp only [Items.body, List.length_append] at hitems
  refine ⟨_, items, rfl, h.header _ _ hwindow hfits, ?_⟩
  constructor
  · exact h.b64.decode _ _ (by simp only [items, List.length_append] at hitems ⊢; omega)
  · exact h.u64.decode _ _ (by simp only [items, List.length_append] at hitems ⊢; omega)
  · exact h.diff.decode _ _ (by simp only [items, List.length_append] at hitems ⊢; omega)
  · refine ⟨_, h.bytes.decode _ _ ?_, h.json payload.metadata⟩
    simp only [items, List.length_append] at hitems ⊢
    omega
  · apply readsBase_encodeBase h
    simp only [items, List.length_append] at hitems ⊢
    omega

theorem spellsMsg_padded {D : Codecs FlashblockMetadata} (h : D.Lawful)
    (payload : FlashblocksPayload) (extra rest : Bytes)
    (hlimit : (D.u8.encode 0 ++ (padded D payload extra ++ rest)).length ≤ limit) :
    SpellsMsg D (D.u8.encode 0 ++ (padded D payload extra ++ rest))
      (.flashblocksPayloadV1 payload) extra rest := by
  refine ⟨_, _, rfl, h.u8.decode 0 _ hlimit, spells_padded h payload extra rest ?_⟩
  rw [List.length_append] at hlimit
  omega

theorem sample_advances : Advances sampleCodecs where
  header _ _ _ := decodeHeader_fits
  u8 := number_advances 1 _ _
  u64 := number_advances 8 _ _
  b64 := word_advances 8 64
  bytes := string_advances
  diff := list_advances _
  base := list_advances _

theorem acceptsOnly_iff_published :
    AcceptsOnly
      (fun message rest => SpellsMsg sampleCodecs
        (encodeMsg sampleCodecs (.flashblocksPayloadV1 samplePayload)) message [] rest)
      (decodeMsg sampleCodecs (encodeMsg sampleCodecs (.flashblocksPayloadV1 samplePayload))) := by
  have hspells := spellsMsg_padded sample_lawful samplePayload [] [] (by decide +kernel)
  rw [padded, List.append_nil, List.append_nil, ← encodePayload_eq sample_lawful] at hspells
  refine ((acceptsOnly_iff sample_advances sample_advances).2 _).mpr ?_
  rintro ⟨message, extra, rest, hextra, hoverlong⟩
  exact hextra (hoverlong.unique hspells)

/-- One byte behind the base is accepted. -/
theorem padding_accepted :
    (¬∀ buf, AcceptsOnly (fun payload rest => Spells sampleCodecs buf payload [] rest)
      (decodePayload sampleCodecs buf)) ∧
    ¬∀ buf, AcceptsOnly (fun message rest => SpellsMsg sampleCodecs buf message [] rest)
      (decodeMsg sampleCodecs buf) := by
  constructor
  · intro hall
    have hspells := spells_padded sample_lawful samplePayload [0] [] (by decide +kernel)
    have hok := (decodePayload_eq_ok sample_advances).mpr ⟨[0], hspells⟩
    cases hspells.unique ((hall _).accepted _ _ hok)
  · intro hall
    have hspells := spellsMsg_padded sample_lawful samplePayload [0] [] (by decide +kernel)
    have hok := (decodeMsg_eq_ok sample_advances).mpr ⟨[0], hspells⟩
    cases hspells.unique ((hall _).accepted _ _ hok)

end WorldChain.Wire.Grammar

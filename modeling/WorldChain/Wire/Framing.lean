import WorldChain.Library.Framing
import WorldChain.Wire.Grammar

/-! What the two decoders read of a buffer: a frame of its own, which nothing shorter
stands for. -/
namespace WorldChain.Wire.Framing
open Library.Fallible Library.Rlp Library.Framing Primitives Message Alloy Grammar

/-- The parts that the decoders read before they know the window of the list. -/
structure Delimits {M : Type} (C : Codecs M) : Prop where
  header : HeaderDelimited C.header.decode
  u8 : Delimited C.u8.decode

variable {M : Type} {C : Codecs M} {D : Codecs FlashblockMetadata}

/-- The items are read in the window alone, so what follows it does not matter. -/
theorem decodePayload_delimited (h : HeaderDelimited C.header.decode) :
    Delimited (decodePayload C) := by
  intro buf payload rest hdecoded
  obtain ⟨⟨header, window⟩, hheader, hpayload⟩ := bind_eq_ok.mp hdecoded
  obtain ⟨hfits, head, rfl, hother⟩ := h _ _ _ (rlp_eq_ok.mp hheader)
  dsimp only at hpayload
  split at hpayload
  · rename_i hlist
    rw [splitAt, if_pos hfits] at hpayload
    obtain ⟨_, hsplit, hbody⟩ := bind_eq_ok.mp hpayload
    cases hsplit
    obtain ⟨payload', hread, heq⟩ := bind_eq_ok.mp hbody
    cases heq
    refine ⟨head ++ window.take header.payloadLength, ?_, ?_⟩
    · rw [List.append_assoc, List.take_append_drop]
    · intro other
      have hlength : (window.take header.payloadLength).length = header.payloadLength :=
        List.length_take_of_le hfits
      have hsplit := splitAt_append (window.take header.payloadLength) other
      rw [hlength] at hsplit
      rw [List.append_assoc]
      refine bind_eq_ok.mpr ⟨_, rlp_eq_ok.mpr (hother other), ?_⟩
      dsimp only
      rw [if_pos hlist]
      refine bind_eq_ok.mpr ⟨_, hsplit, ?_⟩
      exact bind_eq_ok.mpr ⟨_, hread, rfl⟩
  · cases hpayload

theorem decodeMsg_delimited (h : Delimits D) : Delimited (decodeMsg D) := by
  intro buf message rest hdecoded
  obtain ⟨⟨tag, list⟩, htag, hmessage⟩ := bind_eq_ok.mp hdecoded
  obtain ⟨tagItem, rfl, htags⟩ := h.u8 _ _ _ (rlp_eq_ok.mp htag)
  dsimp only at hmessage
  split at hmessage
  · rename_i hzero
    obtain ⟨⟨payload, rest'⟩, hpayload, heq⟩ := bind_eq_ok.mp hmessage
    cases heq
    obtain ⟨item, rfl, hitems⟩ := decodePayload_delimited h.header _ _ _ hpayload
    refine ⟨tagItem ++ item, by rw [List.append_assoc], ?_⟩
    intro other
    rw [List.append_assoc]
    refine bind_eq_ok.mpr ⟨_, rlp_eq_ok.mpr (htags (item ++ other)), ?_⟩
    dsimp only
    rw [if_pos hzero]
    exact bind_eq_ok.mpr ⟨_, hitems other, rfl⟩
  · cases hmessage

/-- A message that is accepted is a frame at the front of the buffer: the bytes behind it do
not change what is read, and no buffer that ends inside of it is accepted. -/
theorem message_framed (h : Delimits D) {buf rest : Bytes} {message : FlashblocksP2PMsg}
    (hdecoded : decodeMsg D buf = .ok (message, rest)) :
    ∃ frame, buf = frame ++ rest ∧
      (∀ other, decodeMsg D (frame ++ other) = .ok (message, other)) ∧
      ∀ start, start <+: frame → start ≠ frame → ∃ e, decodeMsg D start = .error e := by
  obtain ⟨frame, hframe, hother⟩ := decodeMsg_delimited h _ _ _ hdecoded
  refine ⟨frame, hframe, hother, ?_⟩
  intro start hstarts hne
  have hwhole := hother []
  rw [List.append_nil] at hwhole
  cases hstart : decodeMsg D start with
  | error e => exact ⟨e, rfl⟩
  | ok decoded => exact (hne ((decodeMsg_delimited h).start_eq hwhole hstarts hstart)).elim

theorem sample_delimits : Delimits sampleCodecs where
  header := decodeHeader_delimited
  u8 := number_delimited 1 _ _

theorem message_framed_published :
    ∃ frame, encodeMsg sampleCodecs (.flashblocksPayloadV1 samplePayload) = frame ++ [] ∧
      (∀ other, decodeMsg sampleCodecs (frame ++ other) =
        .ok (.flashblocksPayloadV1 samplePayload, other)) ∧
      ∀ start, start <+: frame → start ≠ frame → ∃ e, decodeMsg sampleCodecs start = .error e := by
  apply message_framed sample_delimits
  have hround := (wire_round_trip sample_lawful samplePayload [] (by decide +kernel)).2.2.2
  rwa [List.append_nil] at hround

end WorldChain.Wire.Framing

import Mathlib.Data.List.Perm.Basic
import WorldChain.Builder.Build
import WorldChain.Deps.Concrete

/-! What a block access list says, entry by entry, in the form on the wire and
in the form the builder works with, and what the conversions between them keep. -/
namespace WorldChain.Builder.AccessEntries
open Library.Upsert
open Wire.Primitives Deps.Revm Deps.Reth Deps.Calls Deps.Concrete
open Build

/-- One value written, under the index it is encoded with. -/
inductive Write
  | nonce (address : Address) (index : UInt64) (value : UInt64)
  | balance (address : Address) (index : UInt64) (value : U256)
  | code (address : Address) (index : UInt64) (value : Bytes)
  | storage (address : Address) (slot : U256) (index : UInt64) (value : U256)
  deriving DecidableEq

inductive Mention
  | account (address : Address)
  | slot (address : Address) (slot : U256)
  deriving DecidableEq

structure Entries where
  writes : List Write
  mentions : List Mention

def storageWrites (address : Address) (slot : U256) (writes : BalWrites U256) : List Write :=
  writes.map fun write => .storage address slot (.ofNat write.1) write.2

def infoWrites (address : Address) (info : AccountInfoBal) : List Write :=
  info.nonce.map (fun write => .nonce address (.ofNat write.1) write.2) ++
    info.balance.map (fun write => .balance address (.ofNat write.1) write.2) ++
    info.code.map (fun write => .code address (.ofNat write.1) write.2)

def accountWrites (address : Address) (entry : AccountBal) : List Write :=
  infoWrites address entry.accountInfo ++ holds (storageWrites address) entry.storage.storage

def accountMentions (address : Address) (entry : AccountBal) : List Mention :=
  .account address :: holds (fun slot _ => [.slot address slot]) entry.storage.storage

def balEntries (bal : Bal) : Entries where
  writes := holds accountWrites bal.accounts
  mentions := holds accountMentions bal.accounts

def alloyWrites (acc : AccountChanges) : List Write :=
  acc.nonceChanges.map (fun change => .nonce acc.address change.blockAccessIndex change.newNonce) ++
    acc.balanceChanges.map
      (fun change => .balance acc.address change.blockAccessIndex change.postBalance) ++
    acc.codeChanges.map (fun change => .code acc.address change.blockAccessIndex change.newCode) ++
    acc.storageChanges.flatMap fun changes => changes.changes.map fun change =>
      .storage acc.address changes.slot change.blockAccessIndex change.newValue

def alloySlots (acc : AccountChanges) : List U256 :=
  acc.storageChanges.map (·.slot) ++ acc.storageReads

def alloyMentions (acc : AccountChanges) : List Mention :=
  .account acc.address :: (alloySlots acc).map (.slot acc.address)

def listEntries (list : BlockAccessList) : Entries where
  writes := list.flatMap alloyWrites
  mentions := list.flatMap alloyMentions

/-- A list as EIP-7928 has it: an account once, and in it a slot once. -/
structure WellFormed (list : BlockAccessList) : Prop where
  addresses : (list.map (·.address)).Nodup
  slots : ∀ acc ∈ list, (alloySlots acc).Nodup

def accessWrite (index : BalIndex) : Access → Option Write
  | .account _ | .slot _ _ => none
  | .nonce address value => some (.nonce address (.ofNat index) value)
  | .balance address value => some (.balance address (.ofNat index) value)
  | .code address value => some (.code address (.ofNat index) value)
  | .storage address slot value => some (.storage address slot (.ofNat index) value)

def accessMentions : Access → List Mention
  | .account address | .nonce address _ | .balance address _ | .code address _ => [.account address]
  | .slot address slot | .storage address slot _ => [.account address, .slot address slot]

def ownEntries (index : BalIndex) (changes : EvmState) : Entries where
  writes := changes.accesses.filterMap (accessWrite index)
  mentions := changes.accesses.flatMap accessMentions

/-- Every entry of every part once, and nothing else. Parts that name the same
account or slot share its one entry. -/
structure HoldsExactlyOnce (list : BlockAccessList) (parts : List Entries) : Prop where
  writes : (listEntries list).writes.Perm (parts.flatMap Entries.writes)
  nodup : (listEntries list).mentions.Nodup
  mentions : ∀ m, m ∈ (listEntries list).mentions ↔ ∃ part ∈ parts, m ∈ part.mentions

variable {Tx Db Core : Type}

/-- Conversions keep the entries, recording adds the own ones, and extending
appends the write lists. -/
structure AccessListLaws (X : Crates Tx Db Core) : Prop where
  tryFromAlloy : ∀ acc address entry, (alloySlots acc).Nodup →
    X.tryFromAlloy acc = some (address, entry) →
      address = acc.address ∧ (accountWrites address entry).Perm (alloyWrites acc) ∧
        (accountMentions address entry).Perm (alloyMentions acc)
  intoAlloyBal : ∀ bal, (listEntries (X.intoAlloyBal bal)).writes.Perm (balEntries bal).writes ∧
    (listEntries (X.intoAlloyBal bal)).mentions.Perm (balEntries bal).mentions
  recordAccesses : ∀ bal index changes,
    (balEntries (X.recordAccesses bal index changes)).writes.Perm
        ((balEntries bal).writes ++ (ownEntries index changes).writes) ∧
      ∀ m, m ∈ (balEntries (X.recordAccesses bal index changes)).mentions ↔
        m ∈ (balEntries bal).mentions ∨ m ∈ (ownEntries index changes).mentions
  extendAccountInfo : ∀ kept new, X.extendAccountInfo kept new =
    ⟨kept.nonce ++ new.nonce, kept.balance ++ new.balance, kept.code ++ new.code⟩
  extendStorage : ∀ kept new,
    (X.extendStorage kept new).storage = mergeInto (· ++ ·) kept.storage new.storage

theorem mentions_nodup (bal : Bal) : (balEntries bal).mentions.Nodup := by
  have hslots (address : Address) (entry : AccountBal) :
      (holds (fun slot _ => [Mention.slot address slot]) entry.storage.storage).Nodup := by
    apply holds_nodup
    · intro slot _
      exact List.nodup_singleton _
    · intro slot slot' _ _ x hx hx'
      rw [List.mem_singleton] at hx hx'
      exact (Mention.slot.inj (hx.symm.trans hx')).2
  have hmem (address : Address) (entry : AccountBal) (x : Mention)
      (hx : x ∈ accountMentions address entry) :
      x = .account address ∨ ∃ slot, x = .slot address slot := by
    rcases List.mem_cons.mp hx with rfl | hx
    · exact .inl rfl
    · obtain ⟨slot, _, _, hslot⟩ := mem_holds.mp hx
      exact .inr ⟨slot, List.mem_singleton.mp hslot⟩
  apply holds_nodup
  · intro address entry
    rw [accountMentions, List.nodup_cons]
    refine ⟨?_, hslots address entry⟩
    intro hx
    obtain ⟨slot, _, _, hslot⟩ := mem_holds.mp hx
    cases List.mem_singleton.mp hslot
  · intro address address' entry entry' x hx hx'
    rcases hmem _ _ _ hx with rfl | ⟨slot, rfl⟩
    · rcases hmem _ _ _ hx' with heq | ⟨_, heq⟩
      · exact Mention.account.inj heq
      · cases heq
    · rcases hmem _ _ _ hx' with heq | ⟨_, heq⟩
      · cases heq
      · exact (Mention.slot.inj heq).1

variable {X : Crates Tx Db Core}

theorem extend_writes (hlaws : AccessListLaws X) (address : Address) (kept new : AccountBal) :
    (accountWrites address (extendAccountBal X kept new)).Perm
      (accountWrites address kept ++ accountWrites address new) := by
  have hstorage : (holds (storageWrites address) (extendAccountBal X kept new).storage.storage).Perm
      (holds (storageWrites address) kept.storage.storage ++
        holds (storageWrites address) new.storage.storage) := by
    unfold extendAccountBal
    rw [hlaws.extendStorage]
    apply holds_mergeInto_perm
    intro slot old value
    rw [storageWrites, List.map_append]
    exact List.Perm.refl _
  rw [List.perm_iff_count] at hstorage ⊢
  intro write
  have hcount := hstorage write
  simp only [List.count_append] at hcount
  simp only [accountWrites, infoWrites, List.count_append, hcount]
  simp only [extendAccountBal, hlaws.extendAccountInfo, List.map_append, List.count_append]
  omega

theorem mem_extend_mentions (hlaws : AccessListLaws X) (address : Address) (kept new : AccountBal)
    (m : Mention) :
    m ∈ accountMentions address (extendAccountBal X kept new) ↔
      m ∈ accountMentions address kept ∨ m ∈ accountMentions address new := by
  unfold accountMentions extendAccountBal
  rw [List.mem_cons, List.mem_cons, List.mem_cons, hlaws.extendStorage,
    mem_holds_mergeInto fun slot _ _ => by simp]
  exact or_or_distrib_left

theorem wellFormed_of_mentions_nodup {list : BlockAccessList}
    (h : (listEntries list).mentions.Nodup) : WellFormed list := by
  obtain ⟨hentries, hdisjoint⟩ := List.nodup_flatMap.mp h
  constructor
  · rw [List.Nodup, List.pairwise_map]
    apply hdisjoint.imp
    intro acc acc' hdisj heq
    apply hdisj (a := .account acc.address) List.mem_cons_self
    rw [heq]
    exact List.mem_cons_self
  · intro acc hacc
    exact (List.nodup_cons.mp (hentries acc hacc)).2.of_map _

/-! The sample conversions keep the entries too. -/

theorem sample_tryFromAlloy (acc : AccountChanges) (hslots : (alloySlots acc).Nodup) :
    (accountWrites acc.address (fromAlloySample acc).2).Perm (alloyWrites acc) ∧
      (accountMentions acc.address (fromAlloySample acc).2).Perm (alloyMentions acc) := by
  have hpairs {E : Type} (held : U256 → BalWrites U256 → List E) :
      (holds held (fromAlloySample acc).2.storage.storage).Perm
        (acc.storageChanges.flatMap (fun changes => held changes.slot
            (changes.changes.map fun change => (change.blockAccessIndex.toNat, change.newValue))) ++
          acc.storageReads.flatMap fun slot => held slot []) := by
    refine (holds_ofPairs ?_).trans ?_
    · simpa [alloySlots, Function.comp_def] using hslots
    · rw [List.flatMap_append, List.flatMap_map, List.flatMap_map]
  constructor
  · have hwrites := hpairs (storageWrites acc.address)
    have hreads : (acc.storageReads.flatMap fun slot => storageWrites acc.address slot []) = [] :=
      List.flatMap_eq_nil_iff.mpr fun slot _ => rfl
    rw [hreads, List.append_nil] at hwrites
    refine (hwrites.append_left (infoWrites acc.address (fromAlloySample acc).2.accountInfo)).trans ?_
    simp [infoWrites, fromAlloySample, storageWrites, alloyWrites, Function.comp_def]
  · apply List.Perm.cons
    refine (hpairs fun slot _ => [Mention.slot acc.address slot]).trans ?_
    simp [alloySlots, ← List.map_eq_flatMap, Function.comp_def]

theorem flatMap_filter_perm {α β : Type} (l : List α) (p : α → Bool) (f : α → List β) :
    ((l.filter fun a => ¬p a).flatMap f ++ (l.filter p).flatMap f).Perm (l.flatMap f) := by
  have hsplit := (List.filter_append_perm p l).flatMap_right f
  rw [List.flatMap_append] at hsplit
  simpa using List.perm_append_comm.trans hsplit

theorem sample_intoAlloyBal (bal : Bal) :
    (listEntries (intoAlloySample bal)).writes.Perm (balEntries bal).writes ∧
      (listEntries (intoAlloySample bal)).mentions.Perm (balEntries bal).mentions := by
  unfold listEntries balEntries intoAlloySample holds
  simp only [List.flatMap_map]
  constructor
  · apply List.Perm.flatMap_left
    intro account _
    have hslots := flatMap_filter_perm account.2.storage.storage.entries
      (fun slot => slot.2.isEmpty) fun slot => storageWrites account.1 slot.1 slot.2
    have hread : ((account.2.storage.storage.entries.filter fun slot => slot.2.isEmpty).flatMap
        fun slot => storageWrites account.1 slot.1 slot.2) = [] := by
      apply List.flatMap_eq_nil_iff.mpr
      intro slot hslot
      have hempty := List.isEmpty_iff.mp (List.mem_filter.mp hslot).2
      rw [hempty]
      rfl
    rw [hread, List.append_nil] at hslots
    simp only [alloyWrites, accountWrites, infoWrites, List.map_map, Function.comp_def]
    apply List.Perm.append_left
    rw [List.flatMap_map]
    simpa only [holds, storageWrites, List.map_map, Function.comp_def] using hslots
  · apply List.Perm.flatMap_left
    intro account _
    apply List.Perm.cons
    have hslots := flatMap_filter_perm account.2.storage.storage.entries
      (fun slot => slot.2.isEmpty) fun slot => [Mention.slot account.1 slot.1]
    simpa [alloySlots, holds, ← List.map_eq_flatMap, Function.comp_def] using hslots

theorem addAccess_writes (index : BalIndex) (access : Access) (entry : AccountBal) :
    (accountWrites (Access.address access) (addAccess index access entry)).Perm
      (accountWrites (Access.address access) entry ++ (accessWrite index access).toList) := by
  have hadded (address : Address) (slot : U256) (writes : BalWrites U256) :
      (holds (storageWrites address)
        (upsert entry.storage.storage slot (· ++ writes) writes)).Perm
        (holds (storageWrites address) entry.storage.storage ++ storageWrites address slot writes) :=
    holds_upsert_perm fun old => by simp [storageWrites]
  rw [List.perm_iff_count]
  intro write
  cases access with
  | account address => simp [addAccess, accessWrite]
  | slot address slot =>
      have hcount := (hadded address slot []).count_eq write
      simp only [List.append_nil, storageWrites, List.map_nil] at hcount
      simpa [addAccess, accessWrite, accountWrites, Access.address, Function.id_def] using hcount
  | storage address slot value =>
      have hcount := (hadded address slot [(index, value)]).count_eq write
      simp [addAccess, accessWrite, accountWrites, Access.address, hcount, storageWrites]
  | nonce | balance | code =>
      simp only [addAccess, accessWrite, accountWrites, infoWrites, Access.address, List.map_append,
        List.map_cons, List.map_nil, List.count_append, Option.toList_some]
      omega

theorem mem_addAccess_mentions (index : BalIndex) (access : Access) (entry : AccountBal)
    (m : Mention) :
    m ∈ accountMentions (Access.address access) (addAccess index access entry) ↔
      m ∈ accountMentions (Access.address access) entry ∨ m ∈ accessMentions access := by
  have hadded (address : Address) (slot : U256) (modify : BalWrites U256 → BalWrites U256)
      (writes : BalWrites U256) :
      m ∈ holds (fun slot _ => [Mention.slot address slot])
          (upsert entry.storage.storage slot modify writes) ↔
        m ∈ holds (fun slot _ => [Mention.slot address slot]) entry.storage.storage ∨
          m ∈ [Mention.slot address slot] :=
    mem_holds_upsert fun _ => or_self_iff.symm
  cases access with
  | account | nonce | balance | code =>
      simp only [addAccess, accountMentions, accessMentions, Access.address, List.mem_cons]
      tauto
  | slot | storage =>
      simp only [addAccess, accountMentions, accessMentions, Access.address, List.mem_cons, hadded]
      tauto

theorem sample_recordAccesses (bal : Bal) (index : BalIndex) (changes : EvmState) :
    (balEntries (recordSample bal index changes)).writes.Perm
        ((balEntries bal).writes ++ (ownEntries index changes).writes) ∧
      ∀ m, m ∈ (balEntries (recordSample bal index changes)).mentions ↔
        m ∈ (balEntries bal).mentions ∨ m ∈ (ownEntries index changes).mentions := by
  unfold balEntries recordSample ownEntries
  generalize bal.accounts = accounts
  induction changes.accesses generalizing accounts with
  | nil => simp
  | cons access rest ih =>
      obtain ⟨hwrites, hmentions⟩ := ih (upsert accounts (Access.address access)
        (addAccess index access) (addAccess index access {}))
      have hnew := addAccess_writes index access {}
      have hupsert : (holds accountWrites (upsert accounts (Access.address access)
          (addAccess index access) (addAccess index access {}))).Perm
            (holds accountWrites accounts ++
              accountWrites (Access.address access) (addAccess index access {})) :=
        holds_upsert_perm fun old =>
          (addAccess_writes index access old).trans (hnew.symm.append_left _)
      have hmem (m : Mention) : m ∈ holds accountMentions (upsert accounts (Access.address access)
          (addAccess index access) (addAccess index access {})) ↔
            m ∈ holds accountMentions accounts ∨ m ∈ accessMentions access := by
        have haccount : m ∈ accountMentions (Access.address access) {} → m ∈ accessMentions access := by
          intro hm
          rw [List.mem_singleton.mp hm]
          cases access <;> exact List.mem_cons_self
        rw [mem_holds_upsert, mem_addAccess_mentions, or_iff_right_of_imp haccount]
        intro old
        rw [mem_addAccess_mentions, mem_addAccess_mentions, or_iff_right_of_imp haccount]
      rw [List.foldl_cons]
      constructor
      · refine hwrites.trans ?_
        rw [List.filterMap_eq_flatMap_toList, List.filterMap_eq_flatMap_toList, List.flatMap_cons,
          ← List.append_assoc]
        exact (hupsert.trans (hnew.append_left _)).append_right _
      · intro m
        rw [hmentions, hmem, or_assoc]
        simp

theorem sample_accessListLaws : AccessListLaws sample where
  tryFromAlloy := by
    intro acc address entry hslots h
    cases h
    exact ⟨rfl, sample_tryFromAlloy acc hslots⟩
  intoAlloyBal := sample_intoAlloyBal
  recordAccesses := sample_recordAccesses
  extendAccountInfo _ _ := rfl
  extendStorage _ _ := rfl

end WorldChain.Builder.AccessEntries

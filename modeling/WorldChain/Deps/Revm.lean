import WorldChain.Library.Overlay
import WorldChain.Library.Upsert
import WorldChain.Wire.Primitives

/-! The data of revm that the builder hands around. Accounts and slots are the
keys of one store, so a bundle is a partial assignment of values to them. -/
namespace WorldChain.Deps.Revm
open Library.Overlay Library.Upsert Wire.Primitives

structure AccountInfo where
  balance : U256 := 0
  nonce : UInt64 := 0
  codeHash : B256 := 0
  deriving DecidableEq

inductive StateKey
  | account (address : Address)
  | storage (address : Address) (slot : U256)
  deriving DecidableEq

/-- An account may be absent; a slot always has a word. -/
abbrev StateKey.Value : StateKey → Type
  | .account _ => Option AccountInfo
  | .storage _ _ => U256

instance : (k : StateKey) → DecidableEq k.Value
  | .account _ => inferInstanceAs (DecidableEq (Option AccountInfo))
  | .storage _ _ => inferInstanceAs (DecidableEq U256)

/-- How a database answers; the error is a `ProviderError`. -/
abbrev Reader := ∀ k : StateKey, Except String k.Value

inductive AccountInfoRevert
  | doNothing
  | deleteIt
  | revertTo (info : AccountInfo)
  deriving DecidableEq

inductive RevertToSlot
  | some (value : U256)
  | destroyed
  deriving DecidableEq

inductive AccountStatus
  | loadedNotExisting
  | loaded
  | loadedEmptyEIP161
  | inMemoryChange
  | changed
  | destroyed
  | destroyedChanged
  | destroyedAgain
  deriving DecidableEq

structure AccountRevert where
  account : AccountInfoRevert
  storage : Map U256 RevertToSlot
  previousStatus : AccountStatus
  wipeStorage : Bool
  deriving DecidableEq

/-- One list of account reverts for each transition. -/
abbrev Reverts := List (List (Address × AccountRevert))

structure BundleState where
  state : Changes StateKey.Value := blank
  reverts : Reverts := []

abbrev BalIndex := Nat

/-- The values written to one place, each under the index that wrote it. -/
abbrev BalWrites (T : Type) := List (BalIndex × T)

structure AccountInfoBal where
  nonce : BalWrites UInt64 := []
  balance : BalWrites U256 := []
  code : BalWrites Bytes := []
  deriving DecidableEq

/-- A slot without writes has only been read. -/
structure StorageBal where
  storage : Map U256 (BalWrites U256) := ∅
  deriving DecidableEq

structure AccountBal where
  accountInfo : AccountInfoBal := {}
  storage : StorageBal := {}
  deriving DecidableEq

structure Bal where
  accounts : Map Address AccountBal := ∅
  deriving DecidableEq

/-- `bal` answers reads, `balBuilder` records accesses; both are optional. -/
structure BalState where
  bal : Option Bal := none
  balBuilder : Option Bal := none
  balIndex : BalIndex := 0

/-- A `State`: its cache, transitions and bundle are left to revm. -/
structure State (Core : Type) where
  core : Core
  balState : BalState := {}

def State.setBalIndex {Core : Type} (self : State Core) (index : BalIndex) : State Core :=
  { self with balState := { self.balState with balIndex := index } }

/-- What one execution touched, in the words of an access list. -/
inductive Access
  | account (address : Address)
  | slot (address : Address) (slot : U256)
  | nonce (address : Address) (value : UInt64)
  | balance (address : Address) (value : U256)
  | code (address : Address) (value : Bytes)
  | storage (address : Address) (slot value : U256)
  deriving DecidableEq

/-- The state changes of one execution and what it touched on the way. -/
structure EvmState where
  writes : Changes StateKey.Value := blank
  accesses : List Access := []

structure Log where
  address : Address
  topics : List B256
  data : Bytes
  deriving DecidableEq

structure ExecutionResult where
  isSuccess : Bool
  gasUsed : UInt64
  logs : List Log
  deriving DecidableEq

structure BlockEnv where
  number : U256 := 0
  beneficiary : Address := 0
  timestamp : U256 := 0
  gasLimit : UInt64 := 0
  basefee : UInt64 := 0
  difficulty : U256 := 0
  prevrandao : Option B256 := none
  deriving DecidableEq

structure CfgEnv where
  chainId : UInt64 := 0
  spec : UInt8 := 0
  deriving DecidableEq

structure EvmEnv where
  cfgEnv : CfgEnv := {}
  blockEnv : BlockEnv := {}
  deriving DecidableEq

structure Recovered (T : Type) where
  inner : T
  signer : Address
  deriving DecidableEq

end WorldChain.Deps.Revm

import TokenBridge.Error.Rejection
import TokenBridge.Quota

/-!
# The store and calls on it

The store is everything that a bridge remembers between calls. Single items are absent until they
are first written; tables are ordered by their keys. Bindings are kept twice, by token and by asset.

A call looks at the store, writes to it and ends with a result or a fault. The writes done before a
fault stay in the store that the call leaves behind; whoever runs the call decides whether they are
kept. `transact` takes them back after every fault, `attempt` only after an abort.
-/

namespace TokenBridge

/-! ## The store -/

/-- A token and the asset that stands for it, where it may be counted with other decimals. -/
structure Binding where
  token : Address
  asset : Word256
  /-- Decimals of the token. -/
  tokenDecimals : UInt8
  /-- Decimals of the asset. -/
  assetDecimals : UInt8
  deriving DecidableEq

/-- A quota is kept for each flow of each token. -/
structure QuotaKey where
  flow : Flow
  token : Address
  deriving DecidableEq

namespace QuotaKey

/-- Ordered by flow, then by token. -/
instance : Ord QuotaKey := ⟨compareLex (compareOn flow) (compareOn token)⟩

instance : Std.TransOrd QuotaKey :=
  inferInstanceAs (Std.TransCmp (compareLex (compareOn flow) (compareOn token)))

instance : Std.LawfulEqOrd QuotaKey where
  eq_of_compare {a b} h := by
    obtain ⟨hflow, htoken⟩ := compareLex_eq_eq.mp h
    cases a
    cases b
    simp_all [compareOn]

end QuotaKey

/-- A message is known by its source chain and its number there. -/
structure MessageId where
  sourceChain : UInt64
  nonce : UInt64
  deriving DecidableEq

namespace MessageId

/-- Ordered by chain, then by number. -/
instance : Ord MessageId := ⟨compareLex (compareOn sourceChain) (compareOn nonce)⟩

instance : Std.TransOrd MessageId :=
  inferInstanceAs (Std.TransCmp (compareLex (compareOn sourceChain) (compareOn nonce)))

instance : Std.LawfulEqOrd MessageId where
  eq_of_compare {a b} h := by
    obtain ⟨hchain, hnonce⟩ := compareLex_eq_eq.mp h
    cases a
    cases b
    simp_all [compareOn]

end MessageId

/-- Which program wrote the store, and in which version. -/
structure VersionStamp where
  program : String
  version : String
  deriving DecidableEq

/-- The memory of a bridge. -/
structure Store where
  settings : Option Settings
  pauses : Option Pauses
  adminCount : Option UInt32
  /-- The height of the latest commitment. -/
  lastHeight : Option UInt64
  /-- The number of the next announced message. -/
  nextNonce : Option UInt64
  version : Option VersionStamp
  roster : Roster
  commitments : Std.ExtTreeMap UInt64 Commitment
  bindings : Std.ExtTreeMap Address Binding
  /-- The token of each bound asset. -/
  assetTokens : Std.ExtTreeMap Word256 Address
  quotas : Std.ExtTreeMap QuotaKey Quota
  /-- The messages that have been redeemed. -/
  redeemed : Std.ExtTreeSet MessageId
  /-- What the bridge holds of each token. -/
  locked : Std.ExtTreeMap Address Amount
  deriving DecidableEq

namespace Store

/-- The store before anything was written. -/
def empty : Store where
  settings := none
  pauses := none
  adminCount := none
  lastHeight := none
  nextNonce := none
  version := none
  roster := .empty
  commitments := ∅
  bindings := ∅
  assetTokens := ∅
  quotas := ∅
  redeemed := ∅
  locked := ∅

/-- What the bridge holds of a token. -/
def lockedOf (s : Store) (token : Address) : Amount := s.locked.getD token .zero

/-- The quota of a flow of a token, as stored. -/
def quota? (s : Store) (flow : Flow) (token : Address) : Option Quota :=
  s.quotas[QuotaKey.mk flow token]?

/-- A stored value, or the fault that it is missing. -/
def present (item : StoredItem) : Option α → Except Fault α
  | some a => .ok a
  | none => .error (.host (.missing item))

/-- The settings, which have to be there. -/
def getSettings (s : Store) : Except Fault Settings := present .settings s.settings

/-- The pauses, which have to be there. -/
def getPauses (s : Store) : Except Fault Pauses := present .pauses s.pauses

/-- The number of admins, which has to be there. -/
def getAdminCount (s : Store) : Except Fault UInt32 := present .adminCount s.adminCount

/-- The number of the next message, which has to be there. -/
def getNextNonce (s : Store) : Except Fault UInt64 := present .nextNonce s.nextNonce

/-- The version stamp, which has to be there. -/
def getVersion (s : Store) : Except Fault VersionStamp := present .version s.version

/-- The commitment at a height, which has to be there. -/
def getCommitment (s : Store) (height : UInt64) : Except Fault Commitment :=
  present (.commitment height) s.commitments[height]?

end Store

/-! ## Calls -/

/-- A computation over the store that may end in a fault. -/
abbrev Call := ExceptT Fault (StateM Store)

/-- A value, or an abort where there is none. -/
def orAbort : Option α → Except Fault α
  | some a => .ok a
  | none => .error .aborted

/-- Refuses unless the condition holds. -/
def demand (condition : Prop) [Decidable condition] (otherwise : Rejection) : Except Fault Unit :=
  if condition then .ok () else .error (.rejected otherwise)

namespace Call

/-- A result that does not depend on the store. -/
def lift (result : Except Fault α) : Call α :=
  ExceptT.mk fun s => (result, s)

/-- What the store holds. -/
def read (look : Store → α) : Call α :=
  ExceptT.mk fun s => (.ok (look s), s)

/-- A test that reads the store and leaves it as it is. -/
def check (test : Store → Except Fault α) : Call α :=
  ExceptT.mk fun s => (test s, s)

/-- A change of the store. -/
def write (change : Store → Store) : Call Unit :=
  ExceptT.mk fun s => (.ok (), change s)

/-- The outcome of a call, and the store that it leaves behind. -/
def outcome (call : Call α) (s : Store) : Except Fault α × Store :=
  call.run.run s

/-- Runs a call; any fault restores the store. -/
def transact (call : Call α) (s : Store) : Except Fault α × Store :=
  match call.outcome s with
  | (.ok a, after) => (.ok a, after)
  | (.error fault, _) => (.error fault, s)

/-- Runs a call; an abort restores the store, a rejection keeps what was written before it. -/
def attempt (call : Call α) (s : Store) : Except Fault α × Store :=
  match call.outcome s with
  | (.error .aborted, _) => (.error .aborted, s)
  | ended => ended

@[simp] theorem outcome_pure (a : α) (s : Store) : (pure a : Call α).outcome s = (.ok a, s) := rfl

@[simp] theorem outcome_lift (result : Except Fault α) (s : Store) :
    (lift result).outcome s = (result, s) := rfl

@[simp] theorem outcome_read (look : Store → α) (s : Store) :
    (read look).outcome s = (.ok (look s), s) := rfl

@[simp] theorem outcome_check (test : Store → Except Fault α) (s : Store) :
    (check test).outcome s = (test s, s) := rfl

@[simp] theorem outcome_write (change : Store → Store) (s : Store) :
    (write change).outcome s = (.ok (), change s) := rfl

/-- A call that follows another one starts from the store that the first one left. -/
theorem outcome_bind (first : Call α) (next : α → Call β) (s : Store) :
    (first >>= next).outcome s =
      match first.outcome s with
      | (.ok a, middle) => (next a).outcome middle
      | (.error fault, middle) => (.error fault, middle) := by
  simp only [outcome, ExceptT.run_bind, StateT.run_bind]
  rcases first.run.run s with ⟨_ | _, middle⟩ <;> rfl

end Call

end TokenBridge

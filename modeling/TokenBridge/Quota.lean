import Std.Data.ExtTreeMap
import TokenBridge.Numbers

/-!
# Quotas

Assets move in two directions, and each has limits of its own. A quota caps what moves in one epoch.
Epochs follow one another without gaps on a grid of whole seconds: when one ends, the next starts
where it ended, however late this is noticed. A change of the terms waits for the end of the open
epoch.

A quota is stored as of some time and rolled forward when it is looked at. Rolling is partial, since
an epoch number may run out of its range and stored terms may have no duration.
-/

namespace TokenBridge

/-! ## Flows -/

/-- A direction of an asset movement. -/
inductive Flow where
  | deposit
  | withdrawal
  deriving DecidableEq

namespace Flow

/-- The name of a flow. -/
def tag : Flow → String
  | deposit => "deposit"
  | withdrawal => "withdrawal"

/-- The number of a flow, which also orders them. -/
def key : Flow → Nat
  | deposit => 0
  | withdrawal => 1

/-- Every flow. -/
def all : List Flow := [deposit, withdrawal]

/-- The flow of a name. -/
def ofTag? (tag : String) : Option Flow := all.find? (·.tag = tag)

/-- Flows are ordered by their numbers. -/
instance : Ord Flow := ⟨compareOn key⟩

instance : Std.TransOrd Flow := inferInstanceAs (Std.TransCmp (compareOn key))

instance : Std.LawfulEqOrd Flow where
  eq_of_compare {a b} h := by cases a <;> cases b <;> first | rfl | exact absurd h (by decide)

end Flow

/-! ## Epochs -/

/-- How much may move in an epoch, and how many seconds an epoch lasts. -/
structure Terms where
  limit : Amount
  duration : UInt64
  deriving DecidableEq

/-- The open epoch and what has moved in it. -/
structure Quota where
  /-- The number of the open epoch. -/
  epoch : UInt64
  /-- The start of the open epoch. -/
  start : Timestamp
  terms : Terms
  /-- What has moved since the start. -/
  used : Amount
  /-- The terms from the next epoch on, if they change. -/
  pending : Option Terms
  deriving DecidableEq

namespace Quota

/-- The first epoch under the given terms, open from now on. -/
def opened (terms : Terms) (now : Timestamp) : Quota :=
  { epoch := 0, start := now, terms, used := .zero, pending := none }

/-- The terms of the epoch after the open one. -/
def nextTerms (q : Quota) : Terms := q.pending.getD q.terms

/-- The second in which the open epoch ends, if it can be counted. -/
def boundary? (q : Quota) : Option UInt64 := add64? q.start.seconds q.terms.duration

/-- The epoch that holds a time not before the end of the open one: the epochs between are skipped
under the next terms. -/
def skipTo? (q : Quota) (boundary : UInt64) (now : Timestamp) : Option Quota := do
  let terms := q.nextTerms
  let next ← add64? q.epoch 1
  if terms.duration = 0 then none
  let skipped := (now.seconds - boundary) / terms.duration
  let epoch ← add64? next skipped
  let start ← Timestamp.ofSeconds? (boundary + skipped * terms.duration)
  some { epoch, start, terms, used := .zero, pending := none }

/-- The quota as of now. A time before the end of the open epoch changes nothing. -/
def rolled? (q : Quota) (now : Timestamp) : Option Quota :=
  match q.boundary? with
  | none => some q
  | some boundary => if boundary ≤ now.seconds then q.skipTo? boundary now else some q

/-- What may still move in the open epoch. -/
def remaining (q : Quota) : Amount := q.terms.limit.truncSub q.used

/-- The quota after one more movement in the open epoch, if the limit holds it. -/
def take? (q : Quota) (amount : Amount) : Option Quota := do
  let used ← q.used.add? amount
  if used ≤ q.terms.limit then some { q with used } else none

end Quota

end TokenBridge

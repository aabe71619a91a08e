import TokenBridge.Merkle.Scheme
import TokenBridge.Numbers

/-!
# Settings, pauses and commitments

What is fixed for all accounts: the two chains, the registry's first height, how long a commitment
waits and how inclusion is shown; which of the two subsystems are paused; and the state root of a
block of the second chain, accepted once and for all.
-/

namespace TokenBridge

/-! ## Subsystems -/

/-- A part of the bridge that can be paused. -/
inductive Subsystem where
  | deposits
  | withdrawals
  deriving DecidableEq

namespace Subsystem

/-- The name of a subsystem. -/
def tag : Subsystem → String
  | deposits => "deposits"
  | withdrawals => "withdrawals"

/-- Every subsystem. -/
def all : List Subsystem := [deposits, withdrawals]

/-- The subsystem of a name. -/
def ofTag? (tag : String) : Option Subsystem := all.find? (·.tag = tag)

end Subsystem

/-! ## Settings and pauses -/

/-- The settings of a bridge. -/
structure Settings where
  /-- The chain from which messages are redeemed. -/
  remoteChain : UInt64
  /-- The chain on which messages are announced. -/
  homeChain : UInt64
  /-- Seconds that pass before a commitment is final. -/
  finalityDelay : UInt64
  scheme : Scheme
  /-- The height of the first commitment. -/
  startHeight : UInt64
  deriving DecidableEq

/-- The longest finality delay, thirty days. -/
def maxFinalityDelay : UInt64 := 2592000

/-- The longest epoch, three hundred and sixty-five days. -/
def maxEpochDuration : UInt64 := 31536000

/-- Which subsystems are paused. -/
structure Pauses where
  deposits : Bool
  withdrawals : Bool
  deriving DecidableEq

namespace Pauses

/-- Nothing is paused. -/
def none : Pauses := ⟨false, false⟩

/-- Is a subsystem paused? -/
def holds (p : Pauses) : Subsystem → Bool
  | .deposits => p.deposits
  | .withdrawals => p.withdrawals

/-- The pauses with one of them set. -/
def set (p : Pauses) (subsystem : Subsystem) (paused : Bool) : Pauses :=
  match subsystem with
  | .deposits => { p with deposits := paused }
  | .withdrawals => { p with withdrawals := paused }

@[simp] theorem holds_set (p : Pauses) (a b : Subsystem) (paused : Bool) :
    (p.set a paused).holds b = if a = b then paused else p.holds b := by
  cases a <;> cases b <;> rfl

end Pauses

/-! ## Commitments -/

/-- A committed state root. -/
structure Commitment where
  height : UInt64
  root : Word256
  /-- When the block was produced, as its committer states. -/
  time : Timestamp
  deriving DecidableEq

/-- Has the delay passed since a commitment's time? Both times are taken in whole seconds. -/
def Commitment.isFinal (c : Commitment) (now : Timestamp) (delay : UInt64) : Bool :=
  delay.toNat ≤ now.seconds.toNat - c.time.seconds.toNat

end TokenBridge

import TokenBridge.Store.Basic

/-!
# The history of commitments

Commitments are accepted height by height without gaps, with times that never run backwards and
never ahead of the clock, and are never changed afterwards.
-/

namespace TokenBridge

namespace Store

/-- The height of the next commitment. -/
def expectedHeight (settings : Settings) (s : Store) : Except Fault UInt64 :=
  match s.lastHeight with
  | some last => orAbort (add64? last 1)
  | none => .ok settings.startHeight

/-- Refuses a time before that of the latest commitment. -/
def requireNoEarlier (time : Timestamp) (s : Store) : Except Fault Unit :=
  match s.lastHeight with
  | none => .ok ()
  | some last => do
    let previous ← s.getCommitment last
    demand (previous.time.nanos ≤ time.nanos)
      (.badCommitmentTime (.precedes time.seconds last previous.time.seconds))

/-- Refuses what cannot be the next commitment. -/
def requireNext (now : Timestamp) (c : Commitment) (s : Store) : Except Fault Unit := do
  let settings ← s.getSettings
  let expected ← s.expectedHeight settings
  demand (c.height = expected) (.outOfOrder expected c.height)
  demand (c.time.nanos ≤ now.nanos) (.badCommitmentTime (.ahead c.time.seconds now.seconds))
  s.requireNoEarlier c.time

/-- Is a height committed, and has its delay passed? -/
def isFinalized (now : Timestamp) (height : UInt64) (s : Store) : Except Fault Bool :=
  match s.commitments[height]? with
  | none => .ok false
  | some c => do
    let settings ← s.getSettings
    return c.isFinal now settings.finalityDelay

/-- Does the path lead from the leaf to the root committed at a height, under the scheme in
force? -/
def includes (height : UInt64) (leaf : Word256) (path : MerklePath) (s : Store) :
    Except Fault Bool :=
  match s.commitments[height]? with
  | none => .ok false
  | some c => do
    let settings ← s.getSettings
    return settings.scheme.verify c.root leaf path

/-- Refuses a path that does not show inclusion. -/
def requireIncluded (height : UInt64) (leaf : Word256) (path : MerklePath) (s : Store) :
    Except Fault Unit := do
  let included ← s.includes height leaf path
  demand (included = true) (.notIncluded height)

end Store

/-- Accepts the next commitment. -/
def Call.commit (now : Timestamp) (c : Commitment) : Call Commitment := do
  check (·.requireNext now c)
  write fun s => { s with commitments := s.commitments.insert c.height c }
  write fun s => { s with lastHeight := some c.height }
  return c

end TokenBridge

import TokenBridge.Store.Basic

/-!
# Quotas in the store

A flow of a token without a stored quota is not capped. A movement is first checked against the
quota as of now, which yields the quota after it; storing that is a step of its own.
-/

namespace TokenBridge

/-- When new terms take effect. -/
inductive TermsChange where
  /-- At once, as no epoch was open. -/
  | immediate
  /-- After the open epoch. -/
  | scheduled (epoch : UInt64)
  deriving DecidableEq

namespace Store

/-- The quota of a flow as of now, if the flow is capped. -/
def quotaAt (flow : Flow) (token : Address) (now : Timestamp) (s : Store) :
    Except Fault (Option Quota) :=
  match s.quota? flow token with
  | none => .ok none
  | some q => do
    let rolled ← orAbort (q.rolled? now)
    return some rolled

/-- The quota after a movement; one beyond the limit is refused. -/
def reserved (flow : Flow) (token : Address) (amount : Amount) (now : Timestamp) (s : Store) :
    Except Fault (Option Quota) := do
  match ← s.quotaAt flow token now with
  | none => return none
  | some q =>
    match q.take? amount with
    | some after => return some after
    | none => .error (.rejected (.overLimit q.terms.limit q.used amount))

/-- The quota of a flow under new terms, and when they take effect. -/
def withTerms (flow : Flow) (token : Address) (terms : Terms) (now : Timestamp) (s : Store) :
    Except Fault (Quota × TermsChange) := do
  demand (terms.duration ≠ 0 ∧ terms.duration ≤ maxEpochDuration) (.badDuration maxEpochDuration)
  match ← s.quotaAt flow token now with
  | none => return (Quota.opened terms now, .immediate)
  | some q => return ({ q with pending := some terms }, .scheduled q.epoch)

end Store

namespace Call

/-- Stores the quota of a flow. -/
def putQuota (flow : Flow) (token : Address) (q : Quota) : Call Unit :=
  write fun s => { s with quotas := s.quotas.insert ⟨flow, token⟩ q }

/-- Stores the quota after a movement, if the flow is capped. -/
def putReserved (flow : Flow) (token : Address) : Option Quota → Call Unit
  | none => return
  | some q => putQuota flow token q

/-- Checks a movement and stores the quota after it. -/
def reserve (flow : Flow) (token : Address) (amount : Amount) (now : Timestamp) :
    Call (Option Quota) := do
  let after ← check (·.reserved flow token amount now)
  putReserved flow token after
  return after

/-- Sets the terms of a flow, from the next epoch on if one is open. -/
def setTerms (flow : Flow) (token : Address) (terms : Terms) (now : Timestamp) :
    Call TermsChange := do
  let (q, change) ← check (·.withTerms flow token terms now)
  putQuota flow token q
  return change

end Call

end TokenBridge

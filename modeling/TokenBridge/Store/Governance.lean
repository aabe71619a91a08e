import TokenBridge.Store.Basic

/-!
# Governance

Who holds a role and how that changes, and whether a subsystem works at the moment. The number of
admins is kept beside the roster, and the last admin cannot be removed.
-/

namespace TokenBridge

/-! ## Membership -/

namespace Store

/-- Does an account hold a role? -/
def holdsRole (role : Role) (account : Address) (s : Store) : Bool :=
  s.roster.holds role account

/-- Refuses an account that does not hold the role. -/
def requireRole (role : Role) (account : Address) (s : Store) : Except Fault Unit :=
  demand (s.holdsRole role account) (.unauthorized role)

/-- Refuses an account that holds none of the roles, naming the first of them. -/
def requireAnyRole (roles : List Role) (account : Address) (s : Store) : Except Fault Unit :=
  if roles.any (s.holdsRole · account) then .ok ()
  else match roles with
    | [] => .error .aborted
    | first :: _ => .error (.rejected (.unauthorized first))

/-- At most `limit` holders of a role in ascending order, those after `start` if one is given. -/
def members (role : Role) (start : Option Address) (limit : Nat) (s : Store) : List Address :=
  ((s.roster.holders role).toList.filter fun account => start.all (· < account)).take limit

end Store

namespace Call

/-- Gives an account a role, unless it holds it already. -/
def grant (role : Role) (account : Address) : Call Bool := do
  if ← read (·.holdsRole role account) then return false
  write fun s => { s with roster := s.roster.add role account }
  if role = .admin then
    let count ← check (·.getAdminCount)
    let more ← lift <| orAbort (add32? count 1)
    write fun s => { s with adminCount := some more }
  return true

/-- Takes a role from an account that holds it. -/
def revoke (role : Role) (account : Address) : Call Bool := do
  if !(← read (·.holdsRole role account)) then return false
  if role = .admin then
    let count ← check (·.getAdminCount)
    lift <| demand (1 < count) .lastAdmin
    write fun s => { s with adminCount := some (count - 1) }
  write fun s => { s with roster := s.roster.remove role account }
  return true

end Call

/-! ## Pauses -/

/-- Refuses work on a paused subsystem. -/
def Store.requireActive (subsystem : Subsystem) (s : Store) : Except Fault Unit := do
  let pauses ← s.getPauses
  demand (pauses.holds subsystem = false) (.paused subsystem)

/-- Pauses a subsystem or lifts its pause; tells whether that changes anything. -/
def Call.setPaused (subsystem : Subsystem) (paused : Bool) : Call Bool := do
  let pauses ← check (·.getPauses)
  if pauses.holds subsystem = paused then return false
  write fun s => { s with pauses := some (pauses.set subsystem paused) }
  return true

end TokenBridge

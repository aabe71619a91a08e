import Std.Data.ExtTreeSet
import TokenBridge.Bytes

/-!
# Accounts

An address is any text. Callers are taken as they come; addresses inside requests are validated by
the host on which the bridge runs. Hosts differ in what they accept, and no rule of the bridge looks
into an address, so the host's rules are a parameter. It is a class because it is one and the same
for all that a bridge does, and every call that validates an address would have to hand it on.

An account may hold roles. Roles never imply one another, and a roster tells who holds which.
-/

namespace TokenBridge

/-! ## Addresses -/

/-- An account or contract on the first chain. -/
abbrev Address := String

/-- Which texts the host takes for addresses. What it answers to one that it takes is the text
itself. -/
class AddressRules where
  /-- What the host objects to in a text, if it does not take it for an address. -/
  fault? : Address → Option String

/-- What the host objects to in an address. -/
def Address.fault? [AddressRules] (address : Address) : Option String := AddressRules.fault? address

/-! ## Roles -/

/-- A capability of an account. -/
inductive Role where
  /-- Grants and revokes roles, binds assets, sets limits, lifts pauses. -/
  | admin
  /-- Submits commitments. -/
  | committer
  /-- Pauses subsystems. -/
  | pauser
  deriving DecidableEq

namespace Role

/-- The name of a role. -/
def tag : Role → String
  | admin => "admin"
  | committer => "committer"
  | pauser => "pauser"

/-- Every role, in the order of the names. -/
def all : List Role := [admin, committer, pauser]

/-- The role of a name. -/
def ofTag? (tag : String) : Option Role := all.find? (·.tag = tag)

end Role

/-! ## Rosters -/

/-- A set of accounts, ordered by their text. -/
abbrev AddressSet := Std.ExtTreeSet Address

/-- The holders of each role. -/
structure Roster where
  admins : AddressSet
  committers : AddressSet
  pausers : AddressSet
  deriving DecidableEq

namespace Roster

/-- Nobody holds a role. -/
def empty : Roster := ⟨∅, ∅, ∅⟩

/-- The holders of a role. -/
def holders (r : Roster) : Role → AddressSet
  | .admin => r.admins
  | .committer => r.committers
  | .pauser => r.pausers

/-- The roster with other holders of a role. -/
def setHolders (r : Roster) (role : Role) (holders : AddressSet) : Roster :=
  match role with
  | .admin => { r with admins := holders }
  | .committer => { r with committers := holders }
  | .pauser => { r with pausers := holders }

@[simp] theorem holders_setHolders (r : Roster) (a b : Role) (s : AddressSet) :
    (r.setHolders a s).holders b = if a = b then s else r.holders b := by
  cases a <;> cases b <;> rfl

/-- Does an account hold a role? -/
def holds (r : Roster) (role : Role) (account : Address) : Bool :=
  (r.holders role).contains account

/-- The roster in which an account holds a role. -/
def add (r : Roster) (role : Role) (account : Address) : Roster :=
  r.setHolders role ((r.holders role).insert account)

/-- The roster in which an account does not hold a role. -/
def remove (r : Roster) (role : Role) (account : Address) : Roster :=
  r.setHolders role ((r.holders role).erase account)

private theorem compare_beq_eq (x y : Address) : (compare x y == .eq) = decide (x = y) := by
  rw [Bool.eq_iff_iff, beq_iff_eq, Std.compare_eq_iff_eq, decide_eq_true_iff]

theorem holds_add (r : Roster) (a b : Role) (x y : Address) :
    (r.add a x).holds b y = (decide (a = b ∧ x = y) || r.holds b y) := by
  by_cases h : a = b
  · subst h
    simp [holds, add, compare_beq_eq]
  · simp [holds, add, h]

theorem holds_remove (r : Roster) (a b : Role) (x y : Address) :
    (r.remove a x).holds b y = (!decide (a = b ∧ x = y) && r.holds b y) := by
  by_cases h : a = b
  · subst h
    simp [holds, remove, bne, compare_beq_eq]
  · simp [holds, remove, h]

end Roster

end TokenBridge

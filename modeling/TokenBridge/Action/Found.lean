import TokenBridge.Action.Deposit
import TokenBridge.Request.Genesis

/-!
# Setting up and upgrading

A bridge starts with at least one admin, nothing paused and no message announced. A later version of
the program takes over the store of an earlier one of the same name.

A version is read as three numbers with dots between them; what follows a first `-` or `+` does not
count. Versions are compared number by number.
-/

namespace TokenBridge

variable [AddressRules]

/-! ## Versions -/

/-- The numbers of a version. -/
structure Version where
  major : UInt64
  minor : UInt64
  patch : UInt64
  deriving DecidableEq

namespace Version

/-- The name of this program in version stamps. -/
def programName : String := "crates.io:fuel-bridge"

/-- The version of this program. -/
def current : Version := ⟨0, 1, 0⟩

/-- The text of a version. -/
def text (v : Version) : String :=
  Decimal.text v.major.toNat ++ "." ++ Decimal.text v.minor.toNat ++ "." ++
    Decimal.text v.patch.toNat

/-- The part of a text in front of its first `-` or `+`. -/
def core (cs : List Char) : List Char := cs.takeWhile fun c => c ≠ '-' ∧ c ≠ '+'

/-- The pieces between the dots. -/
def pieces : List Char → List (List Char)
  | [] => [[]]
  | '.' :: rest => [] :: pieces rest
  | c :: rest =>
    match pieces rest with
    | piece :: more => (c :: piece) :: more
    | [] => [[c]]

/-- One of the numbers. -/
def number? (cs : List Char) : Option UInt64 := (Decimal.value? cs).bind word64?

/-- Reads a version. -/
def ofText? (input : String) : Option Version :=
  match pieces (core input.toList) with
  | [major, minor, patch] => do
    some { major := ← number? major, minor := ← number? minor, patch := ← number? patch }
  | _ => none

/-- Is the first version later than the second? -/
def isNewer (a b : Version) : Bool :=
  b.major < a.major ∨
    a.major = b.major ∧ (b.minor < a.minor ∨ a.minor = b.minor ∧ b.patch < a.patch)

end Version

/-! ## The two requests -/

/-- Writes which program the store belongs to. -/
def stamp : Call Unit :=
  Call.write fun s => { s with version := some ⟨Version.programName, Version.current.text⟩ }

/-- The settings that a bridge starts with. -/
def Genesis.settings (g : Genesis) : Settings where
  remoteChain := g.remoteChain
  homeChain := g.homeChain
  finalityDelay := g.finalityDelay
  scheme := g.scheme.getD .indexed
  startHeight := g.startHeight

/-- Gives a role to each of the accounts in turn. -/
def grantAll (role : Role) : List Address → Call Unit
  | [] => return
  | account :: rest => do
    let account ← Call.lift <| requireValid account
    let _ ← Call.grant role account
    grantAll role rest

/-- Sets a bridge up. -/
def found (g : Genesis) : Call Receipt := do
  stamp
  Call.lift <| demand (g.admins ≠ []) (.badAccount .noAdmins)
  Call.lift <| demand (g.finalityDelay ≤ maxFinalityDelay) (.delayTooLong maxFinalityDelay)
  Call.write fun s => { s with settings := some g.settings }
  Call.write fun s => { s with pauses := some .none }
  Call.write fun s => { s with adminCount := some 0 }
  Call.write fun s => { s with nextNonce := some 0 }
  grantAll .admin g.admins
  grantAll .committer g.committers
  grantAll .pauser g.pausers
  return {
    calls := []
    events := []
    attributes := [
      ("action", "instantiate"),
      numberAttribute "l2_chain_id" g.remoteChain.toNat,
      numberAttribute "l1_chain_id" g.homeChain.toNat,
      numberAttribute "start_height" g.startHeight.toNat,
      numberAttribute "finality_delay" g.finalityDelay.toNat,
      ("proof_scheme", g.settings.scheme.tag),
      numberAttribute "admin_count" g.admins.length] }

/-- Refuses the store of another program, or of a later version of this one. -/
def requireUpgradable (stored : VersionStamp) : Except Fault Unit := do
  demand (stored.program = Version.programName) (.badUpgrade (.foreign stored.program))
  match Version.ofText? stored.version with
  | none => .error (.rejected (.badUpgrade (.unreadable stored.version)))
  | some v =>
    demand (v.isNewer Version.current = false)
      (.badUpgrade (.newer stored.version Version.current.text))

/-- Takes over the store of an earlier version. -/
def upgrade : Call Receipt := do
  let stored ← Call.check (·.getVersion)
  Call.lift <| requireUpgradable stored
  stamp
  return {
    calls := []
    events := []
    attributes := [
      ("action", "migrate"),
      ("from_version", stored.version),
      ("version", Version.current.text)] }

end TokenBridge

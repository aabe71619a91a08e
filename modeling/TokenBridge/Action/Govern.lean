import TokenBridge.Action.Deposit
import TokenBridge.Store.History

/-!
# Committing and governing

A committer submits the state root of the next block of the second chain. The time comes in whole
seconds and is compared with the clock before the height is looked at.

Admins give and take roles, bind assets, cap flows, set the finality delay and choose the scheme. A
pauser or an admin pauses a subsystem; only an admin lifts a pause. The caller's role is looked at
before anything else.
-/

namespace TokenBridge

variable [AddressRules]

/-! ## Committing -/

/-- Refuses bytes that are no word of thirty-two bytes. -/
def requireWord (bytes : Bytes) : Except Fault Word256 :=
  match Word256.ofBytes? bytes with
  | some w => .ok w
  | none => .error (.rejected (.badWord bytes.length))

/-- Accepts the state root of the next block. -/
def commit (env : Env) (sender : Address) (height : UInt64) (root : Bytes) (seconds : UInt64) :
    Call Receipt := do
  Call.check (·.requireRole .committer sender)
  let root ← Call.lift <| requireWord root
  Call.lift <|
    demand (seconds ≤ env.now.seconds) (.badCommitmentTime (.ahead seconds env.now.seconds))
  let time ← Call.lift <| orAbort (Timestamp.ofSeconds? seconds)
  let c ← Call.commit env.now { height, root, time }
  return {
    calls := []
    events := [{
      kind := "commitment"
      attributes := [
        numberAttribute "height" height.toNat,
        ("state_root", c.root.toHex),
        numberAttribute "timestamp" seconds.toNat] }]
    attributes := [("action", "commit"), ("committer", sender)] }

/-! ## Governing -/

/-- A receipt of one event and some attributes. -/
def governed (event : Option Event) (attributes : List Attribute) : Receipt where
  calls := []
  events := event.toList
  attributes

/-- The event of a change of roles. -/
def roleEvent (role : Role) (account : Address) (granted changed : Bool) : Event where
  kind := "role_changed"
  attributes := [
    ("role", role.tag),
    ("address", account),
    flagAttribute "granted" granted,
    flagAttribute "changed" changed]

/-- Gives an account a role. -/
def grantRole (sender : Address) (role : Role) (account : Address) : Call Receipt := do
  Call.check (·.requireRole .admin sender)
  let account ← Call.lift <| requireValid account
  let changed ← Call.grant role account
  return governed (roleEvent role account true changed)
    [("action", "grant_role"), ("role", role.tag), ("address", account)]

/-- Takes a role from an account. -/
def revokeRole (sender : Address) (role : Role) (account : Address) : Call Receipt := do
  Call.check (·.requireRole .admin sender)
  let account ← Call.lift <| requireValid account
  let changed ← Call.revoke role account
  return governed (roleEvent role account false changed)
    [("action", "revoke_role"), ("role", role.tag), ("address", account)]

/-- The event of a change of pauses. -/
def pauseEvent (subsystem : Subsystem) (paused changed : Bool) : Event where
  kind := "pause_changed"
  attributes := [
    ("subsystem", subsystem.tag),
    flagAttribute "paused" paused,
    flagAttribute "changed" changed]

/-- Pauses a subsystem. -/
def pause (sender : Address) (subsystem : Subsystem) : Call Receipt := do
  Call.check (·.requireAnyRole [.pauser, .admin] sender)
  let changed ← Call.setPaused subsystem true
  return governed (pauseEvent subsystem true changed)
    [("action", "pause"), ("subsystem", subsystem.tag)]

/-- Lifts the pause of a subsystem. -/
def unpause (sender : Address) (subsystem : Subsystem) : Call Receipt := do
  Call.check (·.requireRole .admin sender)
  let changed ← Call.setPaused subsystem false
  return governed (pauseEvent subsystem false changed)
    [("action", "unpause"), ("subsystem", subsystem.tag)]

/-- The event of a new binding. -/
def bindingEvent (b : Binding) (previous : Option Binding) : Event where
  kind := "asset_bound"
  attributes := [
    ("l1_token", b.token),
    ("l2_asset_id", b.asset.toHex),
    numberAttribute "l1_decimals" b.tokenDecimals.toNat,
    numberAttribute "l2_decimals" b.assetDecimals.toNat] ++
    previous.toList.map fun old => ("replaced_l2_asset_id", old.asset.toHex)

/-- Binds a token to an asset. -/
def bindAsset (sender token : Address) (asset : Bytes) (tokenDecimals assetDecimals : UInt8) :
    Call Receipt := do
  Call.check (·.requireRole .admin sender)
  let token ← Call.lift <| requireValid token
  let asset ← Call.lift <| requireWord asset
  let b : Binding := { token, asset, tokenDecimals, assetDecimals }
  let previous ← Call.bindAsset b
  return governed (bindingEvent b previous) [("action", "bind_asset"), ("l1_token", token)]

/-- When new terms take effect, as told to observers. -/
def TermsChange.text : TermsChange → String
  | immediate => "immediate"
  | scheduled epoch => s!"after_epoch_{epoch}"

/-- The event of a change of terms. -/
def termsEvent (token : Address) (flow : Flow) (terms : Terms) (change : TermsChange) : Event where
  kind := "limit_changed"
  attributes := [
    ("l1_token", token),
    ("flow", flow.tag),
    ("limit", terms.limit.text),
    numberAttribute "epoch_duration" terms.duration.toNat,
    ("effective", change.text)]

/-- Caps a flow of a token. -/
def setTerms (env : Env) (sender token : Address) (flow : Flow) (terms : Terms) : Call Receipt := do
  Call.check (·.requireRole .admin sender)
  let token ← Call.lift <| requireValid token
  let change ← Call.setTerms flow token terms env.now
  return governed (termsEvent token flow terms change)
    [("action", "set_rate_limit"), ("l1_token", token)]

/-- Sets how long commitments wait. -/
def setFinalityDelay (sender : Address) (seconds : UInt64) : Call Receipt := do
  Call.check (·.requireRole .admin sender)
  Call.lift <| demand (seconds ≤ maxFinalityDelay) (.delayTooLong maxFinalityDelay)
  let settings ← Call.check (·.getSettings)
  Call.write fun s => { s with settings := some { settings with finalityDelay := seconds } }
  return governed none
    [("action", "set_finality_delay"), numberAttribute "finality_delay" seconds.toNat]

/-- The event of a change of schemes. -/
def schemeEvent (previous scheme : Scheme) : Event where
  kind := "proof_scheme_changed"
  attributes := [
    ("previous", previous.tag),
    ("scheme", scheme.tag),
    numberAttribute "version" scheme.version.toNat]

/-- Chooses the scheme by which inclusion is shown from now on. -/
def setScheme (sender : Address) (scheme : Scheme) : Call Receipt := do
  Call.check (·.requireRole .admin sender)
  let settings ← Call.check (·.getSettings)
  Call.write fun s => { s with settings := some { settings with scheme } }
  return governed (schemeEvent settings.scheme scheme) [("action", "set_proof_scheme")]

end TokenBridge

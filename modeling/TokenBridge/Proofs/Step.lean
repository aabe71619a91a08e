import TokenBridge.Bridge
import TokenBridge.Proofs.Movement

/-!
# What a request can do

Every request after the founding that succeeds is one of the steps listed here, with the store that
it leaves written out. Each kind of request has a part of the store to itself, except that deposits
and withdrawals share what is locked, and that both share the quotas with the setting of terms.
-/

namespace TokenBridge

variable {s t : Store}

/-- A request that may come at any time after the founding. -/
def Request.isLater : Request → Bool
  | found _ => false
  | command .. => true
  | upgrade _ => true

/-- Bindings are stored under the names of their tokens. -/
def Store.BoundByName (s : Store) : Prop :=
  ∀ {token : Address} {b : Binding}, s.bindings[token]? = some b → b.token = token

/-- What a request that succeeds has passed, what it reports and what it leaves. -/
inductive Step [AddressRules] (env : Env) (s : Store) : Request → Receipt → Store → Prop
  /-- Tokens are taken from the caller. -/
  | deposit {sender token amount recipient order receipt t}
      (hactive : s.requireActive .deposits = .ok ())
      (hcheck : DepositOrder.check env.now token amount recipient s = .ok order)
      (hfunds : env.requireFunds token sender amount = .ok ())
      (hrecord : (order.record sender [⟨token, .take sender env.self amount⟩]).Yields s receipt t) :
      Step env s (.command sender (.deposit token amount recipient)) receipt t
  /-- The calling token has already moved an amount here. -/
  | receive {token owner amount notice recipient order receipt t}
      (hactive : s.requireActive .deposits = .ok ())
      (hnotice : receive.readNotice notice = .ok (.deposit recipient))
      (hcheck : DepositOrder.check env.now token amount recipient s = .ok order)
      (hrecord : (order.record owner []).Yields s receipt t) :
      Step env s (.command token (.receive owner amount notice)) receipt t
  /-- A message is paid out. -/
  | withdraw {sender m path height order}
      (hactive : s.requireActive .withdrawals = .ok ())
      (hmessage : WithdrawalOrder.checkMessage env.now m path height s = .ok ())
      (hrelease : WithdrawalOrder.checkRelease env.now m s = .ok order) :
      Step env s (.command sender (.withdraw m path height)) (order.receipt m.leaf height)
        (order.recorded s)
  /-- The next state root is accepted. -/
  | commit {sender root seconds c receipt} (hrole : s.holdsRole .committer sender = true)
      (hroot : Word256.ofBytes? root = some c.root)
      (htime : Timestamp.ofSeconds? seconds = some c.time)
      (hnext : s.requireNext env.now c = .ok ()) (hcalls : receipt.calls = []) :
      Step env s (.command sender (.commit c.height root seconds)) receipt
        { s with commitments := s.commitments.insert c.height c, lastHeight := some c.height }
  | grantRole {sender role account changed roster adminCount receipt}
      (hrole : s.holdsRole .admin sender = true)
      (hgrant : (Call.grant role account).Yields s changed { s with roster, adminCount })
      (hcalls : receipt.calls = []) :
      Step env s (.command sender (.grantRole role account)) receipt { s with roster, adminCount }
  | revokeRole {sender role account changed roster adminCount receipt}
      (hrole : s.holdsRole .admin sender = true)
      (hrevoke : (Call.revoke role account).Yields s changed { s with roster, adminCount })
      (hcalls : receipt.calls = []) :
      Step env s (.command sender (.revokeRole role account)) receipt { s with roster, adminCount }
  | pause {sender subsystem changed pauses receipt}
      (hrole : s.requireAnyRole [.pauser, .admin] sender = .ok ())
      (hpause : (Call.setPaused subsystem true).Yields s changed { s with pauses })
      (hcalls : receipt.calls = []) :
      Step env s (.command sender (.pause subsystem)) receipt { s with pauses }
  | unpause {sender subsystem changed pauses receipt} (hrole : s.holdsRole .admin sender = true)
      (hpause : (Call.setPaused subsystem false).Yields s changed { s with pauses })
      (hcalls : receipt.calls = []) :
      Step env s (.command sender (.unpause subsystem)) receipt { s with pauses }
  /-- A token is bound under its own name. -/
  | bindAsset {sender asset b previous assetTokens receipt}
      (hrole : s.holdsRole .admin sender = true) (hasset : Word256.ofBytes? asset = some b.asset)
      (hbind : (Call.bindAsset b).Yields s previous
        { s with assetTokens, bindings := s.bindings.insert b.token b })
      (hcalls : receipt.calls = []) :
      Step env s (.command sender (.bindAsset b.token asset b.tokenDecimals b.assetDecimals))
        receipt { s with assetTokens, bindings := s.bindings.insert b.token b }
  /-- The quota of a flow gets other terms. -/
  | setTerms {sender token flow terms q change receipt} (hrole : s.holdsRole .admin sender = true)
      (hterms : s.withTerms flow token terms env.now = .ok (q, change))
      (hcalls : receipt.calls = []) :
      Step env s (.command sender (.setTerms token flow terms)) receipt
        { s with quotas := s.quotas.insert ⟨flow, token⟩ q }
  | setFinalityDelay {sender seconds settings receipt} (hrole : s.holdsRole .admin sender = true)
      (hsettings : s.settings = some settings) (hcalls : receipt.calls = []) :
      Step env s (.command sender (.setFinalityDelay seconds)) receipt
        { s with settings := some { settings with finalityDelay := seconds } }
  | setScheme {sender scheme settings receipt} (hrole : s.holdsRole .admin sender = true)
      (hsettings : s.settings = some settings) (hcalls : receipt.calls = []) :
      Step env s (.command sender (.setScheme scheme)) receipt
        { s with settings := some { settings with scheme } }
  | upgrade {u version receipt} (hcalls : receipt.calls = []) :
      Step env s (.upgrade u) receipt { s with version }

namespace Call

/-- Giving a role changes the roster and the number of admins alone. -/
theorem yields_grant {role : Role} {account : Address} {changed : Bool}
    (h : (grant role account).Yields s changed t) :
    ∃ roster adminCount, t = { s with roster, adminCount } := by
  simp only [grant, yields_read_bind_iff] at h
  split at h
  · exact ⟨s.roster, s.adminCount, (yields_pure_iff.mp h).2.symm⟩
  · rw [yields_write_bind_iff] at h
    split at h
    · simp only [yields_check_bind_iff, yields_lift_bind_iff, yields_write_bind_iff,
        yields_pure_iff] at h
      obtain ⟨_, _, more, _, _, rfl⟩ := h
      exact ⟨_, some more, rfl⟩
    · exact ⟨_, s.adminCount, (yields_pure_iff.mp h).2.symm⟩

/-- Taking a role changes the roster and the number of admins alone. -/
theorem yields_revoke {role : Role} {account : Address} {changed : Bool}
    (h : (revoke role account).Yields s changed t) :
    ∃ roster adminCount, t = { s with roster, adminCount } := by
  simp only [revoke, yields_read_bind_iff] at h
  split at h
  · exact ⟨s.roster, s.adminCount, (yields_pure_iff.mp h).2.symm⟩
  · split at h
    · simp only [yields_check_bind_iff, yields_lift_bind_iff, yields_write_bind_iff,
        yields_pure_iff] at h
      obtain ⟨count, _, _, _, _, rfl⟩ := h
      exact ⟨_, some (count - 1), rfl⟩
    · simp only [yields_write_bind_iff, yields_pure_iff] at h
      exact ⟨_, s.adminCount, h.2.symm⟩

/-- Pausing changes the pauses alone. -/
theorem yields_setPaused {subsystem : Subsystem} {paused changed : Bool}
    (h : (setPaused subsystem paused).Yields s changed t) : ∃ pauses, t = { s with pauses } := by
  simp only [setPaused, yields_check_bind_iff] at h
  obtain ⟨pauses, _, h⟩ := h
  split at h
  · exact ⟨s.pauses, (yields_pure_iff.mp h).2.symm⟩
  · simp only [yields_write_bind_iff, yields_pure_iff] at h
    exact ⟨_, h.2.symm⟩

/-- A binding is stored under its own token. -/
theorem yields_bindAsset {b : Binding} {previous : Option Binding}
    (h : (bindAsset b).Yields s previous t) :
    ∃ assetTokens, t = { s with assetTokens, bindings := s.bindings.insert b.token b } := by
  simp only [bindAsset, yields_check_bind_iff, yields_read_bind_iff] at h
  obtain ⟨_, _, h⟩ := h
  split at h
  · simp only [yields_write_bind_iff, yields_pure_iff] at h
    exact ⟨_, h.2.symm⟩
  · simp only [yields_write_bind_iff, yields_pure_iff] at h
    exact ⟨_, h.2.symm⟩

end Call

/-- A valid address is taken as it is. -/
theorem eq_of_requireValid [AddressRules] {address valid : Address}
    (h : requireValid address = .ok valid) :
    address = valid := by
  have hvalid := Except.mapError_eq_ok_iff.mp h
  unfold Address.validate at hvalid
  cases hfault : address.fault? with
  | none => simpa [hfault] using hvalid
  | some fault => simp [hfault] at hvalid

/-- A word is taken from bytes of its length. -/
theorem requireWord_eq_ok_iff {bytes : Bytes} {w : Word256} :
    requireWord bytes = .ok w ↔ Word256.ofBytes? bytes = some w := by
  unfold requireWord
  cases Word256.ofBytes? bytes with
  | none => simp
  | some w' => simp

/-- Every command that succeeds is one of the steps. -/
theorem Step.of_command [AddressRules] {env : Env} {sender : Address} {command : Command}
    {receipt : Receipt} (h : (command.run env sender).Yields s receipt t) :
    Step env s (.command sender command) receipt t := by
  cases command with
  | deposit token amount recipient =>
    simp only [Command.run, TokenBridge.deposit, Call.yields_check_bind_iff,
      Call.yields_lift_bind_iff] at h
    obtain ⟨_, hactive, _, hvalid, order, hcheck, _, hfunds, hrecord⟩ := h
    obtain rfl := eq_of_requireValid hvalid
    exact Step.deposit hactive hcheck hfunds hrecord
  | receive owner amount notice =>
    simp only [Command.run, TokenBridge.receive, Call.yields_check_bind_iff,
      Call.yields_lift_bind_iff, Except.mapError_eq_ok_iff] at h
    obtain ⟨_, hactive, _, hvalid, ⟨recipient⟩, hnotice, order, hcheck, hrecord⟩ := h
    obtain rfl := eq_of_requireValid hvalid
    exact Step.receive hactive hnotice hcheck hrecord
  | withdraw m path height =>
    simp only [Command.run, TokenBridge.withdraw, Call.yields_check_bind_iff,
      WithdrawalOrder.yields_record_bind_iff, Call.yields_pure_iff] at h
    obtain ⟨_, hactive, _, hmessage, order, hrelease, rfl, rfl⟩ := h
    exact Step.withdraw hactive hmessage hrelease
  | commit height root seconds =>
    simp only [Command.run, TokenBridge.commit, Call.commit, Call.yields_check_bind_iff,
      Call.yields_lift_bind_iff, bind_assoc, Call.yields_write_bind_iff, pure_bind,
      Call.yields_pure_iff, Store.requireRole, demand_eq_ok_iff, requireWord_eq_ok_iff,
      orAbort_eq_ok_iff] at h
    obtain ⟨_, hrole, word, hroot, _, _, time, htime, _, hnext, rfl, rfl⟩ := h
    exact Step.commit (c := ⟨height, word, time⟩) hrole hroot htime hnext rfl
  | grantRole role account =>
    simp only [Command.run, TokenBridge.grantRole, Call.yields_check_bind_iff,
      Call.yields_lift_bind_iff, Store.requireRole, demand_eq_ok_iff] at h
    obtain ⟨_, hrole, _, hvalid, h⟩ := h
    obtain rfl := eq_of_requireValid hvalid
    obtain ⟨changed, m, hgrant, hreport⟩ := Call.yields_bind_iff.mp h
    obtain ⟨roster, adminCount, rfl⟩ := Call.yields_grant hgrant
    obtain ⟨rfl, rfl⟩ := Call.yields_pure_iff.mp hreport
    exact Step.grantRole hrole hgrant rfl
  | revokeRole role account =>
    simp only [Command.run, TokenBridge.revokeRole, Call.yields_check_bind_iff,
      Call.yields_lift_bind_iff, Store.requireRole, demand_eq_ok_iff] at h
    obtain ⟨_, hrole, _, hvalid, h⟩ := h
    obtain rfl := eq_of_requireValid hvalid
    obtain ⟨changed, m, hrevoke, hreport⟩ := Call.yields_bind_iff.mp h
    obtain ⟨roster, adminCount, rfl⟩ := Call.yields_revoke hrevoke
    obtain ⟨rfl, rfl⟩ := Call.yields_pure_iff.mp hreport
    exact Step.revokeRole hrole hrevoke rfl
  | pause subsystem =>
    simp only [Command.run, TokenBridge.pause, Call.yields_check_bind_iff] at h
    obtain ⟨_, hrole, h⟩ := h
    obtain ⟨changed, m, hpause, hreport⟩ := Call.yields_bind_iff.mp h
    obtain ⟨pauses, rfl⟩ := Call.yields_setPaused hpause
    obtain ⟨rfl, rfl⟩ := Call.yields_pure_iff.mp hreport
    exact Step.pause hrole hpause rfl
  | unpause subsystem =>
    simp only [Command.run, TokenBridge.unpause, Call.yields_check_bind_iff, Store.requireRole,
      demand_eq_ok_iff] at h
    obtain ⟨_, hrole, h⟩ := h
    obtain ⟨changed, m, hpause, hreport⟩ := Call.yields_bind_iff.mp h
    obtain ⟨pauses, rfl⟩ := Call.yields_setPaused hpause
    obtain ⟨rfl, rfl⟩ := Call.yields_pure_iff.mp hreport
    exact Step.unpause hrole hpause rfl
  | bindAsset token asset tokenDecimals assetDecimals =>
    simp only [Command.run, TokenBridge.bindAsset, Call.yields_check_bind_iff,
      Call.yields_lift_bind_iff, Store.requireRole, demand_eq_ok_iff, requireWord_eq_ok_iff] at h
    obtain ⟨_, hrole, _, hvalid, word, hasset, h⟩ := h
    obtain rfl := eq_of_requireValid hvalid
    obtain ⟨previous, m, hbind, hreport⟩ := Call.yields_bind_iff.mp h
    obtain ⟨assetTokens, rfl⟩ := Call.yields_bindAsset hbind
    obtain ⟨rfl, rfl⟩ := Call.yields_pure_iff.mp hreport
    exact Step.bindAsset (b := ⟨token, word, tokenDecimals, assetDecimals⟩) hrole hasset hbind rfl
  | setTerms token flow terms =>
    simp only [Command.run, TokenBridge.setTerms, Call.setTerms, Call.putQuota,
      Call.yields_check_bind_iff, Call.yields_lift_bind_iff, bind_assoc,
      Call.yields_write_bind_iff, pure_bind, Call.yields_pure_iff, Store.requireRole,
      demand_eq_ok_iff] at h
    obtain ⟨_, hrole, _, hvalid, ⟨q, change⟩, hterms, rfl, rfl⟩ := h
    obtain rfl := eq_of_requireValid hvalid
    exact Step.setTerms hrole hterms rfl
  | setFinalityDelay seconds =>
    simp only [Command.run, TokenBridge.setFinalityDelay, Call.yields_check_bind_iff,
      Call.yields_lift_bind_iff, Call.yields_write_bind_iff, Call.yields_pure_iff,
      Store.getSettings, Store.present_eq_ok_iff, Store.requireRole, demand_eq_ok_iff] at h
    obtain ⟨_, hrole, _, _, settings, hsettings, rfl, rfl⟩ := h
    exact Step.setFinalityDelay hrole hsettings rfl
  | setScheme scheme =>
    simp only [Command.run, TokenBridge.setScheme, Call.yields_check_bind_iff,
      Call.yields_write_bind_iff, Call.yields_pure_iff, Store.getSettings,
      Store.present_eq_ok_iff, Store.requireRole, demand_eq_ok_iff] at h
    obtain ⟨_, hrole, settings, hsettings, rfl, rfl⟩ := h
    exact Step.setScheme hrole hsettings rfl

/-- Every later request that succeeds is one of the steps. -/
theorem Step.of_yields [AddressRules] {env : Env} {request : Request} {receipt : Receipt}
    (hlater : request.isLater = true) (h : (request.run env).Yields s receipt t) :
    Step env s request receipt t := by
  cases request with
  | found genesis => cases hlater
  | command sender command => exact Step.of_command h
  | upgrade u =>
    simp only [Request.run, TokenBridge.upgrade, stamp, Call.yields_check_bind_iff,
      Call.yields_lift_bind_iff, Call.yields_write_bind_iff, Call.yields_pure_iff] at h
    obtain ⟨_, _, _, _, rfl, rfl⟩ := h
    exact Step.upgrade rfl

end TokenBridge

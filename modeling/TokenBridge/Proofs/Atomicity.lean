import TokenBridge.Proofs.Aborts
import TokenBridge.Proofs.Membership
import TokenBridge.Proofs.Rescheduling
import TokenBridge.Proofs.Scaling

/-!
# Nothing is left half done

In every run a command that is refused is refused before its first write, so it leaves the store as
it found it, even if nobody takes back what it wrote. Only an abort may come after a write, and a
command aborts only where a number that the bridge keeps has reached the end of its range.
-/

namespace TokenBridge

variable {g : Genesis} {log : List Entry} {env : Env} {s t : Store} {fault : Fault}
  {sender : Address} {command : Command}

/-! ### Where counting stops -/

theorem size_le_of_add? {a b : Amount} (h : a.add? b = none) :
    Amount.size ≤ a.toNat + b.toNat := by
  refine Nat.le_of_not_lt ?_
  intro hlt
  have hsum : a.add? b = some ⟨a.toNat + b.toNat, hlt⟩ := Amount.add?_eq_some_iff.mpr rfl
  rw [h] at hsum
  cases hsum

theorem eq_size_of_add64? {n : UInt64} (h : add64? n 1 = none) : n.toNat + 1 = UInt64.size := by
  have hlt := n.toNat_lt_size
  refine Nat.le_antisymm hlt (Nat.le_of_not_lt ?_)
  intro hfits
  have hnext : add64? n 1 = some (.ofNat (n.toNat + 1)) :=
    add64?_eq_some_iff.mpr (UInt64.toNat_ofNat_of_lt' hfits)
  rw [h] at hnext
  cases hnext

theorem eq_size_of_add32? {n : UInt32} (h : add32? n 1 = none) : n.toNat + 1 = UInt32.size := by
  have hlt := n.toNat_lt_size
  refine Nat.le_antisymm hlt (Nat.le_of_not_lt ?_)
  intro hfits
  have hnext : add32? n 1 = some (.ofNat (n.toNat + 1)) :=
    add32?_eq_some_iff.mpr (UInt32.toNat_ofNat_of_lt' hfits)
  rw [h] at hnext
  cases hnext

namespace Store

/-- Nothing more of a token can be locked, or no message announced after it. -/
def DepositAtBound (s : Store) (token : Address) (amount : Amount) : Prop :=
  Amount.size ≤ (s.lockedOf token).toNat + amount.toNat ∨
    ∃ nonce, s.nextNonce = some nonce ∧ nonce.toNat + 1 = UInt64.size

/-- A command would count beyond the range of a number that is stored: what is locked, the messages
announced, the heights committed or the admins. -/
def AtBound (s : Store) (sender : Address) : Command → Prop
  | .deposit token amount _ => s.DepositAtBound token amount
  | .receive _ amount _ => s.DepositAtBound sender amount
  | .commit .. => ∃ last, s.lastHeight = some last ∧ last.toNat + 1 = UInt64.size
  | .grantRole .admin _ => ∃ count, s.adminCount = some count ∧ count.toNat + 1 = UInt32.size
  | _ => False

/-- What a founding writes, and no later request takes away. -/
structure Complete (s : Store) : Prop where
  settings : ∃ settings, s.settings = some settings
  pauses : ∃ pauses, s.pauses = some pauses
  adminCount : ∃ count, s.adminCount = some count
  nextNonce : ∃ nonce, s.nextNonce = some nonce
  byName : s.BoundByName
  quotas : s.SoundQuotas

end Store

namespace Call

variable {α β : Type} {bound : Prop}

/-- The call is refused with the store as it was, or it aborts and a bound is reached. -/
def StopsClean (s : Store) (bound : Prop) (call : Call α) : Prop :=
  ∀ fault t, call.Faults s fault t → (fault ≠ .aborted ∧ s = t) ∨ (fault = .aborted ∧ bound)

namespace StopsClean

/-- A call may go on after a test that never aborts. -/
theorem check_bind {test : Store → Except Fault α} {next : α → Call β}
    (htest : NeverAborts (test s)) (hnext : ∀ a, test s = .ok a → StopsClean s bound (next a)) :
    StopsClean s bound (check test >>= next) := by
  intro fault t h
  rcases faults_check_bind_iff.mp h with ⟨hfault, hsame⟩ | ⟨a, ha, hrest⟩
  · refine Or.inl ⟨?_, hsame⟩
    rintro rfl
    exact htest hfault
  · exact hnext a ha fault t hrest

theorem lift_bind {result : Except Fault α} {next : α → Call β} (hresult : NeverAborts result)
    (hnext : ∀ a, result = .ok a → StopsClean s bound (next a)) :
    StopsClean s bound (lift result >>= next) :=
  check_bind hresult hnext

/-- A report at the end changes nothing. -/
theorem report {first : Call α} {receipt : α → β} (hfirst : StopsClean s bound first) :
    StopsClean s bound (first >>= fun a => pure (receipt a)) := by
  intro fault t h
  exact hfirst fault t (faults_bind_pure_iff.mp h)

/-- A call that only writes does not stop at all. -/
theorem of_not_faults {call : Call α} (h : ∀ fault t, ¬call.Faults s fault t) :
    StopsClean s bound call := by
  intro fault t hfaults
  exact (h fault t hfaults).elim

/-- A write at the end does not stop. -/
theorem write_pure {change : Store → Store} {a : α} :
    StopsClean s bound (write change >>= fun _ => pure a) := by
  refine of_not_faults ?_
  intro fault t h
  rwa [faults_write_bind_iff, faults_pure_iff] at h

end StopsClean

variable {role : Role} {account : Address}

/-- Giving a role stops only where another admin cannot be counted. -/
theorem stopsClean_grant {sender : Address} (hcount : ∃ count, s.adminCount = some count) :
    (grant role account).StopsClean s (s.AtBound sender (.grantRole role account)) := by
  intro fault t h
  obtain ⟨count, hcount⟩ := hcount
  unfold Faults at h
  cases hheld : s.holdsRole role account with
  | true =>
    rw [outcome_grant_of_holds hheld] at h
    cases h
  | false =>
    by_cases hrole : role = .admin
    · subst hrole
      rw [outcome_grant_admin hheld hcount] at h
      cases hmore : add32? count 1 with
      | some more =>
        rw [hmore] at h
        cases h
      | none =>
        rw [hmore] at h
        obtain ⟨hfault, _⟩ := Prod.mk.inj h
        exact Or.inr ⟨(Except.error.inj hfault).symm, count, hcount, eq_size_of_add32? hmore⟩
    · rw [outcome_grant_of_ne hheld hrole] at h
      cases h

/-- Taking a role stops only for the last admin, before anything is written. -/
theorem stopsClean_revoke (hcount : ∃ count, s.adminCount = some count) :
    (revoke role account).StopsClean s bound := by
  intro fault t h
  obtain ⟨count, hcount⟩ := hcount
  unfold Faults at h
  cases hheld : s.holdsRole role account with
  | false =>
    rw [outcome_revoke_of_not_holds hheld] at h
    cases h
  | true =>
    by_cases hrole : role = .admin
    · subst hrole
      rw [outcome_revoke_admin hheld hcount] at h
      split at h
      · cases h
      · obtain ⟨hfault, hsame⟩ := Prod.mk.inj h
        obtain rfl := Except.error.inj hfault
        exact Or.inl ⟨nofun, hsame⟩
    · rw [outcome_revoke_of_ne hheld hrole] at h
      cases h

/-- Pausing stops only where the pauses cannot be read. -/
theorem stopsClean_setPaused (subsystem : Subsystem) (paused : Bool) :
    (setPaused subsystem paused).StopsClean s bound := by
  refine .check_bind (.getPauses s) fun pauses _ => ?_
  split
  · exact .of_not_faults fun _ _ => faults_pure_iff.mp
  · exact .write_pure

/-- Binding stops only where the asset is taken, before anything is written. -/
theorem stopsClean_bindAsset (b : Binding) : (bindAsset b).StopsClean s bound := by
  refine .check_bind (.requireFree b.asset b.token s) fun _ _ => .of_not_faults fun fault t h => ?_
  rw [faults_read_bind_iff] at h
  split at h
  · simp only [faults_write_bind_iff, faults_pure_iff] at h
  · simp only [faults_write_bind_iff, faults_pure_iff] at h

/-- New terms stop only where they are refused, before anything is written. -/
theorem stopsClean_setTerms (hquotas : s.SoundQuotas) (flow : Flow) (token : Address)
    (terms : Terms) (now : Timestamp) : (setTerms flow token terms now).StopsClean s bound :=
  .check_bind (hquotas.withTerms flow token terms now) fun ⟨_, _⟩ _ => .write_pure

end Call

/-- Storing a deposit stops only where what is locked or the messages cannot be counted. -/
theorem DepositOrder.aborted_of_faults_record {order : DepositOrder} {sender : Address}
    {calls : List TokenCall} (hcomplete : s.Complete)
    (h : (order.record sender calls).Faults s fault t) :
    fault = .aborted ∧ s.DepositAtBound order.binding.token order.amount := by
  obtain ⟨settings, hsettings⟩ := hcomplete.settings
  obtain ⟨nonce, hnonce⟩ := hcomplete.nextNonce
  simp only [record, Call.faults_check_bind_iff, Call.faults_putReserved_bind_iff,
    Call.faults_write_bind_iff, Call.faults_lift_bind_iff, Call.faults_pure_iff,
    orAbort_eq_error_iff, orAbort_eq_ok_iff, and_false, exists_false, or_false] at h
  rcases h with ⟨hmissing, _⟩ | ⟨_, _, ⟨⟨hlocked, hfault⟩, _⟩ | ⟨_, _, hrest⟩⟩
  · rw [Store.getSettings, hsettings] at hmissing
    cases hmissing
  · exact ⟨hfault.symm, Or.inl (size_le_of_add? hlocked)⟩
  · rcases hrest with ⟨hmissing, _⟩ | ⟨current, hcurrent, ⟨hnext, hfault⟩, _⟩
    · change Store.present .nextNonce s.nextNonce = .error fault at hmissing
      rw [hnonce] at hmissing
      cases hmissing
    · change Store.present .nextNonce s.nextNonce = .ok current at hcurrent
      rw [hnonce] at hcurrent
      obtain rfl := Except.ok.inj hcurrent
      exact ⟨hfault.symm, Or.inr ⟨nonce, hnonce, eq_size_of_add64? hnext⟩⟩

theorem DepositOrder.stopsClean_record (order : DepositOrder) (sender : Address)
    (calls : List TokenCall) (hcomplete : s.Complete) :
    (order.record sender calls).StopsClean s
      (s.DepositAtBound order.binding.token order.amount) := by
  intro fault t h
  exact Or.inr (aborted_of_faults_record hcomplete h)

/-- The bound of a deposit that was checked is that of the token it was made in. -/
theorem DepositOrder.stopsClean_checked {order : DepositOrder} {now : Timestamp} {token : Address}
    {amount : Amount} {recipient : String} (sender : Address) (calls : List TokenCall)
    (hcomplete : s.Complete) (hcheck : check now token amount recipient s = .ok order) :
    (order.record sender calls).StopsClean s (s.DepositAtBound token amount) := by
  obtain ⟨_, _, hbinding, _, _, hamount, _⟩ := check_eq_ok_iff.mp hcheck
  have hrecord := order.stopsClean_record sender calls hcomplete
  rwa [hcomplete.byName hbinding, hamount] at hrecord

/-- The tests of a commitment abort only where the next height cannot be counted. -/
theorem Store.exists_of_requireNext_aborted {now : Timestamp} {c : Commitment}
    (h : s.requireNext now c = .error .aborted) :
    ∃ last, s.lastHeight = some last ∧ last.toNat + 1 = UInt64.size := by
  rcases Except.bind_eq_error_iff.mp h with h | ⟨settings, _, h⟩
  · exact (NeverAborts.getSettings s h).elim
  · rcases Except.bind_eq_error_iff.mp h with h | ⟨expected, _, h⟩
    · unfold expectedHeight at h
      cases hlast : s.lastHeight with
      | none =>
        rw [hlast] at h
        cases h
      | some last =>
        rw [hlast] at h
        exact ⟨last, rfl, eq_size_of_add64? (orAbort_eq_error_iff.mp h).1⟩
    · have hrest := (NeverAborts.demand (c.height = expected) (.outOfOrder expected c.height)).bind
        fun _ _ => (NeverAborts.demand (c.time.nanos ≤ now.nanos)
          (.badCommitmentTime (.ahead c.time.seconds now.seconds))).bind
            fun _ _ => NeverAborts.requireNoEarlier c.time s
      exact (hrest h).elim

/-- A second that is not ahead of the clock can be counted in nanoseconds. -/
theorem Timestamp.exists_ofSeconds? {now : Timestamp} {seconds : UInt64}
    (hle : seconds ≤ now.seconds) : ∃ time, ofSeconds? seconds = some time := by
  have hseconds : seconds.toNat ≤ now.nanos.toNat / 1000000000 := by
    rw [← toNat_seconds]
    exact UInt64.le_iff_toNat_le.mp hle
  have hnanos := now.nanos.toNat_lt
  refine ⟨⟨.ofNat (seconds.toNat * 1000000000)⟩, ofSeconds?_eq_some_iff.mpr ?_⟩
  refine UInt64.toNat_ofNat_of_lt' ?_
  rw [UInt64.size]
  omega

/-- A commitment stops where it is refused, or at the last height, before anything is written. -/
theorem Call.stopsClean_commit (now : Timestamp) (c : Commitment) :
    (Call.commit now c).StopsClean s
      (∃ last, s.lastHeight = some last ∧ last.toNat + 1 = UInt64.size) := by
  intro fault t h
  simp only [commit, faults_check_bind_iff, faults_write_bind_iff, faults_pure_iff, and_false,
    exists_false, or_false] at h
  obtain ⟨hrefused, hsame⟩ := h
  by_cases haborted : fault = .aborted
  · subst haborted
    exact Or.inr ⟨rfl, Store.exists_of_requireNext_aborted hrefused⟩
  · exact Or.inl ⟨haborted, hsame⟩

/-- A withdrawal that has passed its checks is stored without a stop. -/
theorem WithdrawalOrder.not_faults_record {α : Type} {order : WithdrawalOrder} {receipt : α} :
    ¬(order.record >>= fun _ => pure receipt : Call α).Faults s fault t := by
  intro h
  simp only [record, bind_assoc, Call.faults_write_bind_iff, Call.faults_putReserved_bind_iff,
    Call.faults_pure_iff] at h

namespace Command

open Call.StopsClean

/-- A command that faults is refused before its first write, or it aborts at a bound. -/
theorem stopsClean [AddressRules] (hcomplete : s.Complete) (env : Env) (sender : Address)
    (command : Command) :
    (command.run env sender).StopsClean s (s.AtBound sender command) := by
  have hquotas := hcomplete.quotas
  cases command with
  | deposit token amount recipient =>
    refine check_bind (.requireActive .deposits s) fun _ _ => ?_
    refine lift_bind (.requireValid token) fun _ hvalid => ?_
    obtain rfl := eq_of_requireValid hvalid
    refine check_bind (hquotas.checkDeposit env.now token amount recipient) fun order hcheck => ?_
    refine lift_bind (.requireFunds env token sender amount) fun _ _ => ?_
    exact DepositOrder.stopsClean_checked sender _ hcomplete hcheck
  | receive owner amount notice =>
    refine check_bind (.requireActive .deposits s) fun _ _ => ?_
    refine lift_bind (.requireValid owner) fun owner _ => ?_
    refine lift_bind (.mapError _) fun ⟨recipient⟩ _ => ?_
    refine check_bind (hquotas.checkDeposit env.now sender amount recipient) fun order hcheck => ?_
    exact DepositOrder.stopsClean_checked owner _ hcomplete hcheck
  | withdraw m path height =>
    refine check_bind (.requireActive .withdrawals s) fun _ _ => ?_
    refine check_bind (.checkMessage env.now m path height s) fun _ _ => ?_
    refine check_bind (hquotas.checkRelease env.now m) fun order _ => ?_
    exact of_not_faults fun _ _ => WithdrawalOrder.not_faults_record
  | commit height root seconds =>
    refine check_bind (.requireRole .committer sender s) fun _ _ => ?_
    refine lift_bind (.requireWord root) fun _ _ => ?_
    refine lift_bind (.demand _ _) fun _ htime => ?_
    have hcounted := Timestamp.exists_ofSeconds? (demand_eq_ok_iff.mp htime)
    refine lift_bind (.orAbort hcounted) fun _ _ => ?_
    exact report (Call.stopsClean_commit env.now _)
  | grantRole role account =>
    refine check_bind (.requireRole .admin sender s) fun _ _ => ?_
    refine lift_bind (.requireValid account) fun _ hvalid => ?_
    obtain rfl := eq_of_requireValid hvalid
    exact report (Call.stopsClean_grant hcomplete.adminCount)
  | revokeRole role account =>
    refine check_bind (.requireRole .admin sender s) fun _ _ => ?_
    refine lift_bind (.requireValid account) fun _ _ => ?_
    exact report (Call.stopsClean_revoke hcomplete.adminCount)
  | pause subsystem =>
    refine check_bind (.requireAnyRole .pauser [.admin] sender s) fun _ _ => ?_
    exact report (Call.stopsClean_setPaused subsystem true)
  | unpause subsystem =>
    refine check_bind (.requireRole .admin sender s) fun _ _ => ?_
    exact report (Call.stopsClean_setPaused subsystem false)
  | bindAsset token asset tokenDecimals assetDecimals =>
    refine check_bind (.requireRole .admin sender s) fun _ _ => ?_
    refine lift_bind (.requireValid token) fun _ _ => ?_
    refine lift_bind (.requireWord asset) fun _ _ => ?_
    exact report (Call.stopsClean_bindAsset _)
  | setTerms token flow terms =>
    refine check_bind (.requireRole .admin sender s) fun _ _ => ?_
    refine lift_bind (.requireValid token) fun token _ => ?_
    exact report (Call.stopsClean_setTerms hquotas flow token terms env.now)
  | setFinalityDelay seconds =>
    refine check_bind (.requireRole .admin sender s) fun _ _ => ?_
    refine lift_bind (.demand _ _) fun _ _ => ?_
    exact check_bind (.getSettings s) fun _ _ => write_pure
  | setScheme scheme =>
    refine check_bind (.requireRole .admin sender s) fun _ _ => ?_
    exact check_bind (.getSettings s) fun _ _ => write_pure

end Command

/-- Setting a pause leaves the pauses written. -/
theorem Call.exists_pauses_of_setPaused {subsystem : Subsystem} {paused changed : Bool}
    (h : (setPaused subsystem paused).Yields s changed t) : ∃ pauses, t.pauses = some pauses := by
  simp only [setPaused, yields_check_bind_iff, Store.getPauses, Store.present_eq_ok_iff] at h
  obtain ⟨pauses, hpauses, h⟩ := h
  split at h
  · obtain ⟨_, rfl⟩ := yields_pure_iff.mp h
    exact ⟨pauses, hpauses⟩
  · rw [yields_write_bind_iff] at h
    obtain ⟨_, rfl⟩ := yields_pure_iff.mp h
    exact ⟨pauses.set subsystem paused, rfl⟩

/-- No step takes the pauses away, or the number of the next message. -/
theorem Step.keeps_items [AddressRules] {request : Request} {receipt : Receipt}
    (hstep : Step env s request receipt t)
    (h : (∃ pauses, s.pauses = some pauses) ∧ ∃ nonce, s.nextNonce = some nonce) :
    (∃ pauses, t.pauses = some pauses) ∧ ∃ nonce, t.nextNonce = some nonce := by
  cases hstep with
  | deposit _ _ _ hrecord | receive _ _ _ hrecord =>
    obtain ⟨_, next, rfl⟩ := DepositOrder.store_of_record hrecord
    exact ⟨h.1, next, rfl⟩
  | pause _ hpause _ | unpause _ hpause _ =>
    exact ⟨Call.exists_pauses_of_setPaused hpause, h.2⟩
  | _ => exact h

namespace Run

variable [AddressRules]

/-- In every run the store holds what the founding wrote. -/
theorem complete (h : Run g log s) : s.Complete := by
  have hitems : (∃ pauses, s.pauses = some pauses) ∧ ∃ nonce, s.nextNonce = some nonce := by
    induction h using rec_step with
    | found _ hfound =>
      obtain ⟨_, _, _, rfl⟩ := yields_found hfound
      exact ⟨⟨_, rfl⟩, _, rfl⟩
    | fault _ _ _ _ _ ih => exact ih
    | step _ _ hstep ih => exact hstep.keeps_items ih
  obtain ⟨⟨count, hcount, _⟩, _⟩ := h.hasAdmin
  obtain ⟨_, _, hsettings⟩ := h.settings_eq
  exact ⟨⟨_, hsettings⟩, hitems.1, ⟨count, hcount⟩, hitems.2, h.boundByName, h.quota_sound⟩

/-- In every run, a command that is refused leaves the store as it found it, although nothing takes
back what it wrote: it is refused before it writes. -/
theorem store_of_rejected {why : Rejection} (h : Run g log s)
    (hrejected : (command.run env sender).outcome s = (.error (.rejected why), t)) : t = s := by
  rcases command.stopsClean h.complete env sender _ _ hrejected with ⟨_, hsame⟩ | ⟨haborted, _⟩
  · exact hsame.symm
  · cases haborted

end Run

namespace Sample

/-- A block in which every account has only twenty-four left of every token. -/
def spent : Env := { Sample.env with
  tokens := { Sample.env.tokens with
    balance := fun _ _ => .ok (balanceToJson ⟨24, by decide⟩).render } }

/-- A deposit that the cap would hold, of more than its sender has. -/
def overdrawn : Except Fault Receipt × Store :=
  ((Command.deposit "cash" ⟨25, by decide⟩ Word256.zero.toHex).run spent "alice").outcome capped.2

end Sample

/-- The deposit is refused after its quota was checked, and the quota is as before. -/
theorem Run.store_of_rejected_sample :
    Run Sample.genesis Sample.capped.1 Sample.capped.2 ∧
      Sample.overdrawn.1 = .error (.rejected (.transferFailed
        (.balanceBelow ⟨24, by decide⟩ ⟨25, by decide⟩))) ∧
      Sample.overdrawn.2 = Sample.capped.2 := by
  have hresult : Sample.overdrawn.1 = .error (.rejected (.transferFailed
      (.balanceBelow ⟨24, by decide⟩ ⟨25, by decide⟩))) := by decide +kernel
  have hrejected : Sample.overdrawn = (.error (.rejected _), Sample.overdrawn.2) :=
    Prod.ext hresult rfl
  exact ⟨Sample.run_capped, hresult, store_of_rejected Sample.run_capped hrejected⟩

/-- Rolling a quota forward divides by a duration that is not zero, to an epoch that has a number
and starts at a point in time. -/
structure Quota.InRange (q : Quota) : Prop where
  exists_rolled : ∀ now, ∃ r, q.rolled? now = some r
  duration_ne : q.nextTerms.duration ≠ 0
  epoch_lt : ∀ now : Timestamp, q.ending ≤ now.seconds.toNat →
    q.epoch.toNat + 1 + q.passed now < UInt64.size
  start_lt : ∀ now : Timestamp, q.ending ≤ now.seconds.toNat →
    (q.ending + q.passed now * q.nextTerms.duration.toNat) * 1000000000 < UInt64.size

/-- What a sound quota is rolled to is in range, since it is a quota. -/
theorem Quota.Sound.inRange {q : Quota} (h : q.Sound) : q.InRange where
  exists_rolled := h.exists_rolled
  duration_ne := h.nextTerms_duration_ne
  epoch_lt now hended := by
    obtain ⟨r, hr⟩ := h.exists_rolled now
    obtain ⟨_, hepoch, _⟩ := (rolled?_eq_some_iff_of_le hended).mp hr
    rw [← hepoch]
    exact r.epoch.toNat_lt_size
  start_lt now hended := by
    obtain ⟨r, hr⟩ := h.exists_rolled now
    obtain ⟨_, _, hstart, _⟩ := (rolled?_eq_some_iff_of_le hended).mp hr
    rw [← hstart]
    exact r.start.nanos.toNat_lt_size

/-- Nothing that is asked of a bridge aborts, but for commands at a bound. -/
structure Store.AbortsAtBounds [AddressRules] (s : Store) : Prop where
  answer : ∀ now (question : Question), question.answer now s ≠ .error .aborted
  upgrade : ∀ env u, (((Request.upgrade u).run env).outcome s).1 ≠ .error .aborted
  command : ∀ env sender (command : Command),
    ((command.run env sender).outcome s).1 = .error .aborted → s.AtBound sender command
  /-- A withdrawal is not bounded by anything that is counted. -/
  withdraw : ∀ env sender m path height,
    (((Command.withdraw m path height).run env sender).outcome s).1 ≠ .error .aborted
  /-- Taking what is paid out from what is locked leaves no less than nothing. -/
  released : ∀ now m order, WithdrawalOrder.checkRelease now m s = .ok order →
    order.amount ≤ s.lockedOf order.token
  quotas : ∀ flow token q, s.quota? flow token = some q → q.InRange
  /-- Amounts are multiplied by an amount, and divided by one that is not zero. -/
  factors : ∀ source target, decimalGap source target ≤ maxDecimalGap →
    0 < Nat.pow 10 (decimalGap source target) ∧ Nat.pow 10 (decimalGap source target) < Amount.size

/-- In every run, questions and upgrades never abort, and commands abort only at a bound. -/
theorem Run.aborts_at_bounds [AddressRules] (h : Run g log s) : s.AbortsAtBounds := by
  have hcomplete := h.complete
  have hcommand : ∀ env sender (command : Command),
      ((command.run env sender).outcome s).1 = .error .aborted → s.AtBound sender command := by
    intro env sender command haborted
    rcases command.stopsClean hcomplete env sender _ _ (Prod.ext haborted rfl) with
      ⟨hne, _⟩ | ⟨_, hbound⟩
    · exact (hne rfl).elim
    · exact hbound
  constructor
  case answer => exact hcomplete.quotas.answer
  case upgrade =>
    intro env u haborted
    have hfaults : TokenBridge.upgrade.Faults s .aborted _ := Prod.ext haborted rfl
    simp only [TokenBridge.upgrade, stamp, Call.faults_check_bind_iff, Call.faults_lift_bind_iff,
      Call.faults_write_bind_iff, Call.faults_pure_iff, and_false, exists_false, or_false]
      at hfaults
    rcases hfaults with ⟨hmissing, _⟩ | ⟨stored, _, hrefused, _⟩
    · exact NeverAborts.getVersion s hmissing
    · exact NeverAborts.requireUpgradable stored hrefused
  case command => exact hcommand
  case withdraw =>
    intro env sender m path height haborted
    exact hcommand env sender (.withdraw m path height) haborted
  case released =>
    intro now m order hrelease
    obtain ⟨_, _, _, _, _, _, _, _, hlocked, htoken, _⟩ :=
      WithdrawalOrder.checkRelease_eq_ok_iff.mp hrelease
    rw [htoken]
    exact hlocked
  case quotas =>
    intro flow token q hq
    exact (hcomplete.quotas flow token q hq).inRange
  case factors =>
    intro source target hgap
    exact pow_lt_size hgap

namespace Sample

/-- A bridge whose first commitment has the last height that there is. -/
def lastHeightGenesis : Genesis := { genesis with startHeight := 0xffffffffffffffff }

/-- That commitment. -/
def lastCommit : Request := .command "root" (.commit 0xffffffffffffffff Word256.zero.bytes 1)

/-- The log of a run that makes it, and the store in the end. -/
def allCommitted : List Entry × Store :=
  ((found lastHeightGenesis).transact .empty).2.play [(Sample.env, lastCommit)]

/-- Another commitment. -/
def commitAfterLast : Command := .commit 0 Word256.zero.bytes 1

end Sample

/-- There is no height after the last one. -/
theorem Run.aborts_at_bounds_sample :
    Run Sample.lastHeightGenesis Sample.allCommitted.1 Sample.allCommitted.2 ∧
      Sample.allCommitted.2.AbortsAtBounds ∧
      ((Sample.commitAfterLast.run Sample.env "root").outcome Sample.allCommitted.2).1 =
        .error .aborted ∧
      Sample.allCommitted.2.AtBound "root" Sample.commitAfterLast := by
  have hrun : Run Sample.lastHeightGenesis Sample.allCommitted.1 Sample.allCommitted.2 :=
    Run.of_found (by decide +kernel) [(Sample.env, Sample.lastCommit)] (by decide)
  have hbounds := aborts_at_bounds hrun
  have haborted : ((Sample.commitAfterLast.run Sample.env "root").outcome Sample.allCommitted.2).1 =
      .error .aborted := by decide +kernel
  exact ⟨hrun, hbounds, haborted, hbounds.command Sample.env "root" _ haborted⟩

end TokenBridge

import TokenBridge.Proofs.Atomicity
import TokenBridge.Proofs.Backing
import TokenBridge.Proofs.Independence
import TokenBridge.Proofs.Replay

/-!
# A pause holds

A paused subsystem stays paused until an admin lifts the pause, whatever else is requested. As long
as it is paused every one of its commands is refused for that reason before anything else is looked
at, so what only the subsystem moves stands still. Lifting the pause undoes it without a trace.
-/

namespace TokenBridge

variable {g : Genesis} {log : List Entry} {env : Env} {s t : Store} {request : Request}
  {receipt : Receipt} {sender : Address} {command : Command} {subsystem : Subsystem}

namespace Store

/-- The subsystem is paused. -/
def Paused (subsystem : Subsystem) (s : Store) : Prop :=
  ∃ pauses, s.pauses = some pauses ∧ pauses.holds subsystem = true

/-- A paused subsystem does not work, and says why. -/
theorem requireActive_of_paused (h : s.Paused subsystem) :
    s.requireActive subsystem = .error (.rejected (.paused subsystem)) := by
  obtain ⟨pauses, hpauses, hholds⟩ := h
  unfold requireActive getPauses
  rw [hpauses]
  exact if_neg (by simp [hholds])

end Store

/-- An admin lifted the pause of a subsystem. -/
def Entry.lifts (subsystem : Subsystem) (e : Entry) : Bool :=
  match e.request, e.result with
  | .command sender (.unpause lifted), .ok _ =>
    lifted = subsystem ∧ e.after.holdsRole .admin sender = true
  | _, _ => false

/-- The flow that a subsystem moves. -/
def Subsystem.flow : Subsystem → Flow
  | deposits => .deposit
  | withdrawals => .withdrawal

namespace Store

/-- What has moved in a flow of a token in the epoch of its quota, if it has one. -/
def usedOf (flow : Flow) (token : Address) (s : Store) : Amount :=
  (s.quota? flow token).elim .zero Quota.used

/-- No message was announced from the first store to the second, and of no token is more locked or
more charged to deposits. -/
structure NoDeposits (s t : Store) : Prop where
  nextNonce_eq : t.nextNonce = s.nextNonce
  used_le : ∀ token, t.usedOf .deposit token ≤ s.usedOf .deposit token
  locked_le : ∀ token, t.lockedOf token ≤ s.lockedOf token

/-- No message was redeemed from the first store to the second, and of no token is less locked. -/
structure NoWithdrawals (s t : Store) : Prop where
  mem_redeemed_iff : ∀ id, id ∈ t.redeemed ↔ id ∈ s.redeemed
  le_locked : ∀ token, s.lockedOf token ≤ t.lockedOf token

end Store

/-- From the first store to the second, nothing was moved by a subsystem. -/
def Subsystem.Still : Subsystem → Store → Store → Prop
  | deposits => Store.NoDeposits
  | withdrawals => Store.NoWithdrawals

namespace Subsystem.Still

variable {u : Store}

theorem refl (subsystem : Subsystem) (s : Store) : subsystem.Still s s := by
  cases subsystem with
  | deposits => exact ⟨rfl, fun _ => Nat.le_refl _, fun _ => Nat.le_refl _⟩
  | withdrawals => exact ⟨fun _ => Iff.rfl, fun _ => Nat.le_refl _⟩

theorem trans (h : subsystem.Still s t) (h' : subsystem.Still t u) : subsystem.Still s u := by
  cases subsystem with
  | deposits =>
    exact ⟨h'.nextNonce_eq.trans h.nextNonce_eq,
      fun token => Nat.le_trans (h'.used_le token) (h.used_le token),
      fun token => Nat.le_trans (h'.locked_le token) (h.locked_le token)⟩
  | withdrawals =>
    exact ⟨fun id => (h'.mem_redeemed_iff id).trans (h.mem_redeemed_iff id),
      fun token => Nat.le_trans (h.le_locked token) (h'.le_locked token)⟩

end Subsystem.Still

/-- A quota that is not charged has no more used than before. -/
theorem QuotaStep.used_le {now : Timestamp} {quota after : Option Quota} {terms : Option Terms}
    (h : QuotaStep now quota none terms after) :
    after.elim .zero Quota.used ≤ quota.elim .zero Quota.used := by
  cases h with
  | keep => exact Nat.le_refl _
  | opened => exact Nat.zero_le _
  | scheduled terms hrolled =>
    rcases Quota.eq_or_epoch_lt_of_rolled? hrolled with rfl | ⟨_, hused⟩
    · exact Nat.le_refl _
    · change Quota.used _ ≤ _
      rw [hused]
      exact Nat.zero_le _

/-- A command moves nothing in the flow of a subsystem that is not its own. -/
theorem Entry.moved?_eq_none (h : command.subsystem? ≠ some subsystem) (token : Address) :
    moved? subsystem.flow token ⟨env, .command sender command, .ok receipt, t⟩ = none := by
  cases command with
  | deposit | receive =>
    cases subsystem with
    | deposits => exact absurd rfl h
    | withdrawals => rfl
  | withdraw =>
    cases subsystem with
    | deposits => rfl
    | withdrawals => exact absurd rfl h
  | _ => rfl

/-- Only withdrawals redeem messages. -/
theorem Entry.redeems?_eq_none (h : command.subsystem? ≠ some .withdrawals) :
    redeems? ⟨env, .command sender command, .ok receipt, t⟩ = none := by
  cases command with
  | withdraw => exact absurd rfl h
  | _ => rfl

namespace Step

variable [AddressRules]

/-- A paused subsystem takes no step. -/
theorem subsystem?_ne (hstep : Step env s (.command sender command) receipt t)
    (hpaused : s.Paused subsystem) : command.subsystem? ≠ some subsystem := by
  have hrefused := Store.requireActive_of_paused hpaused
  intro hcommand
  cases hstep with
  | deposit hactive | receive hactive | withdraw hactive =>
    obtain rfl := Option.some.inj hcommand
    rw [hactive] at hrefused
    cases hrefused
  | _ => cases hcommand

/-- While a subsystem is paused, nothing moves in its flow. -/
theorem moved?_eq_none (hstep : Step env s request receipt t) (hpaused : s.Paused subsystem)
    (token : Address) :
    Entry.moved? subsystem.flow token ⟨env, request, .ok receipt, t⟩ = none := by
  cases request with
  | command sender command => exact Entry.moved?_eq_none (hstep.subsystem?_ne hpaused) token
  | _ => rfl

/-- A step leaves a pause in force unless an admin lifts it. -/
theorem paused_of_not_lifts (hstep : Step env s request receipt t) (hpaused : s.Paused subsystem)
    (hkept : Entry.lifts subsystem ⟨env, request, .ok receipt, t⟩ = false) :
    t.Paused subsystem := by
  obtain ⟨pauses, hpauses, hholds⟩ := hpaused
  cases hstep with
  | deposit _ _ _ hrecord | receive _ _ _ hrecord =>
    obtain ⟨_, _, rfl⟩ := DepositOrder.store_of_record hrecord
    exact ⟨pauses, hpauses, hholds⟩
  | pause _ hpause =>
    obtain ⟨_, _, _, hafter⟩ := Call.yields_setPaused_iff.mp hpause
    rw [← hafter]
    refine ⟨_, Option.map_eq_some_iff.mpr ⟨pauses, hpauses, rfl⟩, ?_⟩
    rw [Pauses.holds_set, hholds, ite_self]
  | @unpause _ lifted _ _ _ hrole hpause =>
    -- The sender is an admin, so it is another pause that was lifted.
    have hother : lifted ≠ subsystem := by
      intro hsame
      exact of_decide_eq_false hkept ⟨hsame, hrole⟩
    obtain ⟨_, _, _, hafter⟩ := Call.yields_setPaused_iff.mp hpause
    rw [← hafter]
    refine ⟨_, Option.map_eq_some_iff.mpr ⟨pauses, hpauses, rfl⟩, ?_⟩
    rw [Pauses.holds_set, if_neg hother, hholds]
  | _ => exact ⟨pauses, hpauses, hholds⟩

/-- While deposits are paused, a step moves nothing in. -/
theorem noDeposits (hstep : Step env s request receipt t) (hbound : s.BoundByName)
    (hpaused : s.Paused .deposits) : s.NoDeposits t := by
  have hmoved : ∀ token, Entry.moved? .deposit token ⟨env, request, .ok receipt, t⟩ = none :=
    hstep.moved?_eq_none hpaused
  constructor
  case nextNonce_eq =>
    apply hstep.nextNonce_eq
    by_contra hdeposit
    obtain ⟨token, amount, hsome⟩ := Entry.exists_moved?_of_isDeposit (eq_true_of_ne_false hdeposit)
    cases (hmoved token).symm.trans hsome
  case used_le =>
    intro token
    have hquota := hstep.quotaStep .deposit token
    rw [Entry.charge?, hmoved, Option.bind_none] at hquota
    exact hquota.used_le
  case locked_le =>
    intro token
    have hlocked := hstep.locked_add_moved hbound token
    simp only [Entry.moved, hmoved, Option.elim_none] at hlocked
    exact Amount.le_def.mpr (by omega)

/-- While withdrawals are paused, a step moves nothing out. -/
theorem noWithdrawals (hstep : Step env s request receipt t) (hbound : s.BoundByName)
    (hpaused : s.Paused .withdrawals) : s.NoWithdrawals t := by
  have hmoved : ∀ token, Entry.moved? .withdrawal token ⟨env, request, .ok receipt, t⟩ = none :=
    hstep.moved?_eq_none hpaused
  constructor
  case mem_redeemed_iff =>
    intro id
    have hnone : Entry.redeems? ⟨env, request, .ok receipt, t⟩ = none := by
      cases request with
      | command sender command => exact Entry.redeems?_eq_none (hstep.subsystem?_ne hpaused)
      | _ => rfl
    rw [hstep.mem_redeemed_iff, hnone]
    exact or_iff_left nofun
  case le_locked =>
    intro token
    have hlocked := hstep.locked_add_moved hbound token
    simp only [Entry.moved, hmoved, Option.elim_none] at hlocked
    exact Amount.le_def.mpr (by omega)

/-- A step moves nothing in a paused subsystem. -/
theorem still (hstep : Step env s request receipt t) (hbound : s.BoundByName)
    (hpaused : s.Paused subsystem) : subsystem.Still s t := by
  cases subsystem with
  | deposits => exact hstep.noDeposits hbound hpaused
  | withdrawals => exact hstep.noWithdrawals hbound hpaused

end Step

/-- A command of a paused subsystem is refused for the pause, whatever its arguments are. -/
theorem Command.transact_of_paused [AddressRules] (hpaused : s.Paused subsystem)
    (hcommand : command.subsystem? = some subsystem) :
    ((Request.command sender command).run env).transact s =
      (.error (.rejected (.paused subsystem)), s) := by
  refine Call.transact_eq_error_iff.mpr ⟨⟨s, ?_⟩, rfl⟩
  have hrefused := Store.requireActive_of_paused hpaused
  cases command with
  | deposit | receive | withdraw =>
    obtain rfl := Option.some.inj hcommand
    exact Call.faults_check_bind_iff.mpr (Or.inl ⟨hrefused, rfl⟩)
  | _ => cases hcommand

/-- Later requests that are made one after another without an admin lifting the pause. -/
structure Store.Unlifted [AddressRules] (subsystem : Subsystem) (s : Store)
    (requests : List (Env × Request)) :
    Prop where
  later : ∀ r ∈ requests, r.2.isLater = true
  kept : ∀ e ∈ (s.play requests).1, e.lifts subsystem = false

/-- In the second store a subsystem is paused, and refuses to work; since the first store it has
moved nothing. -/
structure Held [AddressRules] (subsystem : Subsystem) (s t : Store) : Prop where
  paused : t.Paused subsystem
  refuses : ∀ env sender command, command.subsystem? = some subsystem →
    ((Request.command sender command).run env).transact t =
      (.error (.rejected (.paused subsystem)), t)
  still : subsystem.Still s t

namespace Run

variable [AddressRules]

/-- In every run, a request moves nothing in a paused subsystem, and leaves the pause in force
unless an admin lifts it. -/
theorem paused_of_transact {result : Except Fault Receipt} (h : Run g log s)
    (hpaused : s.Paused subsystem) (hlater : request.isLater = true)
    (hended : (request.run env).transact s = (result, t))
    (hkept : Entry.lifts subsystem ⟨env, request, result, t⟩ = false) :
    t.Paused subsystem ∧ subsystem.Still s t := by
  cases result with
  | error reason =>
    obtain rfl := Call.store_of_transact_error hended
    exact ⟨hpaused, .refl subsystem t⟩
  | ok receipt =>
    have hstep := Step.of_yields hlater (Call.transact_eq_ok_iff.mp hended)
    exact ⟨hstep.paused_of_not_lifts hpaused hkept, hstep.still h.boundByName hpaused⟩

/-- In every run, a pause holds through all requests until an admin lifts it. -/
theorem held (h : Run g log s) (hpaused : s.Paused subsystem) {requests : List (Env × Request)}
    (hunlifted : s.Unlifted subsystem requests) : Held subsystem s (s.play requests).2 := by
  induction requests generalizing log s with
  | nil => exact ⟨hpaused, fun _ _ _ => Command.transact_of_paused hpaused, .refl subsystem s⟩
  | cons r rest ih =>
    obtain ⟨env, request⟩ := r
    have hlater := hunlifted.later _ List.mem_cons_self
    have hkept := hunlifted.kept _ List.mem_cons_self
    obtain ⟨hpaused', hstill⟩ := h.paused_of_transact hpaused hlater rfl hkept
    have hrest := ih (h.snoc env request hlater) hpaused'
      ⟨fun r hr => hunlifted.later r (List.mem_cons_of_mem _ hr),
        fun e he => hunlifted.kept e (List.mem_cons_of_mem _ he)⟩
    exact ⟨hrest.paused, hrest.refuses, hstill.trans hrest.still⟩

end Run

namespace Store

/-- Lifting a pause that was not in force before leaves no trace of it. -/
theorem withPause_withPause_of_not_paused (hactive : ¬s.Paused subsystem) :
    (s.withPause subsystem true).withPause subsystem false = s := by
  have hsame : (s.pauses.map (·.set subsystem true)).map (·.set subsystem false) = s.pauses := by
    cases hpauses : s.pauses with
    | none => rfl
    | some pauses =>
      have hholds : pauses.holds subsystem = false := by
        by_contra hholds
        exact hactive ⟨pauses, hpauses, eq_true_of_ne_false hholds⟩
      rw [Option.map_some, Option.map_some, Pauses.set_set, ← hholds, Pauses.set_holds]
  unfold withPause
  rw [hsame]

end Store

/-- A command to pause a subsystem that succeeds does that and no more. -/
theorem Command.store_of_pause [AddressRules]
    (h : ((Request.command sender (.pause subsystem)).run env).transact s = (.ok receipt, t)) :
    t = s.withPause subsystem true := by
  cases Step.of_yields rfl (Call.transact_eq_ok_iff.mp h) with
  | pause _ hpause =>
    obtain ⟨_, _, _, hafter⟩ := Call.yields_setPaused_iff.mp hpause
    exact hafter.symm

/-- A command to lift the pause of a subsystem that succeeds does that and no more. -/
theorem Command.store_of_unpause [AddressRules]
    (h : ((Request.command sender (.unpause subsystem)).run env).transact s = (.ok receipt, t)) :
    t = s.withPause subsystem false := by
  cases Step.of_yields rfl (Call.transact_eq_ok_iff.mp h) with
  | unpause _ hpause =>
    obtain ⟨_, _, _, hafter⟩ := Call.yields_setPaused_iff.mp hpause
    exact hafter.symm

/-- A pause can be set by those who pass the test in front. -/
theorem Call.exists_transact_setPaused {test : Store → Except Fault Unit}
    {report : Bool → Receipt} {pauses : Pauses} (hpauses : s.pauses = some pauses)
    (htest : test s = .ok ()) (subsystem : Subsystem) (paused : Bool) :
    ∃ receipt, Call.transact (do
        check test
        let changed ← setPaused subsystem paused
        return report changed) s = (.ok receipt, s.withPause subsystem paused) := by
  have hset : (setPaused subsystem paused).Yields s (pauses.holds subsystem != paused)
      (s.withPause subsystem paused) := outcome_setPaused hpauses
  refine ⟨report (pauses.holds subsystem != paused), transact_eq_ok_iff.mpr ?_⟩
  refine yields_check_bind_iff.mpr ⟨(), htest, ?_⟩
  exact yields_bind_iff.mpr ⟨_, _, hset, yields_pure_iff.mpr ⟨rfl, rfl⟩⟩

/-- What it means for a bridge that one of its subsystems can be paused. -/
structure Pausable [AddressRules] (subsystem : Subsystem) (s : Store) : Prop where
  /-- A pause holds the subsystem until an admin lifts it. -/
  held : s.Paused subsystem → ∀ requests, s.Unlifted subsystem requests →
    Held subsystem s (s.play requests).2
  /-- To other requests it does not matter, however many there are. -/
  others : ∀ requests, (∀ r ∈ requests, r.2.heeds subsystem = false) → ∀ paused,
    ((s.withPause subsystem paused).play requests).1.map Entry.result =
        (s.play requests).1.map Entry.result ∧
      ((s.withPause subsystem paused).play requests).2 =
        (s.play requests).2.withPause subsystem paused
  /-- Pausers and admins can pause the subsystem, and admins can lift the pause. -/
  permitted : ∀ env env' sender sender',
    s.holdsRole .pauser sender = true ∨ s.holdsRole .admin sender = true →
    s.holdsRole .admin sender' = true →
    ∃ receipt receipt' m t,
      ((Request.command sender (.pause subsystem)).run env).transact s = (.ok receipt, m) ∧
      ((Request.command sender' (.unpause subsystem)).run env').transact m = (.ok receipt', t)
  /-- If the subsystem was not paused before, that restores the store. -/
  restored : ¬s.Paused subsystem → ∀ env env' sender sender' receipt receipt' m t,
    ((Request.command sender (.pause subsystem)).run env).transact s = (.ok receipt, m) →
    ((Request.command sender' (.unpause subsystem)).run env').transact m = (.ok receipt', t) →
    t = s

/-- In every run, each subsystem can be paused. -/
theorem Run.pausable [AddressRules] (h : Run g log s) (subsystem : Subsystem) :
    Pausable subsystem s := by
  constructor
  case held =>
    intro hpaused requests hunlifted
    exact h.held hpaused hunlifted
  case others =>
    intro requests hother paused
    exact Store.play_withPause hother s paused
  case permitted =>
    intro env env' sender sender' hrole hadmin
    obtain ⟨pauses, hpauses⟩ := h.complete.pauses
    have hallowed : s.requireAnyRole [.pauser, .admin] sender = .ok () :=
      if_pos (by simpa using hrole)
    obtain ⟨receipt, hpause⟩ := Call.exists_transact_setPaused hpauses hallowed subsystem true
    have hset : (s.withPause subsystem true).pauses = some (pauses.set subsystem true) := by
      rw [Store.withPause, hpauses, Option.map_some]
    have hadmin' : (s.withPause subsystem true).requireRole .admin sender' = .ok () :=
      demand_eq_ok_iff.mpr hadmin
    obtain ⟨receipt', hunpause⟩ := Call.exists_transact_setPaused hset hadmin' subsystem false
    exact ⟨receipt, receipt', _, _, hpause, hunpause⟩
  case restored =>
    intro hactive env env' sender sender' receipt receipt' m t hpause hunpause
    rw [Command.store_of_unpause hunpause, Command.store_of_pause hpause,
      Store.withPause_withPause_of_not_paused hactive]

namespace Sample

/-- The short run up to its withdrawal, after which deposits are paused. -/
def pausing : List Request := preparations ++ [.command "root" (.pause .deposits)]

def depositsPaused : List Entry × Store :=
  ((found genesis).transact .empty).2.play (pausing.map (Sample.env, ·))

theorem run_depositsPaused : Run genesis depositsPaused.1 depositsPaused.2 :=
  run_of_later pausing (by decide)

/-- Alice wants to deposit, Bob to lift the pause, and then to withdraw. -/
def attempts : List (Env × Request) := [
  (Sample.env, .command "alice" (.deposit "cash" ⟨12, by decide⟩ Word256.zero.toHex)),
  (Sample.env, .command "bob" (.unpause .deposits)),
  (Sample.env, withdrawal)]

end Sample

/-- While deposits are paused, only Bob's withdrawal succeeds. -/
theorem Run.pausable_sample :
    Run Sample.genesis Sample.depositsPaused.1 Sample.depositsPaused.2 ∧
      Sample.depositsPaused.2.Paused .deposits ∧
      Sample.depositsPaused.2.Unlifted .deposits Sample.attempts ∧
      (Sample.depositsPaused.2.play Sample.attempts).1.map (·.result.isOk) = [false, false, true] ∧
      Held .deposits Sample.depositsPaused.2 (Sample.depositsPaused.2.play Sample.attempts).2 ∧
      Pausable .deposits Sample.depositsPaused.2 := by
  have hplayed : Sample.depositsPaused.2.pauses = some ⟨true, false⟩ ∧
      (∀ e ∈ (Sample.depositsPaused.2.play Sample.attempts).1, e.lifts .deposits = false) ∧
      (Sample.depositsPaused.2.play Sample.attempts).1.map (·.result.isOk) =
        [false, false, true] := by
    decide +kernel
  obtain ⟨hpauses, hkept, hresults⟩ := hplayed
  have hpaused : Sample.depositsPaused.2.Paused .deposits := ⟨_, hpauses, rfl⟩
  have hunlifted : Sample.depositsPaused.2.Unlifted .deposits Sample.attempts := ⟨by decide, hkept⟩
  have hpausable := Run.pausable Sample.run_depositsPaused .deposits
  exact ⟨Sample.run_depositsPaused, hpaused, hunlifted, hresults,
    hpausable.held hpaused Sample.attempts hunlifted, hpausable⟩

end TokenBridge

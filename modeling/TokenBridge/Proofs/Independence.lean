import TokenBridge.Proofs.Announcement

/-!
# Independence of the subsystems

A pause matters to the commands of the subsystem that is paused, and to the commands that set it.
Any other request neither looks at the pause nor writes it: it ends alike, and leaves the same store
but for the pause, whether the subsystem is paused or not.
-/

namespace TokenBridge

variable {α β : Type} {env : Env} {s t : Store} {request : Request} {command : Command}
  {subsystem : Subsystem} {pauses : Pauses} {paused : Bool}

namespace Pauses

theorem set_holds (p : Pauses) (subsystem : Subsystem) :
    p.set subsystem (p.holds subsystem) = p := by
  cases subsystem with
  | deposits => rfl
  | withdrawals => rfl

theorem set_set (p : Pauses) (subsystem : Subsystem) (first second : Bool) :
    (p.set subsystem first).set subsystem second = p.set subsystem second := by
  cases subsystem with
  | deposits => rfl
  | withdrawals => rfl

theorem set_comm (p : Pauses) {subsystem other : Subsystem} (h : subsystem ≠ other)
    (paused paused' : Bool) :
    (p.set subsystem paused).set other paused' = (p.set other paused').set subsystem paused := by
  cases subsystem with
  | deposits =>
    cases other with
    | deposits => cases h rfl
    | withdrawals => rfl
  | withdrawals =>
    cases other with
    | deposits => rfl
    | withdrawals => cases h rfl

end Pauses

namespace Store

/-- The store with the pause of a subsystem set or lifted. -/
def withPause (subsystem : Subsystem) (paused : Bool) (s : Store) : Store :=
  { s with pauses := s.pauses.map (·.set subsystem paused) }

/-- Only its own pause keeps a subsystem from working. -/
theorem requireActive_withPause {other : Subsystem} (h : subsystem ≠ other) (paused : Bool)
    (s : Store) : (s.withPause subsystem paused).requireActive other = s.requireActive other := by
  unfold requireActive getPauses withPause
  cases s.pauses with
  | none => rfl
  | some pauses =>
    simp [present, bind, Except.bind, h]

end Store

namespace Call

/-- Pausing sets the pause, and tells whether that changes anything. -/
theorem outcome_setPaused (h : s.pauses = some pauses) :
    (setPaused subsystem paused).outcome s =
      (.ok (pauses.holds subsystem != paused), s.withPause subsystem paused) := by
  have hread : s.getPauses = .ok pauses := Store.present_eq_ok_iff.mpr h
  have hafter : s.withPause subsystem paused =
      { s with pauses := some (pauses.set subsystem paused) } := by
    rw [Store.withPause, h, Option.map_some]
  rw [hafter]
  unfold setPaused
  by_cases hsame : pauses.holds subsystem = paused
  · subst hsame
    simp only [outcome_bind, outcome_check, hread, ↓reduceIte, outcome_pure, pauses.set_holds,
      bne_self_eq_false]
    rw [← h]
  · simp only [outcome_bind, outcome_check, hread, if_neg hsame, outcome_write, outcome_pure,
      bne_iff_ne.mpr hsame]

/-- A pause can be set wherever the pauses can be read. -/
theorem yields_setPaused_iff {changed : Bool} :
    (setPaused subsystem paused).Yields s changed t ↔
      ∃ pauses, s.pauses = some pauses ∧ (pauses.holds subsystem != paused) = changed ∧
        s.withPause subsystem paused = t := by
  cases hpauses : s.pauses with
  | none =>
    simp [setPaused, yields_check_bind_iff, Store.getPauses, hpauses, Store.present]
  | some pauses =>
    simp [Yields, outcome_setPaused hpauses]

/-- From a store on, the call neither looks at what is changed nor writes it. -/
def IgnoresAt (change : Store → Store) (call : Call α) (s : Store) : Prop :=
  call.outcome (change s) = ((call.outcome s).1, change (call.outcome s).2)

namespace IgnoresAt

variable {change : Store → Store}

/-- The second call goes on from what the first one left, if the first one comes to an end. -/
theorem bind {first : Call α} {next : α → Call β} (hfirst : IgnoresAt change first s)
    (hnext : ∀ a m, first.outcome s = (.ok a, m) → IgnoresAt change (next a) m) :
    IgnoresAt change (first >>= next) s := by
  unfold IgnoresAt
  rw [outcome_bind, outcome_bind, hfirst]
  rcases hended : first.outcome s with ⟨result, m⟩
  cases result with
  | error fault => rfl
  | ok a => exact hnext a m hended

/-- A test in front may not look at what is changed. What follows matters where the test passes. -/
theorem check_bind {test : Store → Except Fault α} {next : α → Call β}
    (h : test (change s) = test s) (hnext : ∀ a, test s = .ok a → IgnoresAt change (next a) s) :
    IgnoresAt change (check test >>= next) s := by
  refine bind ?_ ?_
  · rw [IgnoresAt, outcome_check, outcome_check, h]
  · intro a m hended
    obtain ⟨htest, rfl⟩ := Prod.mk.inj hended
    exact hnext a htest

theorem lift_bind {result : Except Fault α} {next : α → Call β}
    (hnext : ∀ a, result = .ok a → IgnoresAt change (next a) s) :
    IgnoresAt change (lift result >>= next) s :=
  check_bind rfl hnext

/-- Taking writes back makes no difference. -/
theorem transact {call : Call α} (h : IgnoresAt change call s) :
    call.transact (change s) = ((call.transact s).1, change (call.transact s).2) := by
  unfold Call.transact
  rw [h]
  rcases call.outcome s with ⟨result, m⟩
  cases result with
  | error fault => rfl
  | ok a => rfl

end IgnoresAt

/-- The call neither looks at what is changed nor writes it, whatever the store is. -/
def Ignores (change : Store → Store) (call : Call α) : Prop := ∀ s, IgnoresAt change call s

namespace Ignores

variable {change : Store → Store}

theorem pure (a : α) : Ignores change (pure a : Call α) := fun _ => rfl

/-- The second call starts from stores that differ as those of the first one did. -/
theorem bind {first : Call α} {next : α → Call β} (hfirst : Ignores change first)
    (hnext : ∀ a, Ignores change (next a)) : Ignores change (first >>= next) :=
  fun s => IgnoresAt.bind (hfirst s) fun a m _ => hnext a m

/-- A test in front may not look at what is changed. -/
theorem check_bind {test : Store → Except Fault α} {next : α → Call β}
    (h : ∀ s, test (change s) = test s) (hnext : ∀ a, Ignores change (next a)) :
    Ignores change (check test >>= next) :=
  fun s => IgnoresAt.check_bind (h s) fun a _ => hnext a s

theorem lift_bind {result : Except Fault α} {next : α → Call β}
    (hnext : ∀ a, Ignores change (next a)) : Ignores change (lift result >>= next) :=
  fun s => IgnoresAt.lift_bind fun a _ => hnext a s

theorem read_bind {look : Store → α} {next : α → Call β} (h : ∀ s, look (change s) = look s)
    (hnext : ∀ a, Ignores change (next a)) : Ignores change (read look >>= next) := by
  refine bind ?_ hnext
  intro s
  rw [IgnoresAt, outcome_read, outcome_read, h]

theorem write {other : Store → Store} (h : ∀ s, other (change s) = change (other s)) :
    Ignores change (write other) := by
  intro s
  rw [IgnoresAt, outcome_write, outcome_write, h]

/-- A write in front may not touch what is changed. -/
theorem write_bind {other : Store → Store} {next : Unit → Call β}
    (h : ∀ s, other (change s) = change (other s)) (hnext : ∀ u, Ignores change (next u)) :
    Ignores change (Call.write other >>= next) :=
  bind (write h) hnext

/-- Taking writes back makes no difference. -/
theorem transact {call : Call α} (h : Ignores change call) (s : Store) :
    call.transact (change s) = ((call.transact s).1, change (call.transact s).2) :=
  IgnoresAt.transact (h s)

theorem putReserved (flow : Flow) (token : Address) (after : Option Quota) :
    Ignores (Store.withPause subsystem paused) (putReserved flow token after) := by
  cases after with
  | none => exact pure ()
  | some q => exact write fun _ => rfl

theorem recordDeposit (order : DepositOrder) (sender : Address) (calls : List TokenCall) :
    Ignores (Store.withPause subsystem paused) (order.record sender calls) := by
  refine check_bind (fun _ => rfl) fun settings => ?_
  refine (putReserved _ _ _).bind fun _ => ?_
  refine check_bind (fun _ => rfl) fun locked => ?_
  refine write_bind (fun _ => rfl) fun _ => ?_
  refine check_bind (fun _ => rfl) fun nonce => ?_
  refine lift_bind fun next => ?_
  exact write_bind (fun _ => rfl) fun _ => pure _

theorem recordWithdrawal (order : WithdrawalOrder) :
    Ignores (Store.withPause subsystem paused) order.record := by
  refine write_bind (fun _ => rfl) fun _ => ?_
  exact (putReserved _ _ _).bind fun _ => write fun _ => rfl

theorem grant (role : Role) (account : Address) :
    Ignores (Store.withPause subsystem paused) (grant role account) := by
  refine read_bind (fun _ => rfl) fun held => ?_
  split
  · exact pure false
  · refine write_bind (fun _ => rfl) fun _ => ?_
    split
    · refine check_bind (fun _ => rfl) fun count => ?_
      refine lift_bind fun more => ?_
      exact write_bind (fun _ => rfl) fun _ => pure true
    · exact pure true

theorem revoke (role : Role) (account : Address) :
    Ignores (Store.withPause subsystem paused) (revoke role account) := by
  refine read_bind (fun _ => rfl) fun held => ?_
  split
  · exact pure false
  · split
    · refine check_bind (fun _ => rfl) fun count => ?_
      refine lift_bind fun _ => ?_
      refine write_bind (fun _ => rfl) fun _ => ?_
      exact write_bind (fun _ => rfl) fun _ => pure true
    · exact write_bind (fun _ => rfl) fun _ => pure true

theorem bindAsset (b : Binding) : Ignores (Store.withPause subsystem paused) (bindAsset b) := by
  refine check_bind (fun _ => rfl) fun _ => ?_
  refine read_bind (fun _ => rfl) fun previous => ?_
  cases previous with
  | none =>
    refine write_bind (fun _ => rfl) fun _ => ?_
    exact write_bind (fun _ => rfl) fun _ => pure none
  | some old =>
    refine write_bind (fun _ => rfl) fun _ => ?_
    refine write_bind (fun _ => rfl) fun _ => ?_
    exact write_bind (fun _ => rfl) fun _ => pure (some old)

/-- The pauses of two subsystems are kept apart. -/
theorem setPaused {other : Subsystem} (h : subsystem ≠ other) (value : Bool) :
    Ignores (Store.withPause subsystem paused) (setPaused other value) := by
  intro s
  unfold IgnoresAt
  cases hpauses : s.pauses with
  | none =>
    simp [Call.setPaused, outcome_bind, Store.getPauses, Store.withPause, hpauses, Store.present]
  | some pauses =>
    have hpauses' : (s.withPause subsystem paused).pauses = some (pauses.set subsystem paused) := by
      rw [Store.withPause, hpauses, Option.map_some]
    rw [outcome_setPaused hpauses, outcome_setPaused hpauses', Pauses.holds_set, if_neg h]
    simp only [Store.withPause, hpauses, Option.map_some, pauses.set_comm h]

end Ignores

end Call

/-- The commands that a pause of a subsystem matters to: those of the subsystem, and those that set
its pause. -/
def Command.heeds (subsystem : Subsystem) : Command → Bool
  | pause other => other = subsystem
  | unpause other => other = subsystem
  | command => command.subsystem? = some subsystem

namespace Command

open Call.Ignores

/-- A pause of a subsystem matters to its own commands. -/
theorem ne_of_heeds {other : Subsystem} (h : command.heeds subsystem = false)
    (hcommand : command.subsystem? = some other) : subsystem ≠ other := by
  rintro rfl
  cases command with
  | deposit | receive | withdraw => exact of_decide_eq_false h hcommand
  | _ => cases hcommand

/-- Every other command does what it does whether the subsystem is paused or not. -/
theorem ignores_withPause [AddressRules] (hother : command.heeds subsystem = false) (env : Env)
    (sender : Address) (paused : Bool) :
    (command.run env sender).Ignores (Store.withPause subsystem paused) := by
  cases command with
  | deposit token amount recipient =>
    have hactive := Store.requireActive_withPause (ne_of_heeds hother rfl) paused
    refine check_bind hactive fun _ => ?_
    refine lift_bind fun _ => ?_
    refine check_bind (fun _ => rfl) fun order => ?_
    exact lift_bind fun _ => recordDeposit order _ _
  | receive owner amount notice =>
    have hactive := Store.requireActive_withPause (ne_of_heeds hother rfl) paused
    refine check_bind hactive fun _ => ?_
    refine lift_bind fun _ => ?_
    refine lift_bind fun ⟨recipient⟩ => ?_
    exact check_bind (fun _ => rfl) fun order => recordDeposit order _ _
  | withdraw m path height =>
    have hactive := Store.requireActive_withPause (ne_of_heeds hother rfl) paused
    refine check_bind hactive fun _ => ?_
    refine check_bind (fun _ => rfl) fun _ => ?_
    refine check_bind (fun _ => rfl) fun order => ?_
    exact (recordWithdrawal order).bind fun _ => pure _
  | commit height root seconds =>
    refine check_bind (fun _ => rfl) fun _ => ?_
    refine lift_bind fun _ => ?_
    refine lift_bind fun _ => ?_
    refine lift_bind fun time => ?_
    refine bind ?_ fun _ => pure _
    refine check_bind (fun _ => rfl) fun _ => ?_
    refine write_bind (fun _ => rfl) fun _ => ?_
    exact write_bind (fun _ => rfl) fun _ => pure _
  | grantRole role account =>
    refine check_bind (fun _ => rfl) fun _ => ?_
    refine lift_bind fun _ => ?_
    exact (grant role _).bind fun _ => pure _
  | revokeRole role account =>
    refine check_bind (fun _ => rfl) fun _ => ?_
    refine lift_bind fun _ => ?_
    exact (revoke role _).bind fun _ => pure _
  | pause other =>
    refine check_bind (fun _ => rfl) fun _ => ?_
    exact (setPaused (Ne.symm (of_decide_eq_false hother)) true).bind fun _ => pure _
  | unpause other =>
    refine check_bind (fun _ => rfl) fun _ => ?_
    exact (setPaused (Ne.symm (of_decide_eq_false hother)) false).bind fun _ => pure _
  | bindAsset token asset tokenDecimals assetDecimals =>
    refine check_bind (fun _ => rfl) fun _ => ?_
    refine lift_bind fun _ => ?_
    refine lift_bind fun _ => ?_
    exact (Call.Ignores.bindAsset _).bind fun _ => pure _
  | setTerms token flow terms =>
    refine check_bind (fun _ => rfl) fun _ => ?_
    refine lift_bind fun _ => ?_
    refine bind ?_ fun _ => pure _
    refine check_bind (fun _ => rfl) fun ⟨q, change⟩ => ?_
    exact write_bind (fun _ => rfl) fun _ => pure change
  | setFinalityDelay seconds =>
    refine check_bind (fun _ => rfl) fun _ => ?_
    refine lift_bind fun _ => ?_
    refine check_bind (fun _ => rfl) fun _ => ?_
    exact write_bind (fun _ => rfl) fun _ => pure _
  | setScheme scheme =>
    refine check_bind (fun _ => rfl) fun _ => ?_
    refine check_bind (fun _ => rfl) fun _ => ?_
    exact write_bind (fun _ => rfl) fun _ => pure _

end Command

/-- The requests that a pause of a subsystem matters to. -/
def Request.heeds (subsystem : Subsystem) : Request → Bool
  | .found _ => true
  | .command _ order => order.heeds subsystem
  | .upgrade _ => false

/-- Any other request does what it does whether the subsystem is paused or not. -/
theorem Request.ignores_withPause [AddressRules] (hother : request.heeds subsystem = false)
    (env : Env) (paused : Bool) : (request.run env).Ignores (Store.withPause subsystem paused) := by
  cases request with
  | found genesis => cases hother
  | command sender command => exact Command.ignores_withPause hother env sender paused
  | upgrade u =>
    refine .check_bind (fun _ => rfl) fun stored => ?_
    refine .lift_bind fun _ => ?_
    exact .write_bind (fun _ => rfl) fun _ => .pure _

/-- Requests that a pause does not matter to end alike and leave the same, whether the subsystem is
paused or not. -/
theorem Store.play_withPause [AddressRules] {requests : List (Env × Request)}
    (hother : ∀ r ∈ requests, r.2.heeds subsystem = false) (s : Store) (paused : Bool) :
    ((s.withPause subsystem paused).play requests).1.map Entry.result =
        (s.play requests).1.map Entry.result ∧
      ((s.withPause subsystem paused).play requests).2 =
        (s.play requests).2.withPause subsystem paused := by
  induction requests generalizing s with
  | nil => exact ⟨rfl, rfl⟩
  | cons r rest ih =>
    obtain ⟨env, request⟩ := r
    have hfirst := (Request.ignores_withPause (hother _ List.mem_cons_self) env paused).transact s
    obtain ⟨hresults, hafter⟩ := ih (fun r hr => hother r (List.mem_cons_of_mem _ hr))
      ((request.run env).transact s).2
    simp only [Store.play, hfirst, List.map_cons, hresults, hafter]
    exact ⟨trivial, trivial⟩

end TokenBridge

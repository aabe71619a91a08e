import TokenBridge.Proofs.Movement

/-!
# Calls that fault

A call that faults does so at one of its tests, on the store that the writes before that test have
left. It is taken apart from its front as a call that succeeds is, into the places where it may
stop. A test stops with a rejection, or with an abort if it counts something that may leave its
range; most tests count nothing.
-/

namespace TokenBridge

variable {α β : Type} {s t : Store} {fault : Fault}

theorem demand_eq_error_iff {condition : Prop} [Decidable condition] {otherwise : Rejection} :
    demand condition otherwise = .error fault ↔ ¬condition ∧ .rejected otherwise = fault := by
  by_cases h : condition
  · simp [demand, h]
  · simp [demand, h]

theorem orAbort_eq_error_iff {value : Option α} :
    orAbort value = .error fault ↔ value = none ∧ .aborted = fault := by
  cases value with
  | none => simp [orAbort]
  | some a => simp [orAbort]

namespace Call

/-- The call faults on the first store, and leaves the second store behind. -/
def Faults (call : Call α) (s : Store) (fault : Fault) (t : Store) : Prop :=
  call.outcome s = (.error fault, t)

theorem faults_pure_iff {a : α} : (pure a : Call α).Faults s fault t ↔ False := by
  simp [Faults]

theorem faults_check_iff {test : Store → Except Fault α} :
    (check test).Faults s fault t ↔ test s = .error fault ∧ s = t := by
  simp [Faults]

theorem faults_read_iff {look : Store → α} : (read look).Faults s fault t ↔ False := by
  simp [Faults]

theorem faults_write_iff {change : Store → Store} : (write change).Faults s fault t ↔ False := by
  simp [Faults]

/-- Two calls in a row fault where the first one does, or the second after it. -/
theorem faults_bind_iff {first : Call α} {next : α → Call β} :
    (first >>= next).Faults s fault t ↔
      first.Faults s fault t ∨ ∃ a m, first.Yields s a m ∧ (next a).Faults m fault t := by
  unfold Faults Yields
  rw [outcome_bind]
  rcases h : first.outcome s with ⟨result, m⟩
  cases result with
  | error reason => simp
  | ok a =>
    constructor
    · intro hnext
      exact Or.inr ⟨a, m, rfl, hnext⟩
    · rintro (hfirst | ⟨a', m', hfirst, hnext⟩)
      · cases hfirst
      · obtain ⟨ha, rfl⟩ := Prod.mk.inj hfirst
        obtain rfl := Except.ok.inj ha
        exact hnext

/-- A test in front stops the call on the store that it found. -/
theorem faults_check_bind_iff {test : Store → Except Fault α} {next : α → Call β} :
    (check test >>= next).Faults s fault t ↔
      (test s = .error fault ∧ s = t) ∨ ∃ a, test s = .ok a ∧ (next a).Faults s fault t := by
  rw [faults_bind_iff, faults_check_iff]
  refine or_congr_right ?_
  simp only [yields_check_iff]
  exact ⟨fun ⟨a, _, ⟨ha, hs⟩, hnext⟩ => ⟨a, ha, hs ▸ hnext⟩,
    fun ⟨a, ha, hnext⟩ => ⟨a, s, ⟨ha, rfl⟩, hnext⟩⟩

theorem faults_lift_bind_iff {result : Except Fault α} {next : α → Call β} :
    (lift result >>= next).Faults s fault t ↔
      (result = .error fault ∧ s = t) ∨ ∃ a, result = .ok a ∧ (next a).Faults s fault t :=
  faults_check_bind_iff

theorem faults_read_bind_iff {look : Store → α} {next : α → Call β} :
    (read look >>= next).Faults s fault t ↔ (next (look s)).Faults s fault t := by
  simp only [faults_bind_iff, faults_read_iff, yields_read_iff, false_or]
  exact ⟨fun ⟨_, _, ⟨ha, hs⟩, hnext⟩ => ha ▸ hs ▸ hnext,
    fun hnext => ⟨look s, s, ⟨rfl, rfl⟩, hnext⟩⟩

/-- A write in front does not stop the call. -/
theorem faults_write_bind_iff {change : Store → Store} {next : Unit → Call β} :
    (write change >>= next).Faults s fault t ↔ (next ()).Faults (change s) fault t := by
  simp only [faults_bind_iff, faults_write_iff, yields_write_iff, false_or]
  exact ⟨fun ⟨_, _, hs, hnext⟩ => hs ▸ hnext, fun hnext => ⟨(), change s, rfl, hnext⟩⟩

/-- Storing the quota after a movement does not stop the call. -/
theorem faults_putReserved_bind_iff {flow : Flow} {token : Address} {after : Option Quota}
    {next : Unit → Call β} :
    (putReserved flow token after >>= next).Faults s fault t ↔
      (next ()).Faults (s.withQuota flow token after) fault t := by
  cases after with
  | none => exact Iff.rfl
  | some q => exact faults_write_bind_iff

/-- A call followed by its report faults where the call does. -/
theorem faults_bind_pure_iff {first : Call α} {report : α → β} :
    (first >>= fun a => pure (report a)).Faults s fault t ↔ first.Faults s fault t := by
  simp only [faults_bind_iff, faults_pure_iff, and_false, exists_false, or_false]

/-- A request that is carried out whole or not at all faults as its call does. -/
theorem transact_eq_error_iff {call : Call α} :
    call.transact s = (.error fault, t) ↔ (∃ m, call.Faults s fault m) ∧ s = t := by
  unfold transact Faults
  rcases call.outcome s with ⟨result, m⟩
  cases result with
  | error reason => simp
  | ok a => simp

end Call

end TokenBridge

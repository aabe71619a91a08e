import TokenBridge.Proofs.Faults

/-!
# What a test is not refused for

A test refuses for reasons of its own. That it spares a kind of reasons is shown for its parts, one
after another, as far as they are reached.
-/

namespace TokenBridge

variable {α β : Type} {kind : Rejection → Bool}

/-- The test refuses nothing for a reason of the kind. -/
def Spares (kind : Rejection → Bool) (result : Except Fault α) : Prop :=
  ∀ why, result = .error (.rejected why) → kind why = false

namespace Spares

theorem ok (a : α) : Spares kind (.ok a) := nofun

theorem rejected {why : Rejection} (h : kind why = false) :
    Spares kind (.error (.rejected why) : Except Fault α) := by
  intro why' heq
  cases heq
  exact h

/-- Of two tests in a row, the second one has to be looked at only where the first one passes. -/
theorem bind {first : Except Fault α} {next : α → Except Fault β} (hfirst : Spares kind first)
    (hnext : ∀ a, first = .ok a → Spares kind (next a)) : Spares kind (first >>= next) := by
  intro why h
  rcases Except.bind_eq_error_iff.mp h with hstop | ⟨a, ha, hstop⟩
  · exact hfirst why hstop
  · exact hnext a ha why hstop

/-- Where it is known that the first test passes, only the second one has to be looked at. -/
theorem ok_bind {first : Except Fault α} {next : α → Except Fault β} {a : α}
    (hfirst : first = .ok a) (hnext : Spares kind (next a)) : Spares kind (first >>= next) := by
  rw [hfirst]
  exact hnext

theorem demand {condition : Prop} [Decidable condition] {otherwise : Rejection}
    (h : kind otherwise = false) : Spares kind (demand condition otherwise) := by
  intro why hstop
  cases (demand_eq_error_iff.mp hstop).2
  exact h

theorem mapError {ε : Type} {result : Except ε α} {reason : ε → Rejection}
    (h : ∀ cause, kind (reason cause) = false) :
    Spares kind (result.mapError fun cause => .rejected (reason cause)) := by
  intro why hstop
  obtain ⟨cause, _, heq⟩ := Except.mapError_eq_error_iff.mp hstop
  cases heq
  exact h cause

/-- A number that leaves its range is no reason to refuse anything. -/
theorem orAbort (value : Option α) : Spares kind (orAbort value) := by
  intro why hstop
  cases (orAbort_eq_error_iff.mp hstop).2

theorem present {item : StoredItem} (h : kind (.host (.missing item)) = false)
    (value : Option α) : Spares kind (Store.present item value) := by
  cases value with
  | none => exact rejected h
  | some a => exact ok a

/-- Work is refused for its pause. -/
theorem requireActive {subsystem : Subsystem} (hmissing : kind (.host (.missing .pauses)) = false)
    (hpaused : kind (.paused subsystem) = false) (s : Store) :
    Spares kind (s.requireActive subsystem) :=
  (present hmissing s.pauses).bind fun _ _ => demand hpaused

theorem resolveAsset (hunbound : ∀ asset, kind (.unbound asset) = false) (asset : Word256)
    (s : Store) : Spares kind (s.resolveAsset asset) := by
  unfold Store.resolveAsset
  split
  · exact ok _
  · exact rejected (hunbound _)

/-- A movement beyond its quota is refused for the limit. -/
theorem reserved (hlimit : ∀ limit used requested, kind (.overLimit limit used requested) = false)
    (flow : Flow) (token : Address) (amount : Amount) (now : Timestamp) (s : Store) :
    Spares kind (s.reserved flow token amount now) := by
  have hquota : Spares kind (s.quotaAt flow token now) := by
    unfold Store.quotaAt
    split
    · exact ok _
    · exact (orAbort _).bind fun _ _ => ok _
  refine hquota.bind fun q _ => ?_
  cases q with
  | none => exact ok _
  | some q =>
    cases htaken : q.take? amount with
    | none =>
      simp only [htaken]
      exact rejected (hlimit _ _ _)
    | some after =>
      simp only [htaken]
      exact ok _

end Spares

end TokenBridge

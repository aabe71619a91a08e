import TokenBridge.Proofs.Rollover

/-!
# Sound quotas

A quota is sound if no epoch is without a duration and epochs are not numbered ahead of the clock.
A sound quota can be rolled forward to every time, and stays sound. The end of its open epoch is the
point at which everything changes: before it a quota is itself, whenever it is looked at, and after
it the epochs follow one another under the next terms from that end on.
-/

namespace TokenBridge

/-- Seconds pass no faster than nanoseconds. -/
theorem Timestamp.seconds_le_of_nanos_le {now later : Timestamp} (h : now.nanos ≤ later.nanos) :
    now.seconds.toNat ≤ later.seconds.toNat := by
  rw [toNat_seconds, toNat_seconds]
  exact Nat.div_le_div_right (UInt64.le_iff_toNat_le.mp h)

namespace Quota

variable {q r r' : Quota} {now later : Timestamp}

/-- The second in which the open epoch ends, even if it is too far ahead to be reached. -/
def ending (q : Quota) : Nat := q.start.seconds.toNat + q.terms.duration.toNat

/-- The whole epochs that have passed under the next terms since the open epoch ended. -/
def passed (q : Quota) (now : Timestamp) : Nat :=
  (now.seconds.toNat - q.ending) / q.nextTerms.duration.toNat

/-- The epoch that many durations after the end of the open one holds the time. -/
theorem passed_bounds (hended : q.ending ≤ now.seconds.toNat) (hnext : q.nextTerms.duration ≠ 0) :
    q.ending + q.passed now * q.nextTerms.duration.toNat ≤ now.seconds.toNat ∧
      now.seconds.toNat < q.ending + q.passed now * q.nextTerms.duration.toNat +
        q.nextTerms.duration.toNat := by
  have hwhole : q.passed now * q.nextTerms.duration.toNat ≤ now.seconds.toNat - q.ending :=
    Nat.div_mul_le_self ..
  have hrest : now.seconds.toNat - q.ending <
      q.passed now * q.nextTerms.duration.toNat + q.nextTerms.duration.toNat :=
    Nat.lt_div_mul_add (UInt64.toNat_pos_of_ne_zero hnext)
  omega

/-- A quota is itself until its epoch ends. -/
theorem rolled?_of_lt (hopen : now.seconds.toNat < q.ending) : q.rolled? now = some q := by
  rw [rolled?_eq_some_iff]
  refine Or.inl ⟨?_, rfl⟩
  intro boundary hboundary
  rw [UInt64.lt_iff_toNat_lt, add64?_eq_some_iff.mp hboundary]
  exact hopen

theorem eq_of_rolled?_of_lt (hopen : now.seconds.toNat < q.ending)
    (hrolled : q.rolled? now = some r) : q = r :=
  Option.some.inj ((rolled?_of_lt hopen).symm.trans hrolled)

/-- After its end, the epoch is followed by others of the next terms' duration. -/
theorem rolled?_eq_some_iff_of_le (hended : q.ending ≤ now.seconds.toNat) :
    q.rolled? now = some r ↔
      q.nextTerms.duration ≠ 0 ∧ r.epoch.toNat = q.epoch.toNat + 1 + q.passed now ∧
        r.start.nanos.toNat =
          (q.ending + q.passed now * q.nextTerms.duration.toNat) * 1000000000 ∧
        r.terms = q.nextTerms ∧ r.used = .zero ∧ r.pending = none := by
  have hsize := now.seconds.toNat_lt
  let boundary := UInt64.ofNat q.ending
  have hending : boundary.toNat = q.ending := UInt64.toNat_ofNat_of_lt' (by
    rw [UInt64.size]
    omega)
  have hboundary : q.boundary? = some boundary := add64?_eq_some_iff.mpr hending
  have hle : boundary ≤ now.seconds := UInt64.le_iff_toNat_le.mpr (by omega)
  unfold rolled?
  rw [hboundary]
  simp only [if_pos hle, skipTo?_eq_some_iff hle, skipped, passed, hending]

/-- Skipped epochs put the start that many durations after the end of the open one. -/
theorem toNat_seconds_start (hended : q.ending ≤ now.seconds.toNat)
    (hrolled : q.rolled? now = some r) :
    r.start.seconds.toNat = q.ending + q.passed now * q.nextTerms.duration.toNat := by
  obtain ⟨_, _, hstart, _⟩ := (rolled?_eq_some_iff_of_le hended).mp hrolled
  rw [Timestamp.toNat_seconds, hstart]
  omega

/-- The epoch that a quota is rolled to after its end holds the time. -/
theorem holds_of_rolled? (hended : q.ending ≤ now.seconds.toNat)
    (hrolled : q.rolled? now = some r) :
    r.start.seconds.toNat ≤ now.seconds.toNat ∧ now.seconds.toNat < r.ending := by
  have hseconds := toNat_seconds_start hended hrolled
  obtain ⟨hnext, _, _, hterms, _⟩ := (rolled?_eq_some_iff_of_le hended).mp hrolled
  rw [ending, hseconds, hterms]
  exact passed_bounds hended hnext

/-- A quota that was rolled forward is in an epoch that holds the time. -/
theorem lt_ending_of_rolled? (hrolled : q.rolled? now = some r) :
    now.seconds.toNat < r.ending := by
  by_cases hopen : now.seconds.toNat < q.ending
  · obtain rfl := eq_of_rolled?_of_lt hopen hrolled
    exact hopen
  · exact (holds_of_rolled? (Nat.le_of_not_lt hopen) hrolled).2

/-- An epoch that was open at a time is the one open at every later time before its end. -/
theorem rolled?_of_rolled? (hrolled : q.rolled? now = some r)
    (hle : now.seconds.toNat ≤ later.seconds.toNat) (hopen : later.seconds.toNat < r.ending) :
    q.rolled? later = some r := by
  by_cases hnow : now.seconds.toNat < q.ending
  · obtain rfl := eq_of_rolled?_of_lt hnow hrolled
    exact rolled?_of_lt hopen
  · have hended : q.ending ≤ now.seconds.toNat := Nat.le_of_not_lt hnow
    have hseconds := toNat_seconds_start hended hrolled
    obtain ⟨hduration, hepoch, hstart, hterms, hfresh⟩ :=
      (rolled?_eq_some_iff_of_le hended).mp hrolled
    have hpassed : q.passed later = q.passed now := by
      have hbounds := passed_bounds hended hduration
      rw [ending, hseconds, hterms] at hopen
      refine Nat.div_eq_of_lt_le (by omega) ?_
      rw [Nat.add_mul, Nat.one_mul]
      omega
    rw [rolled?_eq_some_iff_of_le (Nat.le_trans hended hle), hpassed]
    exact ⟨hduration, hepoch, hstart, hterms, hfresh⟩

/-- A quota that was rolled forward on the way is found in the same epoch later. -/
theorem rolled?_eq_of_rolled? (hrolled : q.rolled? now = some r)
    (hle : now.seconds.toNat ≤ later.seconds.toNat) (hlater : q.rolled? later = some r') :
    r.rolled? later = some r' := by
  by_cases hopen : later.seconds.toNat < r.ending
  · rw [rolled?_of_lt hopen, ← hlater, rolled?_of_rolled? hrolled hle hopen]
  · by_cases hnow : now.seconds.toNat < q.ending
    · obtain rfl := eq_of_rolled?_of_lt hnow hrolled
      exact hlater
    · have hended : q.ending ≤ now.seconds.toNat := Nat.le_of_not_lt hnow
      have hended' : r.ending ≤ later.seconds.toNat := Nat.le_of_not_lt hopen
      have hseconds := toNat_seconds_start hended hrolled
      obtain ⟨hduration, hepoch, _, hterms, _, hpending⟩ :=
        (rolled?_eq_some_iff_of_le hended).mp hrolled
      obtain ⟨_, hepoch', hstart', hterms', hfresh'⟩ :=
        (rolled?_eq_some_iff_of_le (Nat.le_trans hended hle)).mp hlater
      have hnext : r.nextTerms = q.nextTerms := by
        rw [nextTerms, hpending, Option.getD_none, hterms]
      have hending : r.ending = q.ending + (q.passed now + 1) * q.nextTerms.duration.toNat := by
        rw [ending, hseconds, hterms, Nat.add_mul, Nat.one_mul, Nat.add_assoc]
      -- The epochs up to `r` and those after it make up all that have passed.
      have hpassed : q.passed later = q.passed now + 1 + r.passed later := by
        have hspan : later.seconds.toNat - q.ending = later.seconds.toNat - r.ending +
            (q.passed now + 1) * q.nextTerms.duration.toNat := by omega
        unfold passed at hspan ⊢
        rw [hspan, Nat.add_mul_div_right _ _ (UInt64.toNat_pos_of_ne_zero hduration), hnext,
          Nat.add_comm]
      rw [rolled?_eq_some_iff_of_le hended', hnext, hending]
      refine ⟨hduration, by omega, ?_, hterms', hfresh'⟩
      rw [hstart', hpassed, Nat.add_mul _ (r.passed later), Nat.add_assoc]

/-- Every epoch lasts, and there are no more epochs than there were seconds. -/
structure Sound (q : Quota) : Prop where
  duration_ne : q.terms.duration ≠ 0
  pending_ne : ∀ terms, q.pending = some terms → terms.duration ≠ 0
  epoch_le : q.epoch.toNat ≤ q.start.seconds.toNat

namespace Sound

theorem nextTerms_duration_ne (h : q.Sound) : q.nextTerms.duration ≠ 0 := by
  unfold nextTerms
  cases hpending : q.pending with
  | none => exact h.duration_ne
  | some terms => exact h.pending_ne terms hpending

/-- No more epochs have passed than there were seconds up to the start of the open one. -/
theorem epoch_add_passed_le (h : q.Sound) (now : Timestamp) :
    q.epoch.toNat + 1 + q.passed now ≤
      q.ending + q.passed now * q.nextTerms.duration.toNat := by
  have hduration := UInt64.toNat_pos_of_ne_zero h.duration_ne
  have hnext := UInt64.toNat_pos_of_ne_zero h.nextTerms_duration_ne
  have hepoch := h.epoch_le
  have hskip := Nat.le_mul_of_pos_right (q.passed now) hnext
  have hending : q.ending = q.start.seconds.toNat + q.terms.duration.toNat := rfl
  omega

/-- A sound quota can be rolled forward to every time. -/
theorem exists_rolled (h : q.Sound) (now : Timestamp) : ∃ r, q.rolled? now = some r := by
  by_cases hopen : now.seconds.toNat < q.ending
  · exact ⟨q, rolled?_of_lt hopen⟩
  · have hended : q.ending ≤ now.seconds.toNat := Nat.le_of_not_lt hopen
    have hepoch := h.epoch_add_passed_le now
    have hstart := (passed_bounds hended h.nextTerms_duration_ne).1
    have hseconds := now.seconds.toNat_lt
    have hnanos := now.nanos.toNat_lt
    rw [Timestamp.toNat_seconds] at hstart hseconds
    refine ⟨⟨UInt64.ofNat (q.epoch.toNat + 1 + q.passed now),
      ⟨UInt64.ofNat ((q.ending + q.passed now * q.nextTerms.duration.toNat) * 1000000000)⟩,
      q.nextTerms, .zero, none⟩, (rolled?_eq_some_iff_of_le hended).mpr
        ⟨h.nextTerms_duration_ne, UInt64.toNat_ofNat_of_lt' ?_, UInt64.toNat_ofNat_of_lt' ?_,
          rfl, rfl, rfl⟩⟩
    · rw [UInt64.size]
      omega
    · rw [UInt64.size]
      omega

/-- Rolling forward keeps a quota sound. -/
theorem rolled (h : q.Sound) (hrolled : q.rolled? now = some r) : r.Sound := by
  by_cases hopen : now.seconds.toNat < q.ending
  · obtain rfl := eq_of_rolled?_of_lt hopen hrolled
    exact h
  · have hended : q.ending ≤ now.seconds.toNat := Nat.le_of_not_lt hopen
    have hseconds := toNat_seconds_start hended hrolled
    obtain ⟨hduration, hepoch, _, hterms, _, hpending⟩ :=
      (rolled?_eq_some_iff_of_le hended).mp hrolled
    constructor
    · rw [hterms]
      exact hduration
    · intro terms hsome
      rw [hpending] at hsome
      cases hsome
    · rw [hepoch, hseconds]
      exact h.epoch_add_passed_le now

end Sound

end Quota

/-- Every change of a quota keeps it sound. -/
theorem QuotaStep.sound {now : Timestamp} {quota after : Option Quota} {charge : Option Charge}
    {terms : Option Terms} (hstep : QuotaStep now quota charge terms after)
    (h : ∀ q, quota = some q → q.Sound) : ∀ q, after = some q → q.Sound := by
  intro q hq
  cases hstep with
  | keep => exact h q hq
  | opened terms hvalid =>
    obtain rfl := Option.some.inj hq
    exact ⟨hvalid.1, nofun, Nat.zero_le _⟩
  | scheduled terms hrolled hvalid =>
    obtain rfl := Option.some.inj hq
    have hsound := (h _ rfl).rolled hrolled
    refine ⟨hsound.duration_ne, ?_, hsound.epoch_le⟩
    intro other hother
    rw [← Option.some.inj hother]
    exact hvalid.1
  | charged hrolled htaken =>
    obtain rfl := Option.some.inj hq
    have hsound := (h _ rfl).rolled hrolled
    obtain ⟨_, _, hq⟩ := Quota.take?_eq_some_iff.mp htaken
    rw [hq]
    exact ⟨hsound.duration_ne, hsound.pending_ne, hsound.epoch_le⟩

end TokenBridge

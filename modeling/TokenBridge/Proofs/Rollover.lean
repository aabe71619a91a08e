import TokenBridge.Proofs.Step

/-!
# Quotas rolling forward

A quota is looked at as of some time, then charged or given new terms. Rolling forward keeps the
quota until its epoch ends; after that it opens a later epoch in which nothing has moved. Whatever a
request does to a quota of a bridge is one of the four changes listed here.
-/

namespace TokenBridge

namespace Quota

variable {q r : Quota} {now : Timestamp} {boundary : UInt64}

/-- The whole epochs between the end of the open one and a later time. -/
def skipped (q : Quota) (boundary : UInt64) (now : Timestamp) : Nat :=
  (now.seconds.toNat - boundary.toNat) / q.nextTerms.duration.toNat

/-- The start of the epoch that holds a time is not after it, so it can be counted in seconds. -/
theorem toNat_skipped_start (hended : boundary ≤ now.seconds) :
    (boundary + (now.seconds - boundary) / q.nextTerms.duration * q.nextTerms.duration).toNat =
      boundary.toNat + q.skipped boundary now * q.nextTerms.duration.toNat := by
  have hle : boundary.toNat ≤ now.seconds.toNat := UInt64.le_iff_toNat_le.mp hended
  have hwhole := Nat.div_mul_le_self (now.seconds.toNat - boundary.toNat) q.nextTerms.duration.toNat
  have hsize := now.seconds.toNat_lt
  rw [UInt64.toNat_add, UInt64.toNat_mul, UInt64.toNat_div, UInt64.toNat_sub_of_le _ _ hended,
    skipped, Nat.mod_eq_of_lt (by omega), Nat.mod_eq_of_lt (by omega)]

/-- After its end, an epoch is followed by the one that holds the time, under the next terms. -/
theorem skipTo?_eq_some_iff (hended : boundary ≤ now.seconds) :
    q.skipTo? boundary now = some r ↔
      q.nextTerms.duration ≠ 0 ∧ r.epoch.toNat = q.epoch.toNat + 1 + q.skipped boundary now ∧
        r.start.nanos.toNat = (boundary.toNat +
          q.skipped boundary now * q.nextTerms.duration.toNat) * 1000000000 ∧
        r.terms = q.nextTerms ∧ r.used = .zero ∧ r.pending = none := by
  have hskipped : ((now.seconds - boundary) / q.nextTerms.duration).toNat =
      q.skipped boundary now := by
    rw [UInt64.toNat_div, UInt64.toNat_sub_of_le _ _ hended, skipped]
  by_cases hduration : q.nextTerms.duration = 0
  · simp [skipTo?, hduration]
  · simp only [skipTo?, Option.bind_eq_bind, if_neg hduration, Option.bind_eq_some_iff,
      Option.some.injEq, add64?_eq_some_iff, hskipped, Timestamp.ofSeconds?_eq_some_iff,
      toNat_skipped_start hended]
    constructor
    · rintro ⟨next, hnext, epoch, hepoch, start, hstart, rfl⟩
      exact ⟨hduration, by rw [hepoch, hnext]; rfl, hstart, rfl, rfl, rfl⟩
    · rintro ⟨_, hepoch, hstart, hterms, hused, hpending⟩
      have hnext : (UInt64.ofNat (q.epoch.toNat + 1)).toNat = q.epoch.toNat + 1 :=
        UInt64.toNat_ofNat_of_lt' (Nat.lt_of_le_of_lt (by omega) r.epoch.toNat_lt_size)
      refine ⟨_, hnext, r.epoch, by rw [hepoch, hnext], r.start, hstart, ?_⟩
      rw [← hterms, ← hused, ← hpending]

/-- As of a time, a quota is itself while its epoch is open, and skips to a later epoch after. -/
theorem rolled?_eq_some_iff :
    q.rolled? now = some r ↔
      (∀ boundary, q.boundary? = some boundary → now.seconds < boundary) ∧ q = r ∨
      ∃ boundary, q.boundary? = some boundary ∧ boundary ≤ now.seconds ∧
        q.skipTo? boundary now = some r := by
  unfold rolled?
  cases q.boundary? with
  | none => simp
  | some boundary =>
    by_cases hended : boundary ≤ now.seconds
    · have hopen : ¬now.seconds < boundary := UInt64.not_lt.mpr hended
      simp [hended, hopen]
    · have hopen : now.seconds < boundary := UInt64.not_le.mp hended
      simp [hended, hopen]

/-- Rolling forward keeps a quota, or opens a later epoch in which nothing has moved. -/
theorem eq_or_epoch_lt_of_rolled? (h : q.rolled? now = some r) :
    q = r ∨ q.epoch < r.epoch ∧ r.used = .zero := by
  rcases rolled?_eq_some_iff.mp h with ⟨_, hsame⟩ | ⟨boundary, _, hended, hskip⟩
  · exact Or.inl hsame
  · obtain ⟨_, hepoch, _, _, hused, _⟩ := (skipTo?_eq_some_iff hended).mp hskip
    exact Or.inr ⟨UInt64.lt_iff_toNat_lt.mpr (by omega), hused⟩

/-- A charge adds its amount to what has moved, up to the limit. -/
theorem take?_eq_some_iff {amount : Amount} :
    q.take? amount = some r ↔
      r.used.toNat = q.used.toNat + amount.toNat ∧ r.used ≤ q.terms.limit ∧
        r = { q with used := r.used } := by
  simp only [take?, Option.bind_eq_bind, Option.bind_eq_some_iff, Amount.add?_eq_some_iff,
    Option.ite_none_right_eq_some, Option.some.injEq]
  constructor
  · rintro ⟨used, hused, hle, rfl⟩
    exact ⟨hused, hle, rfl⟩
  · rintro ⟨hused, hle, hr⟩
    exact ⟨r.used, hused, hle, hr.symm⟩

end Quota

/-- New terms open the first epoch, or wait for the end of the one open now. -/
theorem Store.withTerms_eq_ok_iff {s : Store} {flow : Flow} {token : Address} {terms : Terms}
    {now : Timestamp} {q : Quota} {change : TermsChange} :
    s.withTerms flow token terms now = .ok (q, change) ↔
      (terms.duration ≠ 0 ∧ terms.duration ≤ maxEpochDuration) ∧
      ((s.quota? flow token = none ∧ q = Quota.opened terms now ∧ change = .immediate) ∨
        ∃ old rolled, s.quota? flow token = some old ∧ old.rolled? now = some rolled ∧
          q = { rolled with pending := some terms } ∧ change = .scheduled rolled.epoch) := by
  simp only [withTerms, quotaAt, Except.bind_eq_ok_iff, demand_eq_ok_iff, exists_const]
  refine and_congr_right fun _ => ?_
  cases s.quota? flow token with
  | none =>
    simp only [Except.ok.injEq, true_and, reduceCtorEq, false_and, exists_false, or_false]
    constructor
    · rintro ⟨_, rfl, h⟩
      obtain ⟨rfl, rfl⟩ := Prod.mk.inj (Except.pure_eq_ok_iff.mp h)
      exact ⟨rfl, rfl⟩
    · rintro ⟨rfl, rfl⟩
      exact ⟨none, rfl, rfl⟩
  | some old =>
    simp only [Except.bind_eq_ok_iff, orAbort_eq_ok_iff, Except.pure_eq_ok_iff,
      Option.some.injEq, reduceCtorEq, false_and, false_or]
    constructor
    · rintro ⟨_, ⟨rolled, hrolled, rfl⟩, h⟩
      obtain ⟨rfl, rfl⟩ := Prod.mk.inj (Except.pure_eq_ok_iff.mp h)
      exact ⟨old, rolled, rfl, hrolled, rfl, rfl⟩
    · rintro ⟨_, rolled, rfl, hrolled, rfl, rfl⟩
      exact ⟨some rolled, ⟨rolled, hrolled, rfl⟩, rfl⟩

/-- A movement that was charged, and the quota that it left. -/
structure Charge where
  amount : Amount
  quota : Quota

/-- What becomes of a quota, with the charge or the new terms if there are any. -/
inductive QuotaStep (now : Timestamp) :
    Option Quota → Option Charge → Option Terms → Option Quota → Prop
  | keep (quota) : QuotaStep now quota none none quota
  | opened (terms) (hvalid : terms.duration ≠ 0 ∧ terms.duration ≤ maxEpochDuration) :
      QuotaStep now none none (some terms) (some (.opened terms now))
  /-- New terms wait for the end of the open epoch. -/
  | scheduled {q rolled} (terms) (hrolled : q.rolled? now = some rolled)
      (hvalid : terms.duration ≠ 0 ∧ terms.duration ≤ maxEpochDuration) :
      QuotaStep now (some q) none (some terms) (some { rolled with pending := some terms })
  | charged {q rolled after amount} (hrolled : q.rolled? now = some rolled)
      (htaken : rolled.take? amount = some after) :
      QuotaStep now (some q) (some ⟨amount, after⟩) none (some after)

end TokenBridge

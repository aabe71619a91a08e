import TokenBridge.Proofs.Rescheduling

/-!
# The grid of epochs

As long as the terms in force keep their duration, everything about the epochs of a flow follows
from the time at which it was capped first. The first epoch starts then, to the nanosecond. All
later ones start whole durations after the second in which that was: what had passed of that second
is lost at the first end. So the first epoch is shorter by as much, the others last exactly one
duration, and a flow that was capped in the middle of a second is off the grid of its first epoch
from then on.
-/

namespace TokenBridge

variable {g : Genesis} {log : List Entry} {s : Store} {flow : Flow} {token : Address}
  {now first : Timestamp} {duration : UInt64}

/-- The time at which terms of a flow of a token were set first. -/
def firstCapped? (flow : Flow) (token : Address) (log : List Entry) : Option Timestamp :=
  (log.find? fun e => (e.termsSet? flow token).isSome).map (·.env.now)

/-- The terms in force keep the duration, whatever waits. -/
def KeepsDuration (flow : Flow) (token : Address) (duration : UInt64) (log : List Entry) : Prop :=
  ∀ e ∈ log, ∀ q ∈ e.after.quota? flow token, q.terms.duration = duration

namespace Quota

variable {q r : Quota}

/-- The open epoch starts where its number puts it. The first one starts at the time of the first
capping, a later one whole durations after the second of that time. -/
structure Follows (first : Timestamp) (duration : UInt64) (q : Quota) : Prop where
  duration_eq : q.terms.duration = duration
  start_first : q.epoch = 0 → q.start = first
  start_later : q.epoch ≠ 0 → q.start.nanos.toNat =
    (first.seconds.toNat + q.epoch.toNat * duration.toNat) * 1000000000

/-- How the open epoch lies to the time of the first capping, and how long it lasts. -/
structure Timed (first : Timestamp) (duration : UInt64) (q : Quota) : Prop
    extends Follows first duration q where
  /-- A later epoch starts whole durations after that time only if the time is a whole second. -/
  on_grid_iff : q.start.nanos.toNat =
      first.nanos.toNat + q.epoch.toNat * (duration.toNat * 1000000000) ↔
    q.epoch = 0 ∨ first.nanos.toNat % 1000000000 = 0
  /-- The first epoch is shorter than the duration by what had passed of the second. -/
  lasts_first : q.epoch = 0 → ∀ later : Timestamp, q.rolled? later = some q ↔
    later.nanos.toNat + first.nanos.toNat % 1000000000 <
      q.start.nanos.toNat + duration.toNat * 1000000000
  /-- A later one lasts exactly the duration. -/
  lasts_later : q.epoch ≠ 0 → ∀ later : Timestamp, q.rolled? later = some q ↔
    later.nanos.toNat < q.start.nanos.toNat + duration.toNat * 1000000000

namespace Follows

/-- Whatever the number of the epoch, it starts in the second in which its number puts it. -/
theorem toNat_seconds_start (h : q.Follows first duration) :
    q.start.seconds.toNat = first.seconds.toNat + q.epoch.toNat * duration.toNat := by
  by_cases hfirst : q.epoch = 0
  · rw [h.start_first hfirst, hfirst, UInt64.toNat_zero, Nat.zero_mul, Nat.add_zero]
  · rw [Timestamp.toNat_seconds, h.start_later hfirst]
    omega

/-- It ends one duration after that second. -/
theorem ending_eq (h : q.Follows first duration) :
    q.ending = first.seconds.toNat + q.epoch.toNat * duration.toNat + duration.toNat := by
  rw [ending, h.toNat_seconds_start, h.duration_eq]

/-- What has moved and what waits do not matter. -/
theorem of_sameEpoch (h : r.Follows first duration) (hsame : q.SameEpoch r) :
    q.Follows first duration := by
  obtain ⟨hepoch, hstart, hterms⟩ := hsame
  constructor
  case duration_eq => rw [hterms, h.duration_eq]
  case start_first =>
    rw [hepoch, hstart]
    exact h.start_first
  case start_later =>
    rw [hepoch, hstart]
    exact h.start_later

/-- Rolling forward leads to where the number of the later epoch puts it. -/
theorem rolled (h : q.Follows first duration) (hrolled : q.rolled? now = some r)
    (hduration : r.terms.duration = duration) : r.Follows first duration := by
  by_cases hopen : now.seconds.toNat < q.ending
  · obtain rfl := eq_of_rolled?_of_lt hopen hrolled
    exact h
  · have hended : q.ending ≤ now.seconds.toNat := Nat.le_of_not_lt hopen
    obtain ⟨_, hepoch, hstart, hterms, _⟩ := (rolled?_eq_some_iff_of_le hended).mp hrolled
    have hgrid : q.ending + q.passed now * duration.toNat =
        first.seconds.toNat + r.epoch.toNat * duration.toNat := by
      rw [h.ending_eq, hepoch, Nat.add_mul, Nat.add_mul, Nat.one_mul]
      omega
    rw [← hterms, hduration, hgrid] at hstart
    refine ⟨hduration, ?_, fun _ => hstart⟩
    intro hzero
    rw [hzero, UInt64.toNat_zero] at hepoch
    omega

/-- Only the first epoch keeps the part of the second that had passed. -/
theorem on_grid_iff (h : q.Follows first duration) :
    q.start.nanos.toNat = first.nanos.toNat + q.epoch.toNat * (duration.toNat * 1000000000) ↔
      q.epoch = 0 ∨ first.nanos.toNat % 1000000000 = 0 := by
  by_cases hfirst : q.epoch = 0
  · simp [h.start_first hfirst, hfirst]
  · rw [h.start_later hfirst, Timestamp.toNat_seconds, Nat.add_mul, ← Nat.mul_assoc]
    simp only [hfirst, false_or]
    omega

/-- The epoch is open up to the second in which it ends. -/
theorem rolled?_eq_self_iff (h : q.Follows first duration) (later : Timestamp) :
    q.rolled? later = some q ↔ later.nanos.toNat <
      (first.seconds.toNat + q.epoch.toNat * duration.toNat + duration.toNat) * 1000000000 := by
  have hseconds := later.toNat_seconds
  rw [← h.ending_eq]
  constructor
  · intro hsame
    have hopen := lt_ending_of_rolled? hsame
    omega
  · intro hbefore
    apply rolled?_of_lt
    omega

/-- The times of the open epoch follow from its place. -/
theorem timed (h : q.Follows first duration) : q.Timed first duration := by
  have hseconds := first.toNat_seconds
  constructor
  case toFollows => exact h
  case on_grid_iff => exact h.on_grid_iff
  case lasts_first =>
    intro hfirst later
    rw [h.rolled?_eq_self_iff, h.start_first hfirst, hfirst, UInt64.toNat_zero]
    omega
  case lasts_later =>
    intro hlater later
    rw [h.rolled?_eq_self_iff, h.start_later hlater]
    omega

end Follows

end Quota

/-- A flow that was never capped has no quota. Of one that was, the quota follows. -/
inductive FollowsSince (duration : UInt64) : Option Timestamp → Option Quota → Prop
  | uncapped : FollowsSince duration none none
  | capped {first q} (h : q.Follows first duration) : FollowsSince duration (some first) (some q)

/-- A step keeps the open epoch in its place, as long as it leaves the duration as it is. -/
theorem QuotaStep.followsSince {charge : Option Charge} {set : Option Terms}
    {quota after : Option Quota} {first? : Option Timestamp}
    (hstep : QuotaStep now quota charge set after) (h : FollowsSince duration first? quota)
    (hkeeps : ∀ q ∈ after, q.terms.duration = duration) :
    FollowsSince duration (first?.or (set.map fun _ => now)) after := by
  cases hstep with
  | keep quota =>
    rw [Option.map_none, Option.or_none]
    exact h
  | opened terms hvalid =>
    cases h with
    | uncapped =>
      refine .capped ⟨hkeeps _ rfl, fun _ => rfl, fun hlater => ?_⟩
      exact (hlater rfl).elim
  | @scheduled _ rolled terms hrolled _ =>
    cases h with
    | capped h =>
      have hduration := hkeeps { rolled with pending := some terms } rfl
      exact .capped ((h.rolled hrolled hduration).of_sameEpoch (rolled.sameEpoch_withPending terms))
  | charged hrolled htaken =>
    cases h with
    | capped h =>
      obtain ⟨_, _, hafter⟩ := Quota.take?_eq_some_iff.mp htaken
      have hduration := hkeeps _ rfl
      rw [hafter] at hduration ⊢
      exact .capped ((h.rolled hrolled hduration).of_sameEpoch ⟨rfl, rfl, rfl⟩)

/-- The time of the first capping is found before the last request, or it is the time of that. -/
theorem firstCapped?_snoc (flow : Flow) (token : Address) (log : List Entry) (e : Entry) :
    firstCapped? flow token (log ++ [e]) =
      (firstCapped? flow token log).or ((e.termsSet? flow token).map fun _ => e.env.now) := by
  unfold firstCapped?
  rw [List.find?_append, Option.map_or, List.find?_singleton]
  cases e.termsSet? flow token with
  | none => rfl
  | some terms => rfl

theorem KeepsDuration.of_snoc {e : Entry} (h : KeepsDuration flow token duration (log ++ [e])) :
    KeepsDuration flow token duration log ∧
      ∀ q ∈ e.after.quota? flow token, q.terms.duration = duration :=
  ⟨fun e' he' => h e' (List.mem_append_left _ he'),
    h e (List.mem_append_right _ List.mem_cons_self)⟩

namespace Run

variable [AddressRules] {q : Quota}

/-- In every run that keeps the duration, the quota follows the first capping. -/
theorem followsSince (h : Run g log s) (hkeeps : KeepsDuration flow token duration log) :
    FollowsSince duration (firstCapped? flow token log) (s.quota? flow token) := by
  induction h using rec_step with
  | found _ hfound =>
    obtain ⟨_, _, _, rfl⟩ := yields_found hfound
    have hnone : Store.empty.quota? flow token = none := by simp [Store.quota?, Store.empty]
    change FollowsSince duration none (Store.empty.quota? flow token)
    rw [hnone]
    exact .uncapped
  | fault env request reason _ _ ih =>
    obtain ⟨hbefore, _⟩ := hkeeps.of_snoc
    rw [firstCapped?_snoc, Entry.termsSet?_error, Option.map_none, Option.or_none]
    exact ih hbefore
  | step _ _ hstep ih =>
    obtain ⟨hbefore, hlast⟩ := hkeeps.of_snoc
    rw [firstCapped?_snoc]
    exact (hstep.quotaStep flow token).followsSince (ih hbefore) hlast

/-- In every run in which no terms change the duration, the epochs of a capped flow of a token
follow the time at which it was capped first, as stored and as of any time. The first one starts at
that time, and all others whole durations after the second of it. -/
theorem epochs_timed (h : Run g log s) (hkeeps : KeepsDuration flow token duration log)
    (hquota : s.quota? flow token = some q) :
    ∃ first, firstCapped? flow token log = some first ∧ q.Timed first duration ∧
      ∀ now r, q.rolled? now = some r → r.terms.duration = duration → r.Timed first duration := by
  have hsince := h.followsSince hkeeps
  rw [hquota] at hsince
  generalize hfirst : firstCapped? flow token log = first? at hsince
  cases hsince with
  | @capped first _ hfollows =>
    refine ⟨first, rfl, hfollows.timed, ?_⟩
    intro now r hrolled hduration
    exact (hfollows.rolled hrolled hduration).timed

end Run

namespace Sample

/-- A block in the middle of a second. -/
def halfPast : Env := { Sample.env with now := ⟨1500000000⟩ }

/-- Deposits are capped in that block, with epochs of a minute. -/
def minutely : List Entry × Store :=
  ((found genesis).transact .empty).2.play
    [(halfPast, .command "root" (.setTerms "cash" .deposit ⟨.zero, 60⟩))]

theorem run_minutely : Run genesis minutely.1 minutely.2 :=
  Run.of_found (by decide +kernel) _ (by decide)

/-- The first epoch. -/
def firstMinute : Quota := .opened ⟨.zero, 60⟩ ⟨1500000000⟩

/-- The epoch after it, which starts on the full second. -/
def secondMinute : Quota := { firstMinute with epoch := 1, start := ⟨61000000000⟩ }

theorem outcome_minutely :
    KeepsDuration .deposit "cash" 60 minutely.1 ∧
      firstCapped? .deposit "cash" minutely.1 = some ⟨1500000000⟩ ∧
      minutely.2.quota? .deposit "cash" = some firstMinute ∧
      firstMinute.rolled? ⟨61000000000⟩ = some secondMinute := by
  unfold KeepsDuration
  decide +kernel

end Sample

/-- Of a cap set in the middle of a second, the second epoch starts half a second early, and lasts
its full minute. -/
theorem Run.epochs_timed_sample :
    Run Sample.genesis Sample.minutely.1 Sample.minutely.2 ∧
      KeepsDuration .deposit "cash" 60 Sample.minutely.1 ∧
      Sample.minutely.2.quota? .deposit "cash" = some Sample.firstMinute ∧
      Sample.firstMinute.rolled? ⟨61000000000⟩ = some Sample.secondMinute ∧
      Sample.firstMinute.Timed ⟨1500000000⟩ 60 ∧ Sample.secondMinute.Timed ⟨1500000000⟩ 60 := by
  obtain ⟨hkeeps, hfirst, hquota, hrolled⟩ := Sample.outcome_minutely
  obtain ⟨first, hfirst', htimed, hlater⟩ := epochs_timed Sample.run_minutely hkeeps hquota
  obtain rfl := Option.some.inj (hfirst.symm.trans hfirst')
  exact ⟨Sample.run_minutely, hkeeps, hquota, hrolled, htimed, hlater _ _ hrolled rfl⟩

/-- An epoch does not always start whole durations after the time of the first capping. -/
theorem Run.not_on_grid :
    ¬ ∀ (g : Genesis) (log : List Entry) (s : Store) (flow : Flow) (token : Address)
        (duration : UInt64) (first : Timestamp) (q : Quota), Run g log s →
      KeepsDuration flow token duration log → firstCapped? flow token log = some first →
      s.quota? flow token = some q →
      ∀ (now : Timestamp) (r : Quota), q.rolled? now = some r → r.terms.duration = duration →
        r.start.nanos.toNat =
          first.nanos.toNat + r.epoch.toNat * (duration.toNat * 1000000000) := by
  intro hgrid
  obtain ⟨hkeeps, hfirst, hquota, hrolled⟩ := Sample.outcome_minutely
  have hstart := hgrid _ _ _ _ _ _ _ _ Sample.run_minutely hkeeps hfirst hquota _ _ hrolled rfl
  exact absurd hstart (by decide)

end TokenBridge

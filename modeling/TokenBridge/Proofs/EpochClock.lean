import TokenBridge.Proofs.SoundQuota

/-!
# The clock of a quota

A clock opens one epoch after the other: an epoch that has ended is followed by one that starts at
its end, under the terms that waited for it if there are any. Rolling a quota forward takes the
first end under the old terms, divides the time that is left by the next duration and skips all
epochs between. It arrives where the clock arrives, so nothing shows how often a quota was looked
at on the way, or in which order.
-/

namespace TokenBridge

/-- The later one of two points in time. -/
instance : Max Timestamp := ⟨fun t later => if t.nanos ≤ later.nanos then later else t⟩

namespace Quota

/-- One tick of the clock: the epoch after the open one starts where that ends, under the terms that
waited for it. Its number and its start have to be counted. -/
def tick? (q : Quota) : Option Quota := do
  let epoch ← word64? (q.epoch.toNat + 1)
  let nanos ← word64? (q.ending * 1000000000)
  some { epoch, start := ⟨nanos⟩, terms := q.pending.getD q.terms, used := .zero, pending := none }

/-- The clock ticks as long as the open epoch has ended. -/
inductive Clocked (now : Timestamp) : Quota → Quota → Prop
  | rest {q} (hopen : now.seconds.toNat < q.ending) : Clocked now q q
  | tick {q next r} (hended : q.ending ≤ now.seconds.toNat) (htick : q.tick? = some next)
      (hrest : Clocked now next r) : Clocked now q r

variable {q r next : Quota} {now : Timestamp}

theorem tick?_eq_some_iff :
    q.tick? = some next ↔
      next.epoch.toNat = q.epoch.toNat + 1 ∧ next.start.nanos.toNat = q.ending * 1000000000 ∧
        next.terms = q.nextTerms ∧ next.used = .zero ∧ next.pending = none := by
  simp only [tick?, Option.bind_eq_bind, Option.bind_eq_some_iff, word64?_eq_some_iff,
    Option.some.injEq]
  constructor
  · rintro ⟨epoch, hepoch, nanos, hnanos, rfl⟩
    exact ⟨hepoch, hnanos, rfl, rfl, rfl⟩
  · rintro ⟨hepoch, hnanos, hterms, hused, hpending⟩
    refine ⟨next.epoch, hepoch, next.start.nanos, hnanos, ?_⟩
    rw [← nextTerms, ← hterms, ← hused, ← hpending]

/-- The epoch that a tick opens starts in the second in which the one before it ends. -/
theorem toNat_seconds_of_tick? (htick : q.tick? = some next) :
    next.start.seconds.toNat = q.ending := by
  obtain ⟨_, hstart, _⟩ := tick?_eq_some_iff.mp htick
  rw [Timestamp.toNat_seconds, hstart]
  omega

/-- A tick is what rolling forward to the end of the open epoch does. -/
theorem rolled?_of_tick? (hnext : q.nextTerms.duration ≠ 0) (htick : q.tick? = some next) :
    q.rolled? next.start = some next := by
  have hseconds := toNat_seconds_of_tick? htick
  obtain ⟨hepoch, hstart, hfresh⟩ := tick?_eq_some_iff.mp htick
  have hpassed : q.passed next.start = 0 := by
    rw [passed, hseconds, Nat.sub_self, Nat.zero_div]
  rw [rolled?_eq_some_iff_of_le (Nat.le_of_eq hseconds.symm), hpassed, Nat.zero_mul, Nat.add_zero,
    Nat.add_zero]
  exact ⟨hnext, hepoch, hstart, hfresh⟩

namespace Sound

/-- Of a sound quota, an epoch that has ended is followed by another one. -/
theorem exists_tick? (h : q.Sound) (hended : q.ending ≤ now.seconds.toNat) :
    ∃ next, q.tick? = some next := by
  have hepoch := h.epoch_le
  have hstart := q.start.nanos.toNat_lt
  have hnow := now.nanos.toNat_lt
  rw [Timestamp.toNat_seconds] at hepoch hended
  refine ⟨⟨UInt64.ofNat (q.epoch.toNat + 1), ⟨UInt64.ofNat (q.ending * 1000000000)⟩, q.nextTerms,
    .zero, none⟩, tick?_eq_some_iff.mpr
      ⟨UInt64.toNat_ofNat_of_lt' ?_, UInt64.toNat_ofNat_of_lt' ?_, rfl, rfl, rfl⟩⟩
  · rw [UInt64.size]
    omega
  · rw [UInt64.size]
    omega

/-- A tick keeps a quota sound. -/
theorem ticked (h : q.Sound) (htick : q.tick? = some next) : next.Sound :=
  h.rolled (rolled?_of_tick? h.nextTerms_duration_ne htick)

/-- After a tick the quota is still rolled forward to the same one. -/
theorem rolled?_ticked (h : q.Sound) (hended : q.ending ≤ now.seconds.toNat)
    (htick : q.tick? = some next) : next.rolled? now = q.rolled? now := by
  obtain ⟨r, hr⟩ := h.exists_rolled now
  have hle : next.start.seconds.toNat ≤ now.seconds.toNat := by
    rwa [toNat_seconds_of_tick? htick]
  rw [hr]
  exact rolled?_eq_of_rolled? (rolled?_of_tick? h.nextTerms_duration_ne htick) hle hr

/-- Where the clock comes to rest, rolling forward arrives too. -/
theorem rolled?_of_clocked (h : q.Sound) (hclocked : Clocked now q r) :
    q.rolled? now = some r := by
  induction hclocked with
  | rest hopen => exact rolled?_of_lt hopen
  | tick hended htick _ ih =>
    rw [← h.rolled?_ticked hended htick]
    exact ih (h.ticked htick)

/-- The clock of a sound quota comes to rest, since each tick brings the start closer to now. -/
theorem exists_clocked (h : q.Sound) (now : Timestamp) : ∃ r, Clocked now q r := by
  induction hleft : now.seconds.toNat - q.start.seconds.toNat using Nat.strongRecOn generalizing q
  case ind left ih =>
    by_cases hopen : now.seconds.toNat < q.ending
    · exact ⟨q, .rest hopen⟩
    · have hended : q.ending ≤ now.seconds.toNat := Nat.le_of_not_lt hopen
      obtain ⟨next, htick⟩ := h.exists_tick? hended
      have hstart : next.start.seconds.toNat = q.start.seconds.toNat + q.terms.duration.toNat :=
        toNat_seconds_of_tick? htick
      have hlasts := UInt64.toNat_pos_of_ne_zero h.duration_ne
      have hending : q.ending = q.start.seconds.toNat + q.terms.duration.toNat := rfl
      obtain ⟨r, hrest⟩ := ih _ (by omega) (h.ticked htick) rfl
      exact ⟨r, .tick hended htick hrest⟩

/-- Rolling forward and the clock agree. -/
theorem clocked_iff (h : q.Sound) : Clocked now q r ↔ q.rolled? now = some r := by
  refine ⟨h.rolled?_of_clocked, ?_⟩
  intro hrolled
  obtain ⟨r', hclocked⟩ := h.exists_clocked now
  have hsame := (h.rolled?_of_clocked hclocked).symm.trans hrolled
  rwa [Option.some.inj hsame] at hclocked

/-- A quota that is looked at twice shows what it shows at the later time alone. -/
theorem rolled?_bind_rolled? (h : q.Sound) (t t' : Timestamp) :
    (q.rolled? t).bind (·.rolled? t') = q.rolled? (max t t') := by
  obtain ⟨r, hr⟩ := h.exists_rolled t
  rw [hr, Option.bind_some]
  by_cases hle : t.nanos ≤ t'.nanos
  · have hmax : max t t' = t' := if_pos hle
    obtain ⟨r', hr'⟩ := h.exists_rolled t'
    rw [hmax, hr']
    exact rolled?_eq_of_rolled? hr (Timestamp.seconds_le_of_nanos_le hle) hr'
  · have hmax : max t t' = t := if_neg hle
    -- A time that is already behind the quota does not move it back.
    have hback : t'.seconds.toNat ≤ t.seconds.toNat :=
      Timestamp.seconds_le_of_nanos_le (UInt64.le_of_lt (UInt64.not_le.mp hle))
    rw [hmax, hr]
    exact rolled?_of_lt (Nat.lt_of_le_of_lt hback (lt_ending_of_rolled? hr))

/-- However often a quota is looked at, it shows what it shows at the latest time alone. -/
theorem foldlM_rolled? (h : q.Sound) (t : Timestamp) (times : List Timestamp) :
    (t :: times).foldlM rolled? q = q.rolled? (times.foldl max t) := by
  induction times generalizing q t with
  | nil => exact bind_pure (q.rolled? t)
  | cons t' times ih =>
    calc (t :: t' :: times).foldlM rolled? q
        = ((q.rolled? t).bind (·.rolled? t')).bind (times.foldlM rolled?) :=
          (Option.bind_assoc ..).symm
      _ = (max t t' :: times).foldlM rolled? q := by
          rw [h.rolled?_bind_rolled?]
          rfl
      _ = q.rolled? (times.foldl max (max t t')) := ih h (max t t')

/-- A sound quota is rolled forward to every time, and is then the one at which its clock comes to
rest. Rolling it forward more than once, to times in whatever order, is rolling it forward once to
the latest of them. -/
theorem rolled_as_clocked (h : q.Sound) :
    (∀ now, ∃ r, q.rolled? now = some r ∧ ∀ r', Clocked now q r' ↔ r' = r) ∧
      (∀ t t', (q.rolled? t).bind (·.rolled? t') = q.rolled? (max t t')) ∧
        ∀ t times, (t :: times).foldlM rolled? q = q.rolled? (times.foldl max t) := by
  refine ⟨?_, h.rolled?_bind_rolled?, h.foldlM_rolled?⟩
  intro now
  obtain ⟨r, hr⟩ := h.exists_rolled now
  refine ⟨r, hr, ?_⟩
  intro r'
  rw [h.clocked_iff, hr, Option.some.injEq]
  exact eq_comm

end Sound

end Quota

namespace Sample

/-- A quota that opened half a second after a full one, with terms of seven seconds that wait for
the end of sixty. -/
def changing : Quota :=
  ⟨2, ⟨100500000000⟩, ⟨⟨45, by decide⟩, 60⟩, ⟨16, by decide⟩, some ⟨⟨14, by decide⟩, 7⟩⟩

/-- Its sixth epoch under those terms, which is the one open forty seconds after that end. -/
def renewed : Quota := ⟨8, ⟨195000000000⟩, ⟨⟨14, by decide⟩, 7⟩, .zero, none⟩

theorem changing_sound : changing.Sound where
  duration_ne := by decide
  pending_ne := by decide
  epoch_le := by decide

end Sample

/-- The clock ticks six times up to a late point in time, and looking again at earlier ones does not
turn it back. -/
theorem Quota.Sound.rolled_as_clocked_sample :
    Sample.changing.Sound ∧ Clocked ⟨200900000000⟩ Sample.changing Sample.renewed ∧
      [⟨130000000000⟩, ⟨200900000000⟩, ⟨170000000000⟩].foldlM rolled? Sample.changing =
        some Sample.renewed := by
  have hsound := Sample.changing_sound
  obtain ⟨hclock, _, htouched⟩ := rolled_as_clocked hsound
  have hrolled : Sample.changing.rolled? ⟨200900000000⟩ = some Sample.renewed := by decide
  obtain ⟨r, hr, hrest⟩ := hclock ⟨200900000000⟩
  have hrenewed : Sample.renewed = r := Option.some.inj (hrolled.symm.trans hr)
  exact ⟨hsound, (hrest _).mpr hrenewed, (htouched ..).trans hrolled⟩

end TokenBridge

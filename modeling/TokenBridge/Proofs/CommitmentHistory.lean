import TokenBridge.Proofs.Run

/-!
# The history of commitments

The store keeps the commitments of the calls that succeeded and no others, each under its height.
Their heights follow one another without gaps from the first height on, so no height is ever
committed twice, and their times never run backwards. What is stored stays as it is.
-/

namespace TokenBridge

variable {g : Genesis} {log : List Entry} {env : Env} {now : Timestamp} {s t : Store}
  {request : Request} {receipt : Receipt} {c : Commitment} {e : Entry}

namespace Entry

/-- The height at which a request committed, if it did. -/
def commitHeight? (e : Entry) : Option UInt64 :=
  match e.request, e.result with
  | .command _ (.commit height _ _), .ok _ => some height
  | _, _ => none

/-- The commitment that a request made, as its committer gave it. -/
def commitment? (e : Entry) : Option Commitment :=
  match e.request, e.result with
  | .command _ (.commit height root seconds), .ok _ => do
    let root ← Word256.ofBytes? root
    let time ← Timestamp.ofSeconds? seconds
    return { height, root, time }
  | _, _ => none

/-- A request made a commitment if it is a call to commit it that succeeded. -/
theorem exists_of_commitment? (h : e.commitment? = some c) :
    ∃ sender root seconds receipt, e.request = .command sender (.commit c.height root seconds) ∧
      e.result = .ok receipt ∧ Timestamp.ofSeconds? seconds = some c.time := by
  unfold commitment? at h
  split at h
  · next sender height root seconds receipt hrequest hresult =>
    simp only [Option.bind_eq_bind, Option.bind_eq_some_iff] at h
    obtain ⟨word, _, time, htime, hc⟩ := h
    obtain rfl := Option.some.inj hc
    exact ⟨sender, root, seconds, receipt, hrequest, hresult, htime⟩
  · cases h

/-- A request that faults commits nothing. -/
theorem commits_nothing_of_error (env : Env) (request : Request) (reason : Fault) (after : Store) :
    let e : Entry := ⟨env, request, .error reason, after⟩
    e.commitHeight? = none ∧ e.commitment? = none := by
  cases request with
  | command sender command =>
    cases command with
    | _ => exact ⟨rfl, rfl⟩
  | _ => exact ⟨rfl, rfl⟩

end Entry

/-- The commitments made in a log, in the order of their calls. -/
def commitmentsIn (log : List Entry) : List Commitment := log.filterMap Entry.commitment?

theorem commitmentsIn_snoc (log : List Entry) (e : Entry) :
    commitmentsIn (log ++ [e]) = commitmentsIn log ++ e.commitment?.toList :=
  filterMap_snoc Entry.commitment? log e

namespace Store

/-- The height expected next is the first one, or the one after the latest. -/
theorem expectedHeight_eq_ok_iff {settings : Settings} {height : UInt64} :
    s.expectedHeight settings = .ok height ↔
      (s.lastHeight = none ∧ height = settings.startHeight) ∨
        ∃ last, s.lastHeight = some last ∧ height.toNat = last.toNat + 1 := by
  unfold expectedHeight
  cases s.lastHeight with
  | none => simp [eq_comm]
  | some last => simp [orAbort_eq_ok_iff, add64?_eq_some_iff]

/-- A time passes if the latest commitment is stored and not later. -/
theorem requireNoEarlier_eq_ok_iff {time : Timestamp} {u : Unit} :
    s.requireNoEarlier time = .ok u ↔
      ∀ last, s.lastHeight = some last →
        ∃ latest, s.commitments[last]? = some latest ∧ latest.time.nanos ≤ time.nanos := by
  unfold requireNoEarlier
  cases s.lastHeight with
  | none => simp
  | some last =>
    simp [Except.bind_eq_ok_iff, getCommitment, present_eq_ok_iff, demand_eq_ok_iff]

/-- A commitment is next if it has the expected height, and its time is neither ahead of the clock
nor before that of the latest one. -/
theorem requireNext_eq_ok_iff {u : Unit} :
    s.requireNext now c = .ok u ↔
      (∃ settings, s.settings = some settings ∧ s.expectedHeight settings = .ok c.height) ∧
        c.time.nanos ≤ now.nanos ∧ s.requireNoEarlier c.time = .ok u := by
  simp only [requireNext, Except.bind_eq_ok_iff, getSettings, present_eq_ok_iff, demand_eq_ok_iff,
    exists_const]
  constructor
  · rintro ⟨settings, hsettings, expected, hexpected, rfl, hclock, hearlier⟩
    exact ⟨⟨settings, hsettings, hexpected⟩, hclock, hearlier⟩
  · rintro ⟨⟨settings, hsettings, hexpected⟩, hclock, hearlier⟩
    exact ⟨settings, hsettings, c.height, hexpected, rfl, hclock, hearlier⟩

/-- The store keeps the given commitments and no others. They were made one height after another
from a first one on, none at an earlier time than one below it. -/
structure Records (s : Store) (start : UInt64) (made : List Commitment) : Prop where
  stored : ∀ height c, s.commitments[height]? = some c ↔ c ∈ made ∧ c.height = height
  heights : made.map (·.height.toNat) = List.range' start.toNat made.length
  last_none : s.lastHeight = none → made = []
  last_some : ∀ last, s.lastHeight = some last →
    made ≠ [] ∧ last.toNat + 1 = start.toNat + made.length
  times : ∀ c ∈ made, ∀ c' ∈ made, c.height ≤ c'.height → c.time.nanos ≤ c'.time.nanos

namespace Records

variable {start : UInt64} {made : List Commitment}

/-- The heights made are those from the first one on, as many as there are commitments. -/
theorem exists_height_iff (h : s.Records start made) (n : Nat) :
    (∃ c ∈ made, c.height.toNat = n) ↔ start.toNat ≤ n ∧ n < start.toNat + made.length := by
  rw [← List.mem_range'_1, ← h.heights, List.mem_map]

/-- The next commitment has the height after all those made. -/
theorem height_of_requireNext (h : s.Records start made) {settings : Settings}
    (hsettings : s.settings = some settings) (hstart : settings.startHeight = start)
    (hnext : s.requireNext now c = .ok ()) :
    c.height.toNat = start.toNat + made.length := by
  obtain ⟨⟨settings', hsettings', hexpected⟩, _, _⟩ := Store.requireNext_eq_ok_iff.mp hnext
  obtain rfl := Option.some.inj (hsettings'.symm.trans hsettings)
  rcases Store.expectedHeight_eq_ok_iff.mp hexpected with ⟨hnone, hheight⟩ | ⟨last, hlast, hheight⟩
  · rw [hheight, hstart, h.last_none hnone]
    rfl
  · have hspan := (h.last_some last hlast).2
    omega

/-- The next commitment is not made before those already there. -/
theorem times_of_requireNext (h : s.Records start made) (hnext : s.requireNext now c = .ok ()) :
    ∀ c' ∈ made, c'.time.nanos ≤ c.time.nanos := by
  intro c' hc'
  obtain ⟨_, _, hearlier⟩ := Store.requireNext_eq_ok_iff.mp hnext
  cases hlast : s.lastHeight with
  | none =>
    rw [h.last_none hlast] at hc'
    cases hc'
  | some last =>
    obtain ⟨latest, hstored, hle⟩ := Store.requireNoEarlier_eq_ok_iff.mp hearlier last hlast
    obtain ⟨hmade, rfl⟩ := (h.stored last latest).mp hstored
    have hspan := (h.last_some latest.height hlast).2
    have hbelow := ((h.exists_height_iff c'.height.toNat).mp ⟨c', hc', rfl⟩).2
    have hheight : c'.height ≤ latest.height := UInt64.le_iff_toNat_le.mpr (by omega)
    exact UInt64.le_trans (h.times c' hc' latest hmade hheight) hle

/-- The next commitment is higher than all those already there. -/
theorem height_lt_of_requireNext (h : s.Records start made) {settings : Settings}
    (hsettings : s.settings = some settings) (hstart : settings.startHeight = start)
    (hnext : s.requireNext now c = .ok ()) : ∀ c' ∈ made, c'.height < c.height := by
  intro c' hc'
  have hheight := h.height_of_requireNext hsettings hstart hnext
  have hspan := ((h.exists_height_iff c'.height.toNat).mp ⟨c', hc', rfl⟩).2
  rw [UInt64.lt_iff_toNat_lt]
  omega

/-- A commitment above all those stored joins them. -/
theorem getElem?_insert_eq_some_iff (h : s.Records start made)
    (habove : ∀ c' ∈ made, c'.height < c.height) (height : UInt64) (c' : Commitment) :
    (s.commitments.insert c.height c)[height]? = some c' ↔
      c' ∈ made ++ [c] ∧ c'.height = height := by
  rw [Std.ExtTreeMap.getElem?_insert, List.mem_append, List.mem_singleton]
  by_cases heq : c.height = height
  · rw [if_pos (Std.compare_eq_iff_eq.mpr heq), Option.some.injEq]
    constructor
    · rintro rfl
      exact ⟨Or.inr rfl, heq⟩
    · rintro ⟨hold | rfl, hc'⟩
      · have hlt := habove c' hold
        rw [hc', heq] at hlt
        exact absurd hlt (UInt64.lt_irrefl height)
      · rfl
  · rw [if_neg (mt Std.compare_eq_iff_eq.mp heq), h.stored height c']
    constructor
    · rintro ⟨hold, hc'⟩
      exact ⟨Or.inl hold, hc'⟩
    · rintro ⟨hold | rfl, hc'⟩
      · exact ⟨hold, hc'⟩
      · exact absurd hc' heq

/-- A commitment above all those stored and not before them keeps the times in order. -/
theorem times_append (h : s.Records start made) (habove : ∀ c' ∈ made, c'.height < c.height)
    (hafter : ∀ c' ∈ made, c'.time.nanos ≤ c.time.nanos) :
    ∀ a ∈ made ++ [c], ∀ b ∈ made ++ [c], a.height ≤ b.height → a.time.nanos ≤ b.time.nanos := by
  intro a ha b hb hab
  rcases List.mem_append.mp ha with hold | hnew
  · rcases List.mem_append.mp hb with hold' | hnew'
    · exact h.times a hold b hold' hab
    · rw [List.mem_singleton.mp hnew']
      exact hafter a hold
  · rw [List.mem_singleton.mp hnew] at hab ⊢
    rcases List.mem_append.mp hb with hold' | hnew'
    · exact absurd (habove b hold') (UInt64.not_lt.mpr hab)
    · rw [List.mem_singleton.mp hnew']
      exact UInt64.le_refl _

/-- Storing the next commitment adds it at the end. -/
theorem commit (h : s.Records start made) {settings : Settings}
    (hsettings : s.settings = some settings) (hstart : settings.startHeight = start)
    (hnext : s.requireNext now c = .ok ())
    (hstored : t.commitments = s.commitments.insert c.height c)
    (hlast : t.lastHeight = some c.height) : t.Records start (made ++ [c]) := by
  have hheight := h.height_of_requireNext hsettings hstart hnext
  have habove := h.height_lt_of_requireNext hsettings hstart hnext
  constructor
  case stored =>
    rw [hstored]
    exact h.getElem?_insert_eq_some_iff habove
  case heights =>
    rw [List.map_append, h.heights, List.length_append, List.length_singleton, List.range'_concat,
      Nat.one_mul, ← hheight]
    rfl
  case last_none =>
    intro hnone
    rw [hlast] at hnone
    cases hnone
  case last_some =>
    intro last hsome
    obtain rfl := Option.some.inj (hlast.symm.trans hsome)
    refine ⟨List.append_ne_nil_of_right_ne_nil made (List.cons_ne_nil c []), ?_⟩
    rw [List.length_append, List.length_singleton]
    omega
  case times => exact h.times_append habove (h.times_of_requireNext hnext)

/-- What is stored are the heights from the first one up to the latest, or nothing at all. -/
theorem span (h : s.Records start made) :
    (s.commitments = ∅ ∧ s.lastHeight = none) ∨
      ∃ last, s.lastHeight = some last ∧ start ≤ last ∧
        ∀ height, height ∈ s.commitments ↔ start ≤ height ∧ height ≤ last := by
  cases hlast : s.lastHeight with
  | none =>
    refine Or.inl ⟨?_, rfl⟩
    rw [Std.ExtTreeMap.eq_empty_iff_forall_not_mem]
    intro height hmem
    obtain ⟨hmade, _⟩ := (h.stored height _).mp (Std.ExtTreeMap.getElem?_eq_some_getElem hmem)
    rw [h.last_none hlast] at hmade
    cases hmade
  | some last =>
    obtain ⟨hne, hspan⟩ := h.last_some last hlast
    have hpos := List.length_pos_iff.mpr hne
    refine Or.inr ⟨last, rfl, UInt64.le_iff_toNat_le.mpr (by omega), ?_⟩
    intro height
    have hmem : height ∈ s.commitments ↔ ∃ c ∈ made, c.height.toNat = height.toNat := by
      rw [Std.ExtTreeMap.mem_iff_isSome_getElem?, Option.isSome_iff_exists]
      simp only [h.stored height, UInt64.toNat_inj]
    rw [hmem, h.exists_height_iff, UInt64.le_iff_toNat_le, UInt64.le_iff_toNat_le]
    omega

end Records

end Store

/-- A step makes no commitment and leaves them all as they are, or makes the next one. -/
theorem Step.commitments [AddressRules] (hstep : Step env s request receipt t) :
    let e : Entry := ⟨env, request, .ok receipt, t⟩
    (e.commitHeight? = none ∧ e.commitment? = none ∧ t.commitments = s.commitments ∧
        t.lastHeight = s.lastHeight) ∨
      ∃ c, e.commitHeight? = some c.height ∧ e.commitment? = some c ∧
        s.requireNext env.now c = .ok () ∧ t.commitments = s.commitments.insert c.height c ∧
        t.lastHeight = some c.height := by
  cases hstep with
  | deposit _ _ _ hrecord | receive _ _ _ hrecord =>
    obtain ⟨_, _, rfl⟩ := DepositOrder.store_of_record hrecord
    exact Or.inl ⟨rfl, rfl, rfl, rfl⟩
  | @commit _ root seconds c _ _ hroot htime hnext _ =>
    refine Or.inr ⟨c, rfl, ?_, hnext, rfl, rfl⟩
    simp [Entry.commitment?, hroot, htime]
  | _ => exact Or.inl ⟨rfl, rfl, rfl, rfl⟩

/-- What holds of the commitments of a bridge that was founded in the given way, after the requests
of the log. -/
structure GaplessHistory [AddressRules] (g : Genesis) (log : List Entry) (s : Store) : Prop where
  /-- Nothing is stored, or the heights from the first one up to the latest and no others. -/
  span : (s.commitments = ∅ ∧ s.lastHeight = none) ∨
    ∃ settings last, s.settings = some settings ∧ settings.startHeight = g.startHeight ∧
      s.lastHeight = some last ∧ settings.startHeight ≤ last ∧
      ∀ height, height ∈ s.commitments ↔ settings.startHeight ≤ height ∧ height ≤ last
  /-- A commitment is stored under its own height, and its time is a whole second. -/
  stored : ∀ (height : UInt64) (c : Commitment), s.commitments[height]? = some c →
    c.height = height ∧ c.time.nanos.toNat % 1000000000 = 0
  /-- It was made by a call of the log, in a block not before its time. -/
  called : ∀ (height : UInt64) (c : Commitment), s.commitments[height]? = some c →
    ∃ e ∈ log, e.commitment? = some c ∧ c.time.nanos ≤ e.env.now.nanos
  /-- A commitment is not made at an earlier time than one below it. -/
  ordered : ∀ (height height' : UInt64) (c c' : Commitment), s.commitments[height]? = some c →
    s.commitments[height']? = some c' → height ≤ height' → c.time.nanos ≤ c'.time.nanos
  /-- However the run goes on, what is stored stays as it is. -/
  kept : ∀ later t, Run g (log ++ later) t →
    ∀ (height : UInt64) (c : Commitment), s.commitments[height]? = some c →
      t.commitments[height]? = some c
  /-- No two calls that succeeded committed the same height. -/
  once : (log.filterMap Entry.commitHeight?).Nodup

namespace Run

variable [AddressRules]

/-- In every run the store keeps the commitments made so far. -/
theorem records (h : Run g log s) : s.Records g.startHeight (commitmentsIn log) := by
  induction h using rec_step with
  | found _ hfound =>
    obtain ⟨_, _, _, rfl⟩ := yields_found hfound
    refine ⟨?_, rfl, fun _ => rfl, nofun, nofun⟩
    intro height c
    simp [Store.empty, commitmentsIn]
  | fault env request reason _ _ ih =>
    rw [commitmentsIn_snoc, (Entry.commits_nothing_of_error env request reason _).2]
    simpa using ih
  | step hrun _ hstep ih =>
    rw [commitmentsIn_snoc]
    rcases hstep.commitments with ⟨_, hnone, hstored, hlast⟩ |
      ⟨c, _, hsome, hnext, hstored, hlast⟩
    · rw [hnone, Option.toList_none, List.append_nil]
      refine ⟨?_, ih.heights, ?_, ?_, ih.times⟩
      · rw [hstored]
        exact ih.stored
      · rw [hlast]
        exact ih.last_none
      · rw [hlast]
        exact ih.last_some
    · obtain ⟨_, _, hsettings⟩ := hrun.settings_eq
      rw [hsome, Option.toList_some]
      exact ih.commit hsettings rfl hnext hstored hlast

/-- The heights of the calls that committed are those of the commitments they made. -/
theorem filterMap_commitHeight? (h : Run g log s) :
    log.filterMap Entry.commitHeight? = (commitmentsIn log).map Commitment.height := by
  induction h using rec_step with
  | found _ _ => rfl
  | fault env request reason _ _ ih =>
    obtain ⟨hheight, hnone⟩ := Entry.commits_nothing_of_error env request reason _
    rw [filterMap_snoc, commitmentsIn_snoc, hheight, hnone]
    simpa using ih
  | step _ _ hstep ih =>
    rw [filterMap_snoc, commitmentsIn_snoc, ih, List.map_append]
    rcases hstep.commitments with ⟨hheight, hnone, _⟩ | ⟨c, hheight, hsome, _⟩
    · rw [hheight, hnone]
      rfl
    · rw [hheight, hsome]
      rfl

/-- No height is committed twice. -/
theorem nodup_commitHeights (h : Run g log s) : (log.filterMap Entry.commitHeight?).Nodup := by
  have hheights : ((commitmentsIn log).map (·.height.toNat)).Nodup := by
    rw [h.records.heights]
    exact List.nodup_range'
  rw [h.filterMap_commitHeight?]
  refine List.Pairwise.of_map UInt64.toNat ?_ (by rwa [List.map_map])
  intro a b hab heq
  exact hab (congrArg UInt64.toNat heq)

/-- A commitment that is stored was made by a call of the run, in a block not before its time. -/
theorem exists_call_of_stored (h : Run g log s) {height : UInt64}
    (hstored : s.commitments[height]? = some c) :
    ∃ e ∈ log, e.commitment? = some c ∧ c.time.nanos ≤ e.env.now.nanos := by
  obtain ⟨hmade, _⟩ := (h.records.stored height c).mp hstored
  obtain ⟨e, hmem, hcommitment⟩ := List.mem_filterMap.mp hmade
  obtain ⟨earlier, later, hlog⟩ := List.append_of_mem hmem
  obtain ⟨_, _, _, receipt, _, hresult, _⟩ := Entry.exists_of_commitment? hcommitment
  obtain ⟨before, _, hstep⟩ := h.step_of_eq_append hlog hresult
  have he : (⟨e.env, e.request, .ok receipt, e.after⟩ : Entry) = e := by rw [← hresult]
  rcases hstep.commitments with ⟨_, hnone, _⟩ | ⟨c', _, hsome, hnext, _⟩
  · rw [he, hcommitment] at hnone
    cases hnone
  · rw [he, hcommitment] at hsome
    obtain rfl := Option.some.inj hsome
    exact ⟨e, hmem, hcommitment, (Store.requireNext_eq_ok_iff.mp hnext).2.1⟩

/-- The time of a stored commitment is a whole second. -/
theorem whole_of_stored (h : Run g log s) {height : UInt64}
    (hstored : s.commitments[height]? = some c) : c.time.nanos.toNat % 1000000000 = 0 := by
  obtain ⟨_, _, hcommitment, _⟩ := h.exists_call_of_stored hstored
  obtain ⟨_, _, _, _, _, _, htime⟩ := Entry.exists_of_commitment? hcommitment
  rw [Timestamp.ofSeconds?_eq_some_iff.mp htime, Nat.mul_mod_left]

/-- However a run goes on, a commitment that is stored stays as it is. -/
theorem commitment_kept {later : List Entry} (h : Run g log s) (hlater : Run g (log ++ later) t)
    {height : UInt64} (hstored : s.commitments[height]? = some c) :
    t.commitments[height]? = some c := by
  obtain ⟨hmade, hheight⟩ := (h.records.stored height c).mp hstored
  refine (hlater.records.stored height c).mpr ⟨?_, hheight⟩
  rw [commitmentsIn, List.filterMap_append]
  exact List.mem_append_left _ hmade

/-- In every run the history of commitments has no gaps, is in order and is only ever added to. -/
theorem gapless_history (h : Run g log s) : GaplessHistory g log s := by
  have hrecords := h.records
  constructor
  case span =>
    rcases hrecords.span with hempty | ⟨last, hlast, hspan⟩
    · exact Or.inl hempty
    · obtain ⟨_, _, hsettings⟩ := h.settings_eq
      exact Or.inr ⟨_, last, hsettings, rfl, hlast, hspan⟩
  case stored =>
    intro height c hstored
    exact ⟨((hrecords.stored height c).mp hstored).2, h.whole_of_stored hstored⟩
  case called =>
    intro height c hstored
    exact h.exists_call_of_stored hstored
  case ordered =>
    intro height height' c c' hc hc' hle
    obtain ⟨hmade, rfl⟩ := (hrecords.stored height c).mp hc
    obtain ⟨hmade', rfl⟩ := (hrecords.stored height' c').mp hc'
    exact hrecords.times c hmade c' hmade' hle
  case kept =>
    intro later t ht height c hstored
    exact h.commitment_kept ht hstored
  case once => exact h.nodup_commitHeights

end Run

namespace Sample

/-- Two heights are committed. The first one is tried again, and a height is left out; both calls
are refused. -/
def rivals : List Request := [
  .command "root" (.commit 1 Word256.zero.bytes 0),
  .command "root" (.commit 1 message.leaf.bytes 0),
  .command "root" (.commit 3 Word256.zero.bytes 1),
  .command "root" (.commit 2 Word256.zero.bytes 1)]

/-- The log of these calls and the store in the end. -/
def raced : List Entry × Store :=
  ((found genesis).transact .empty).2.play (rivals.map (Sample.env, ·))

theorem run_raced : Run genesis raced.1 raced.2 := run_of_later rivals (by decide)

end Sample

/-- Of four calls two commit, each another height. -/
theorem Run.gapless_history_sample :
    Run Sample.genesis Sample.raced.1 Sample.raced.2 ∧
      Sample.raced.1.filterMap Entry.commitHeight? = [1, 2] ∧
      Sample.raced.2.lastHeight = some 2 ∧
      GaplessHistory Sample.genesis Sample.raced.1 Sample.raced.2 :=
  ⟨Sample.run_raced, by decide +kernel, by decide +kernel, gapless_history Sample.run_raced⟩

end TokenBridge

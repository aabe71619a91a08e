import TokenBridge.Proofs.CommitDecision

/-!
# Waiting for finality

A commitment ages from the time that its committer states and not from the call that made it. A
withdrawal against it comes at least the finality delay after that time. A committer may state every
second between the time of the latest commitment and the clock, and no other one. So the delay says
nothing about how long the commitment has been stored: it may be final in the block in which it was
made.
-/

namespace TokenBridge

/-- The height against which a request withdrew, if it did. -/
def Entry.withdrawHeight? (e : Entry) : Option UInt64 :=
  match e.request, e.result with
  | .command _ (.withdraw _ _ height), .ok _ => some height
  | _, _ => none

/-- The blocks of a log come in the order of their times. -/
def InOrder (log : List Entry) : Prop :=
  log.Pairwise fun a b => a.env.now.nanos ≤ b.env.now.nanos

/-- The finality delay is the one of the founding after every request of a log. -/
def KeepsDelay (g : Genesis) (log : List Entry) : Prop :=
  ∀ e ∈ log, e.after.settings.map Settings.finalityDelay = some g.finalityDelay

/-- A request withdrew if it is a withdrawal that succeeded. -/
theorem Entry.exists_of_withdrawHeight? {e : Entry} {height : UInt64}
    (h : e.withdrawHeight? = some height) :
    ∃ sender m path receipt, e.request = .command sender (.withdraw m path height) ∧
      e.result = .ok receipt := by
  unfold withdrawHeight? at h
  split at h
  · next sender m path height' receipt hrequest hresult =>
    obtain rfl := Option.some.inj h
    exact ⟨sender, m, path, receipt, hrequest, hresult⟩
  · cases h

/-- A final commitment whose time is a whole second that has come is older than the delay. -/
theorem Commitment.time_add_le_of_isFinal {c : Commitment} {now : Timestamp} {delay : UInt64}
    (hfinal : c.isFinal now delay = true) (hwhole : c.time.nanos.toNat % 1000000000 = 0)
    (hcome : c.time.nanos ≤ now.nanos) :
    c.time.nanos.toNat + delay.toNat * 1000000000 ≤ now.nanos.toNat := by
  have hage := of_decide_eq_true hfinal
  have hle := UInt64.le_iff_toNat_le.mp hcome
  rw [Timestamp.toNat_seconds, Timestamp.toNat_seconds] at hage
  omega

namespace Run

variable [AddressRules] {g : Genesis} {log earlier later : List Entry} {s : Store} {e : Entry}
  {height : UInt64}

/-- A withdrawal relies on a commitment that an earlier call of the run made, and that is older than
the delay in force. -/
theorem exists_final_of_withdrawHeight? (h : Run g log s) (hordered : InOrder log)
    (hlog : log = earlier ++ e :: later) (hheight : e.withdrawHeight? = some height) :
    ∃ c settings, e.after.commitments[height]? = some c ∧ e.after.settings = some settings ∧
      (∃ call ∈ earlier, call.commitment? = some c ∧ c.time.nanos ≤ call.env.now.nanos) ∧
      c.time.nanos.toNat + settings.finalityDelay.toNat * 1000000000 ≤ e.env.now.nanos.toNat := by
  obtain ⟨sender, m, path, receipt, hrequest, hresult⟩ := Entry.exists_of_withdrawHeight? hheight
  obtain ⟨before, hbefore, hstep⟩ := h.step_of_eq_append hlog hresult
  obtain ⟨env, request, result, after⟩ := e
  dsimp only at hrequest hstep ⊢
  rw [hrequest] at hstep
  cases hstep with
  | withdraw _ hmessage _ =>
    obtain ⟨c, settings, hstored, hsettings, hfinal, _⟩ :=
      WithdrawalOrder.checkMessage_eq_ok_iff.mp hmessage
    have hwhole := hbefore.whole_of_stored hstored
    obtain ⟨call, hcall, hcommitment, hclock⟩ := hbefore.exists_call_of_stored hstored
    -- Without the order of blocks, a delay of zero would let the time of the call lie ahead.
    have hcome : call.env.now.nanos ≤ env.now.nanos := by
      rw [InOrder, hlog, List.pairwise_append] at hordered
      exact hordered.2.2 call hcall _ List.mem_cons_self
    exact ⟨c, settings, hstored, hsettings, ⟨call, hcall, hcommitment, hclock⟩,
      c.time_add_le_of_isFinal hfinal hwhole (UInt64.le_trans hclock hcome)⟩

/-- In a run in the order of blocks that keeps the finality delay, a withdrawal comes at least that
delay after the time which the committer stated for the commitment it relies on. -/
theorem waits_since_stated_time (h : Run g log s) (hordered : InOrder log)
    (hkeeps : KeepsDelay g log) (hlog : log = earlier ++ e :: later)
    (hheight : e.withdrawHeight? = some height) :
    ∃ c, e.after.commitments[height]? = some c ∧
      (∃ call ∈ earlier, call.commitment? = some c ∧ c.time.nanos ≤ call.env.now.nanos) ∧
      c.time.nanos.toNat + g.finalityDelay.toNat * 1000000000 ≤ e.env.now.nanos.toNat := by
  obtain ⟨c, settings, hstored, hsettings, hcall, hle⟩ :=
    h.exists_final_of_withdrawHeight? hordered hlog hheight
  have hmem : e ∈ log := by
    rw [hlog]
    exact List.mem_append_right _ List.mem_cons_self
  have hdelay : settings.finalityDelay = g.finalityDelay := by
    have hkept := hkeeps e hmem
    rw [hsettings] at hkept
    exact Option.some.inj hkept
  rw [hdelay] at hle
  exact ⟨c, hstored, hcall, hle⟩

end Run

namespace Store

variable {g : Genesis} {log : List Entry} {env : Env} {s : Store} {sender : Address}
  {expected seconds : UInt64} {root : Bytes}

/-- A second that has begun, and that is not before the time of the latest commitment. -/
structure MayState (s : Store) (now : Timestamp) (seconds : UInt64) : Prop where
  begun : seconds ≤ now.seconds
  not_before : ∀ last latest, s.lastHeight = some last → s.commitments[last]? = some latest →
    latest.time.nanos.toNat ≤ seconds.toNat * 1000000000

/-- What comes of a commitment for which a second is stated. -/
structure TakesTime (s : Store) (now : Timestamp) (height seconds : UInt64)
    (ended : Except Fault Receipt × Store) : Prop where
  /-- It is made exactly if that second may be stated. -/
  succeeds_iff : (∃ receipt t, ended = (.ok receipt, t)) ↔ s.MayState now seconds
  /-- Then it is stored with that time, whatever the time of its block. -/
  stored : ∀ receipt t, ended = (.ok receipt, t) →
    ∃ c, t.commitments[height]? = some c ∧ c.time.nanos.toNat = seconds.toNat * 1000000000

/-- A committer who gives the expected height and a whole root passes the checks exactly if the time
may be stated. -/
theorem forall_commitChecks_iff (hrole : s.holdsRole .committer sender = true)
    (hlength : root.length = 32) :
    (∀ k ∈ s.commitChecks env sender expected expected root seconds, k.passes) ↔
      s.MayState env.now seconds := by
  simp only [commitChecks, List.forall_mem_cons, roleCheck, wordCheck, clockCheck, heightCheck,
    orderCheck]
  constructor
  · rintro ⟨_, _, hbegun, _, hnot_before, _⟩
    exact ⟨hbegun, hnot_before⟩
  · rintro ⟨hbegun, hnot_before⟩
    exact ⟨hrole, hlength, hbegun, trivial, hnot_before, nofun⟩

/-- In every run the time of the next commitment is taken from its committer. -/
theorem takesTime_of_run [AddressRules] (h : Run g log s)
    (hexpects : s.Expects g.startHeight expected) (hrole : s.holdsRole .committer sender = true)
    (hlength : root.length = 32) (env : Env) :
    s.TakesTime env.now expected seconds
      (((Request.command sender (.commit expected root seconds)).run env).transact s) := by
  have hdecided := h.commit_decided hexpects env sender expected root seconds
  have hpasses : (∀ k ∈ s.commitChecks env sender expected expected root seconds, k.passes) ↔
      s.MayState env.now seconds :=
    forall_commitChecks_iff hrole hlength
  by_cases hall : ∀ k ∈ s.commitChecks env sender expected expected root seconds, k.passes
  · obtain ⟨c, ⟨hheight, _, htime⟩, hended⟩ := hdecided.none hall
    constructor
    · exact iff_of_true ⟨_, _, hended⟩ (hpasses.mp hall)
    · intro receipt t hok
      obtain ⟨_, rfl⟩ := Prod.mk.inj (hended.symm.trans hok)
      refine ⟨c, ?_, htime⟩
      rw [withCommitment, hheight]
      exact Std.ExtTreeMap.getElem?_insert_self
  · obtain ⟨k, _, why, _, hended⟩ := hdecided.exists_refused hall
    constructor
    · refine iff_of_false ?_ (mt hpasses.mpr hall)
      rintro ⟨receipt, t, hok⟩
      cases (Prod.mk.inj (hended.symm.trans hok)).1
    · intro receipt t hok
      cases (Prod.mk.inj (hended.symm.trans hok)).1

end Store

/-- In every run in the order of blocks that keeps the finality delay, a withdrawal comes at least
that delay after the time which the committer stated for the commitment it relies on. That time is
not ahead of the block in which the commitment was made, but the delay does not run from there: in
every state of a run, a committer who gives the expected height and a root of thirty-two bytes may
state every second that has begun and is not before the time of the latest commitment, and no other
one, and what is stated is stored. -/
theorem Run.delay_after_stated_time [AddressRules] {g : Genesis} {log : List Entry} {s : Store}
    (h : Run g log s) :
    (InOrder log → KeepsDelay g log → ∀ earlier e later height, log = earlier ++ e :: later →
      e.withdrawHeight? = some height →
        ∃ c, e.after.commitments[height]? = some c ∧
          (∃ call ∈ earlier, call.commitment? = some c ∧ c.time.nanos ≤ call.env.now.nanos) ∧
          c.time.nanos.toNat + g.finalityDelay.toNat * 1000000000 ≤ e.env.now.nanos.toNat) ∧
      ∀ expected, s.Expects g.startHeight expected → ∀ env sender root seconds,
        s.holdsRole .committer sender = true → root.length = 32 →
          s.TakesTime env.now expected seconds
            (((Request.command sender (.commit expected root seconds)).run env).transact s) := by
  constructor
  · intro hordered hkeeps earlier e later height hlog hheight
    exact h.waits_since_stated_time hordered hkeeps hlog hheight
  · intro expected hexpects env sender root seconds hrole hlength
    exact Store.takesTime_of_run h hexpects hrole hlength env

namespace Sample

/-- The short run again, with a finality delay of one second. -/
def slowGenesis : Genesis := { genesis with finalityDelay := 1 }

/-- The log up to the withdrawal and the store then. A commitment with the time zero is made one
second later than that. -/
def prepared : List Entry × Store :=
  ((found slowGenesis).transact .empty).2.play (preparations.map (env, ·))

/-- How the withdrawal ends, in the block in which the commitment was made. -/
def paidAtOnce : Except Fault Receipt × Store := (withdrawal.run env).transact prepared.2

def hasty : Entry := ⟨env, withdrawal, paidAtOnce.1, paidAtOnce.2⟩

/-- How it ends if the next height is then committed, once more with the time zero. -/
def backdated : Except Fault Receipt × Store :=
  ((Request.command "root" (.commit 2 Word256.zero.bytes 0)).run env).transact paidAtOnce.2

theorem run_hasty : Run slowGenesis (prepared.1 ++ [hasty]) paidAtOnce.2 := by
  have hprepared : Run slowGenesis prepared.1 prepared.2 :=
    Run.of_found (by decide +kernel) (preparations.map (env, ·)) (by decide)
  exact hprepared.snoc env withdrawal rfl

/-- All is done in one block. -/
theorem env_of_mem_hasty {e : Entry} (he : e ∈ prepared.1 ++ [hasty]) : e.env = env := by
  rcases List.mem_append.mp he with hprepared | hlast
  · exact Store.env_of_mem_play hprepared
  · rw [List.mem_singleton.mp hlast]
    rfl

theorem inOrder_hasty : InOrder (prepared.1 ++ [hasty]) := by
  rw [InOrder, List.pairwise_iff_forall_sublist]
  intro a b hab
  rw [env_of_mem_hasty (hab.subset List.mem_cons_self),
    env_of_mem_hasty (hab.subset (List.mem_cons_of_mem a List.mem_cons_self))]
  exact UInt64.le_refl _

/-- The commitment is made and the withdrawal succeeds, while the delay is kept. -/
theorem outcome_hasty :
    KeepsDelay slowGenesis (prepared.1 ++ [hasty]) ∧
      (1 : UInt64) ∈ prepared.1.filterMap Entry.commitHeight? ∧
      hasty.withdrawHeight? = some 1 := by
  unfold KeepsDelay
  decide +kernel

/-- The first height is committed with the time zero, which may be stated for the second one too. -/
theorem mayState_hasty : paidAtOnce.2.Expects slowGenesis.startHeight 2 ∧
    paidAtOnce.2.holdsRole .committer "root" = true ∧
    paidAtOnce.2.MayState Sample.env.now 0 := by
  obtain ⟨hlast, hrole, htime⟩ : paidAtOnce.2.lastHeight = some 1 ∧
      paidAtOnce.2.holdsRole .committer "root" = true ∧
      ∀ c ∈ paidAtOnce.2.commitments[(1 : UInt64)]?, c.time.nanos.toNat = 0 := by
    decide +kernel
  refine ⟨⟨?_, ?_⟩, hrole, by decide, ?_⟩
  · intro hnone
    cases hlast.symm.trans hnone
  · intro last hsome
    obtain rfl := Option.some.inj (hlast.symm.trans hsome)
    rfl
  · intro last latest hsome hstored
    obtain rfl := Option.some.inj (hlast.symm.trans hsome)
    exact Nat.le_of_eq (htime latest hstored)

end Sample

/-- In the short run the withdrawal comes at the very second that the delay of one second leaves,
and the next commitment is made with a time that is as old. -/
theorem Run.delay_after_stated_time_sample :
    Run Sample.slowGenesis (Sample.prepared.1 ++ [Sample.hasty]) Sample.paidAtOnce.2 ∧
      InOrder (Sample.prepared.1 ++ [Sample.hasty]) ∧
      KeepsDelay Sample.slowGenesis (Sample.prepared.1 ++ [Sample.hasty]) ∧
      Sample.hasty.withdrawHeight? = some 1 ∧
      (∃ c, Sample.hasty.after.commitments[(1 : UInt64)]? = some c ∧
        (∃ call ∈ Sample.prepared.1,
          call.commitment? = some c ∧ c.time.nanos ≤ call.env.now.nanos) ∧
        c.time.nanos.toNat + 1000000000 ≤ 1000000000) ∧
      ∃ receipt t c, Sample.backdated = (.ok receipt, t) ∧
        t.commitments[(2 : UInt64)]? = some c ∧ c.time.nanos.toNat = 0 := by
  obtain ⟨hkeeps, _, hheight⟩ := Sample.outcome_hasty
  obtain ⟨hexpects, hrole, hmay⟩ := Sample.mayState_hasty
  obtain ⟨hwaits, htakes⟩ := delay_after_stated_time Sample.run_hasty
  have hbackdated : Sample.paidAtOnce.2.TakesTime Sample.env.now 2 0 Sample.backdated :=
    htakes 2 hexpects Sample.env "root" _ 0 hrole Word256.zero.length_bytes
  obtain ⟨receipt, t, hended⟩ := hbackdated.succeeds_iff.mpr hmay
  obtain ⟨c, hstored, htime⟩ := hbackdated.stored receipt t hended
  exact ⟨Sample.run_hasty, Sample.inOrder_hasty, hkeeps, hheight,
    hwaits Sample.inOrder_hasty hkeeps _ _ _ 1 rfl hheight, receipt, t, c, hended, hstored, htime⟩

/-- The delay does not run from the call that made the commitment. A committer who states an old
time lets a withdrawal follow at once, though the order of blocks and the delay are kept. -/
theorem Run.not_delay_after_call :
    ¬ ∀ (g : Genesis) (log earlier later : List Entry) (s : Store) (call e : Entry)
        (height : UInt64), Run g log s → InOrder log → KeepsDelay g log →
      log = earlier ++ e :: later → e.withdrawHeight? = some height → call ∈ earlier →
      call.commitHeight? = some height →
        call.env.now.nanos.toNat + g.finalityDelay.toNat * 1000000000 ≤ e.env.now.nanos.toNat := by
  intro hdelay
  obtain ⟨hkeeps, hcommits, hwithdraws⟩ := Sample.outcome_hasty
  obtain ⟨call, hcall, hheight⟩ := List.mem_filterMap.mp hcommits
  have hle := hdelay _ _ _ _ _ call Sample.hasty 1 Sample.run_hasty Sample.inOrder_hasty hkeeps rfl
    hwithdraws hcall hheight
  rw [Sample.env_of_mem_hasty (List.mem_append_left _ hcall)] at hle
  exact absurd hle (by decide)

end TokenBridge

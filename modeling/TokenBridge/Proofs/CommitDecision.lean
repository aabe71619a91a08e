import TokenBridge.Proofs.CommitmentHistory
import TokenBridge.Proofs.Deciding
import TokenBridge.Proofs.DepositPaths

/-!
# How a commitment is decided

Five things are asked for before a commitment is stored: that the account is a committer, that the
root has its thirty-two bytes, that the time is not ahead of the clock, that the height is the one
expected next, and that the time is not before that of the latest commitment. The registry looks at
the height before it looks at the time, but a call is held against the clock before the registry is
asked. So a wrong height is refused as out of order only if the time is not ahead of the clock. If
it is, the time is refused, and the height that is expected is not told.
-/

namespace TokenBridge

variable {g : Genesis} {log : List Entry} {env : Env} {now : Timestamp} {s : Store}
  {sender : Address} {start expected height seconds : UInt64} {root : Bytes} {c : Commitment}

/-- A second that is not ahead of the clock has begun. -/
theorem Timestamp.nanos_le_of_ofSeconds? {time : Timestamp} (h : ofSeconds? seconds = some time)
    (hle : seconds ≤ now.seconds) : time.nanos ≤ now.nanos := by
  rw [UInt64.le_iff_toNat_le] at hle ⊢
  rw [toNat_seconds] at hle
  rw [ofSeconds?_eq_some_iff.mp h]
  omega

namespace Store

/-- The height that comes next if the first one is as given. -/
structure Expects (s : Store) (start expected : UInt64) : Prop where
  first : s.lastHeight = none → expected = start
  next : ∀ last, s.lastHeight = some last → expected.toNat = last.toNat + 1

/-- Another height can be counted after the latest one. -/
def HasRoom (s : Store) : Prop :=
  ∀ last, s.lastHeight = some last → last.toNat + 1 < UInt64.size

/-- The account holds the role. -/
def roleCheck (s : Store) (role : Role) (account : Address) : Check where
  passes := s.holdsRole role account = true
  refuses why := why = .unauthorized role

/-- There are as many bytes as a word has. -/
def wordCheck (bytes : Bytes) : Check where
  passes := bytes.length = 32
  refuses why := why = .badWord bytes.length

/-- The time is not ahead of the clock. -/
def clockCheck (now : Timestamp) (seconds : UInt64) : Check where
  passes := seconds ≤ now.seconds
  refuses why := why = .badCommitmentTime (.ahead seconds now.seconds)

/-- The height is the one expected next. -/
def heightCheck (expected height : UInt64) : Check where
  passes := height = expected
  refuses why := why = .outOfOrder expected height

/-- The time is not before that of the latest commitment. -/
def orderCheck (s : Store) (seconds : UInt64) : Check where
  passes := ∀ last latest, s.lastHeight = some last → s.commitments[last]? = some latest →
    latest.time.nanos.toNat ≤ seconds.toNat * 1000000000
  refuses why := ∃ last latest, s.lastHeight = some last ∧ s.commitments[last]? = some latest ∧
    why = .badCommitmentTime (.precedes seconds last latest.time.seconds)

/-- All that is asked for before a commitment is stored, in this order. -/
def commitChecks (s : Store) (env : Env) (sender : Address) (expected height : UInt64)
    (root : Bytes) (seconds : UInt64) : List Check := [
  s.roleCheck .committer sender,
  wordCheck root,
  clockCheck env.now seconds,
  heightCheck expected height,
  s.orderCheck seconds]

/-- The store in which a commitment is the latest one. -/
def withCommitment (c : Commitment) (s : Store) : Store :=
  { s with commitments := s.commitments.insert c.height c, lastHeight := some c.height }

/-- The latest commitment can be looked up. -/
def KeepsLatest (s : Store) : Prop :=
  ∀ last, s.lastHeight = some last → ∃ latest, s.commitments[last]? = some latest

/-- As long as there is room, some height is expected next. -/
theorem HasRoom.exists_expects (h : s.HasRoom) (start : UInt64) :
    ∃ expected, s.Expects start expected := by
  cases hlast : s.lastHeight with
  | none =>
    refine ⟨start, fun _ => rfl, ?_⟩
    intro last hsome
    cases hlast.symm.trans hsome
  | some last =>
    refine ⟨.ofNat (last.toNat + 1), ?_, ?_⟩
    · intro hnone
      cases hlast.symm.trans hnone
    · intro last' hlast'
      obtain rfl := Option.some.inj (hlast.symm.trans hlast')
      exact UInt64.toNat_ofNat_of_lt' (h last hlast)

/-- The height that is looked for is the one that comes next. -/
theorem Expects.expectedHeight {settings : Settings}
    (h : s.Expects settings.startHeight expected) : s.expectedHeight settings = .ok expected := by
  apply expectedHeight_eq_ok_iff.mpr
  cases hlast : s.lastHeight with
  | none => exact Or.inl ⟨rfl, h.first hlast⟩
  | some last => exact Or.inr ⟨last, rfl, h.next last hlast⟩

theorem wordCheck_decides (bytes : Bytes) :
    DecidesResult [wordCheck bytes] (requireWord bytes) := by
  unfold requireWord
  cases hword : Word256.ofBytes? bytes with
  | some w =>
    obtain rfl := Word256.ofBytes?_eq_some_iff.mp hword
    exact .single (fun _ => ⟨w, rfl⟩) fun hfail => (hfail w.length_bytes).elim
  | none =>
    refine .single (fun hpass => ?_) fun _ => ⟨_, rfl, rfl⟩
    have hsome := Word256.ofBytes?_eq_some_iff (w := ⟨bytes, hpass⟩).mpr rfl
    rw [hword] at hsome
    cases hsome

theorem orderCheck_decides {time : Timestamp} (hlatest : s.KeepsLatest)
    (htime : Timestamp.ofSeconds? seconds = some time) :
    DecidesResult [s.orderCheck seconds] (s.requireNoEarlier time) := by
  have hnanos := Timestamp.ofSeconds?_eq_some_iff.mp htime
  have hseconds := Timestamp.seconds_of_ofSeconds? htime
  unfold requireNoEarlier
  cases hlast : s.lastHeight with
  | none =>
    refine .single (fun _ => ⟨(), rfl⟩) fun hfail => (hfail ?_).elim
    intro last latest hsome
    rw [hlast] at hsome
    cases hsome
  | some last =>
    obtain ⟨latest, hstored⟩ := hlatest last hlast
    simp only [getCommitment, hstored, present]
    refine .demand ?_ fun _ => ⟨last, latest, hlast, hstored, by rw [hseconds]⟩
    rw [UInt64.le_iff_toNat_le, hnanos]
    constructor
    · intro hpass
      exact hpass last latest hlast hstored
    · intro hle last' latest' hlast' hstored'
      obtain rfl := Option.some.inj (hlast.symm.trans hlast')
      obtain rfl := Option.some.inj (hstored.symm.trans hstored')
      exact hle

/-- The registry compares the height first. -/
theorem requireNext_eq {settings : Settings} (hsettings : s.settings = some settings)
    (hexpects : s.Expects settings.startHeight expected) :
    s.requireNext now c = (do
      demand (c.height = expected) (.outOfOrder expected c.height)
      demand (c.time.nanos ≤ now.nanos) (.badCommitmentTime (.ahead c.time.seconds now.seconds))
      s.requireNoEarlier c.time) := by
  have hexpected : s.expectedHeight settings = .ok expected := hexpects.expectedHeight
  have hfound : s.getSettings = .ok settings := present_eq_ok_iff.mpr hsettings
  rw [requireNext, hfound]
  change (s.expectedHeight settings >>= _) = _
  rw [hexpected]
  rfl

/-- Of a time that has come, the registry asks for the height and the order of times. -/
theorem requireNext_decides {settings : Settings} (hsettings : s.settings = some settings)
    (hexpects : s.Expects settings.startHeight expected) (hlatest : s.KeepsLatest)
    (htime : Timestamp.ofSeconds? seconds = some c.time) (hclock : seconds ≤ now.seconds) :
    DecidesResult [heightCheck expected c.height, s.orderCheck seconds] (s.requireNext now c) := by
  rw [requireNext_eq hsettings hexpects]
  refine .demand_bind Iff.rfl (fun _ => rfl) fun _ => ?_
  have hcome : demand (c.time.nanos ≤ now.nanos)
      (.badCommitmentTime (.ahead c.time.seconds now.seconds)) = .ok () :=
    demand_eq_ok_iff.mpr (Timestamp.nanos_le_of_ofSeconds? htime hclock)
  rw [hcome]
  exact orderCheck_decides hlatest htime

end Store

namespace Commitment

/-- All tests that a commitment passes before it is stored. -/
def approve (env : Env) (sender : Address) (height : UInt64) (root : Bytes) (seconds : UInt64)
    (s : Store) : Except Fault Commitment := do
  s.requireRole .committer sender
  let root ← requireWord root
  demand (seconds ≤ env.now.seconds) (.badCommitmentTime (.ahead seconds env.now.seconds))
  let time ← orAbort (Timestamp.ofSeconds? seconds)
  s.requireNext env.now { height, root, time }
  return { height, root, time }

/-- What is told of a commitment. -/
def told (sender : Address) (seconds : UInt64) (c : Commitment) : Receipt where
  calls := []
  events := [⟨"commitment", [
    numberAttribute "height" c.height.toNat,
    ("state_root", c.root.toHex),
    numberAttribute "timestamp" seconds.toNat]⟩]
  attributes := [("action", "commit"), ("committer", sender)]

/-- A commitment is stored and told once it is approved. -/
theorem transact_eq [AddressRules] (env : Env) (sender : Address) (height : UInt64) (root : Bytes)
    (seconds : UInt64) (s : Store) :
    ((Request.command sender (.commit height root seconds)).run env).transact s =
      Call.proceed s (approve env sender height root seconds s) fun c =>
        (.ok (c.told sender seconds), s.withCommitment c) := by
  simp only [Request.run, Command.run, commit, Call.commit, approve, bind_assoc,
    Call.transact_check_bind, Call.transact_lift_bind, Call.proceed_bind]
  rfl

/-- What is approved is the commitment that was asked for. -/
theorem eq_of_approve (h : approve env sender height root seconds s = .ok c) :
    c.height = height ∧ c.root.bytes = root ∧
      c.time.nanos.toNat = seconds.toNat * 1000000000 := by
  simp only [approve, Except.bind_eq_ok_iff, orAbort_eq_ok_iff, Except.pure_eq_ok_iff] at h
  obtain ⟨_, _, root', hroot, _, _, time, htime, _, _, rfl⟩ := h
  refine ⟨rfl, ?_, Timestamp.ofSeconds?_eq_some_iff.mp htime⟩
  exact Word256.ofBytes?_eq_some_iff.mp (requireWord_eq_ok_iff.mp hroot)

/-- All five checks, one after the other. -/
theorem approve_decided {settings : Settings} (hsettings : s.settings = some settings)
    (hexpects : s.Expects settings.startHeight expected) (hlatest : s.KeepsLatest) :
    DecidesResult (s.commitChecks env sender expected height root seconds)
      (approve env sender height root seconds s) := by
  refine .demand_bind Iff.rfl (fun _ => rfl) fun _ => ?_
  refine (Store.wordCheck_decides root).bind_cons fun word _ => ?_
  refine .demand_bind Iff.rfl (fun _ => rfl) fun hclock => ?_
  obtain ⟨time, htime⟩ := Timestamp.exists_ofSeconds? hclock
  have hstart : orAbort (Timestamp.ofSeconds? seconds) = .ok time := orAbort_eq_ok_iff.mpr htime
  rw [hstart]
  exact (Store.requireNext_decides (c := ⟨height, word, time⟩) hsettings hexpects hlatest htime
    hclock).bind fun _ _ => .ok _

end Commitment

namespace Run

variable [AddressRules]

/-- The latest commitment of a run is stored. -/
theorem keepsLatest (h : Run g log s) : s.KeepsLatest := by
  intro last hlast
  rcases h.records.span with ⟨_, hnone⟩ | ⟨latest, hlatest, hle, hmem⟩
  · rw [hnone] at hlast
    cases hlast
  · obtain rfl := Option.some.inj (hlast.symm.trans hlatest)
    exact ⟨_, Std.ExtTreeMap.getElem?_eq_some_getElem ((hmem last).mpr ⟨hle, UInt64.le_refl _⟩)⟩

/-- In every run a commitment is refused for the first of its checks that fails, and the store stays
as it was. If none fails, the commitment that was asked for is stored and told. -/
theorem commit_decided (h : Run g log s) (hexpects : s.Expects g.startHeight expected) (env : Env)
    (sender : Address) (height : UInt64) (root : Bytes) (seconds : UInt64) :
    let ended := ((Request.command sender (.commit height root seconds)).run env).transact s
    DecidedBy (s.commitChecks env sender expected height root seconds)
      (fun why => ended = (.error (.rejected why), s))
      (∃ c : Commitment, (c.height = height ∧ c.root.bytes = root ∧
          c.time.nanos.toNat = seconds.toNat * 1000000000) ∧
        ended = (.ok (c.told sender seconds), s.withCommitment c)) := by
  intro ended
  obtain ⟨_, _, hsettings⟩ := h.settings_eq
  have hended : ended = _ := Commitment.transact_eq env sender height root seconds s
  refine (Commitment.approve_decided hsettings hexpects h.keepsLatest).mono ?_ ?_
  · intro why hrefused
    rw [hended, hrefused, Call.proceed_error]
  · rintro ⟨c, happroved⟩
    rw [hended, happroved, Call.proceed_ok]
    exact ⟨c, Commitment.eq_of_approve happroved, rfl⟩

/-- The registry refuses every height but the expected one as out of order, whatever the time. -/
theorem registry_out_of_order (h : Run g log s) (hexpects : s.Expects g.startHeight expected)
    (hwrong : c.height ≠ expected) :
    (Call.commit now c).transact s = (.error (.rejected (.outOfOrder expected c.height)), s) := by
  obtain ⟨_, _, hsettings⟩ := h.settings_eq
  have hrefused : demand (c.height = expected) (.outOfOrder expected c.height) = _ :=
    demand_eq_error_iff.mpr ⟨hwrong, rfl⟩
  rw [Call.commit, Call.transact_check_bind, Store.requireNext_eq hsettings hexpects, hrefused]
  rfl

/-- A committer whose time has come is told that a wrong height is out of order. -/
theorem out_of_order_of_come (h : Run g log s) (hexpects : s.Expects g.startHeight expected)
    (hrole : s.holdsRole .committer sender = true) (hlength : root.length = 32)
    (hcome : seconds ≤ env.now.seconds) (hwrong : height ≠ expected) :
    ((Request.command sender (.commit height root seconds)).run env).transact s =
      (.error (.rejected (.outOfOrder expected height)), s) := by
  have hdecided := h.commit_decided hexpects env sender height root seconds
  have hbefore : ∀ k ∈ [s.roleCheck .committer sender, Store.wordCheck root,
      Store.clockCheck env.now seconds], k.passes := by
    simp only [List.forall_mem_cons]
    exact ⟨hrole, hlength, hcome, nofun⟩
  obtain ⟨_, rfl, hended⟩ := hdecided.first _ _ _ rfl hbefore hwrong
  exact hended

/-- Of a committer whose time is ahead of the clock the time is refused, whatever the height. -/
theorem time_refused_of_ahead (h : Run g log s) (hexpects : s.Expects g.startHeight expected)
    (hrole : s.holdsRole .committer sender = true) (hlength : root.length = 32)
    (hahead : env.now.seconds < seconds) :
    ((Request.command sender (.commit height root seconds)).run env).transact s =
      (.error (.rejected (.badCommitmentTime (.ahead seconds env.now.seconds))), s) := by
  have hdecided := h.commit_decided hexpects env sender height root seconds
  have hbefore : ∀ k ∈ [s.roleCheck .committer sender, Store.wordCheck root], k.passes := by
    simp only [List.forall_mem_cons]
    exact ⟨hrole, hlength, nofun⟩
  obtain ⟨_, rfl, hended⟩ := hdecided.first _ _ _ rfl hbefore (UInt64.not_le.mpr hahead)
  exact hended

/-- In every run in which another height can be counted, some height is expected, and the registry
refuses every other one as out of order. So does a call of a committer, unless the time that it
states is ahead of the clock: then the time is refused, and not the height. -/
theorem wrong_height_refused (h : Run g log s) (hroom : s.HasRoom) :
    ∃ expected, s.Expects g.startHeight expected ∧
      (∀ now c, c.height ≠ expected →
        (Call.commit now c).transact s =
          (.error (.rejected (.outOfOrder expected c.height)), s)) ∧
      ∀ env sender height root seconds, s.holdsRole .committer sender = true →
        root.length = 32 → height ≠ expected →
        let ended := ((Request.command sender (.commit height root seconds)).run env).transact s
        (seconds ≤ env.now.seconds →
            ended = (.error (.rejected (.outOfOrder expected height)), s)) ∧
          (env.now.seconds < seconds →
            ended =
              (.error (.rejected (.badCommitmentTime (.ahead seconds env.now.seconds))), s)) := by
  obtain ⟨expected, hexpects⟩ := hroom.exists_expects g.startHeight
  refine ⟨expected, hexpects, fun now c => h.registry_out_of_order hexpects, ?_⟩
  intro env sender height root seconds hrole hlength hwrong
  constructor
  · intro hcome
    exact h.out_of_order_of_come hexpects hrole hlength hcome hwrong
  · intro hahead
    exact h.time_refused_of_ahead hexpects hrole hlength hahead

end Run

namespace Sample

/-- Two heights are committed in the race, so the third one is expected next. -/
theorem expects_raced : raced.2.lastHeight = some 2 ∧ raced.2.holdsRole .committer "root" = true ∧
    raced.2.Expects genesis.startHeight 3 := by
  obtain ⟨hlast, hrole⟩ : raced.2.lastHeight = some 2 ∧
      raced.2.holdsRole .committer "root" = true := by
    decide +kernel
  refine ⟨hlast, hrole, fun hnone => ?_, fun last hsome => ?_⟩
  · rw [hlast] at hnone
    cases hnone
  · obtain rfl := Option.some.inj (hlast.symm.trans hsome)
    rfl

theorem hasRoom_raced : raced.2.HasRoom := by
  intro last hsome
  obtain rfl := Option.some.inj (expects_raced.1.symm.trans hsome)
  decide

/-- The committer gives the fifth height, at a time in seconds, when one second has passed. -/
def skipping (seconds : UInt64) : Except Fault Receipt × Store :=
  ((Request.command "root" (.commit 5 Word256.zero.bytes seconds)).run Sample.env).transact raced.2

end Sample

/-- After two commitments the fifth height is refused as out of order with the time of the clock. A
second later than that, the time is refused. -/
theorem Run.wrong_height_refused_sample :
    Run Sample.genesis Sample.raced.1 Sample.raced.2 ∧ Sample.raced.2.HasRoom ∧
      Sample.skipping 1 = (.error (.rejected (.outOfOrder 3 5)), Sample.raced.2) ∧
      Sample.skipping 2 =
        (.error (.rejected (.badCommitmentTime (.ahead 2 1))), Sample.raced.2) := by
  obtain ⟨hlast, hrole, _⟩ := Sample.expects_raced
  obtain ⟨expected, hexpects, _, hcalls⟩ :=
    wrong_height_refused Sample.run_raced Sample.hasRoom_raced
  have hthree : expected = 3 := UInt64.toNat_inj.mp (hexpects.next 2 hlast)
  subst hthree
  have hrefused := fun seconds => hcalls Sample.env "root" 5 Word256.zero.bytes seconds hrole
    Word256.zero.length_bytes (by decide)
  exact ⟨Sample.run_raced, Sample.hasRoom_raced, (hrefused 1).1 (by decide),
    (hrefused 2).2 (by decide)⟩

/-- A wrong height is not always refused as out of order. -/
theorem Run.not_always_out_of_order :
    ¬ ∀ (g : Genesis) (log : List Entry) (s : Store) (expected : UInt64), Run g log s →
      s.HasRoom → s.Expects g.startHeight expected →
      ∀ (env : Env) (sender : Address) (height : UInt64) (root : Bytes) (seconds : UInt64),
        s.holdsRole .committer sender = true → root.length = 32 → height ≠ expected →
        ((Request.command sender (.commit height root seconds)).run env).transact s =
          (.error (.rejected (.outOfOrder expected height)), s) := by
  intro halways
  obtain ⟨_, hrole, hexpects⟩ := Sample.expects_raced
  have houtOfOrder := halways _ _ _ 3 Sample.run_raced Sample.hasRoom_raced hexpects Sample.env
    "root" 5 Word256.zero.bytes 2 hrole Word256.zero.length_bytes (by decide)
  have htime : Sample.skipping 2 =
      (.error (.rejected (.badCommitmentTime (.ahead 2 1))), Sample.raced.2) :=
    Sample.run_raced.time_refused_of_ahead hexpects hrole Word256.zero.length_bytes (by decide)
  cases houtOfOrder.symm.trans htime

end TokenBridge

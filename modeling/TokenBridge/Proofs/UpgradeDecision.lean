import Mathlib.Data.Prod.Lex
import TokenBridge.Proofs.Deciding
import TokenBridge.Proofs.DepositPaths
import TokenBridge.Proofs.Digits
import TokenBridge.Proofs.Run

/-!
# How an upgrade is decided

A store is taken over if it belongs to this program and its stamp states a version that is not later
than the one of this program. A version is stated by three decimal numerals with dots between them,
to which anything may be added behind a `-` or `+`. Nothing is written before all of this is known,
and then the version of the stamp is all that changes.
-/

namespace TokenBridge

namespace Version

variable {a b v : Version} {text : String} {cs front : List Char}

/-- The front of a text is what comes before its first `-` or `+`, or all of it. -/
def IsFront (front cs : List Char) : Prop :=
  ∃ back, cs = front ++ back ∧ (∀ c ∈ front, c ≠ '-' ∧ c ≠ '+') ∧
    ∀ c ∈ back.head?, c = '-' ∨ c = '+'

/-- The front of the text is made of the three numbers of the version, with dots between them. -/
def StatedBy (v : Version) (text : String) : Prop :=
  ∃ major minor patch, IsFront (major ++ '.' :: (minor ++ '.' :: patch)) text.toList ∧
    Decimal.Numeral major v.major.toNat ∧ Decimal.Numeral minor v.minor.toNat ∧
    Decimal.Numeral patch v.patch.toNat

/-- Versions are ranked by their first number, then by the second and the third. -/
def rank (v : Version) : ℕ ×ₗ ℕ ×ₗ ℕ :=
  toLex (v.major.toNat, toLex (v.minor.toNat, v.patch.toNat))

theorem core_eq_iff : core cs = front ↔ IsFront front cs := by
  constructor
  · rintro rfl
    refine ⟨cs.dropWhile fun c => c ≠ '-' ∧ c ≠ '+', List.takeWhile_append_dropWhile.symm, ?_, ?_⟩
    · intro c hc
      have hall := List.all_eq_true.mp (List.all_takeWhile (l := cs)) c hc
      exact decide_eq_true_eq.mp hall
    · intro c hc
      have hstop := List.head?_dropWhile_not (fun c => decide (c ≠ '-' ∧ c ≠ '+')) cs
      rw [Option.mem_def.mp hc] at hstop
      have hmark := decide_eq_false_iff_not.mp hstop
      tauto
  · rintro ⟨back, rfl, hfront, hback⟩
    rw [core, List.takeWhile_append_of_pos fun c hc => decide_eq_true (hfront c hc)]
    cases back with
    | nil => exact List.append_nil front
    | cons c back =>
      have hstop : ¬(c ≠ '-' ∧ c ≠ '+') := by
        have hmark := hback c rfl
        tauto
      rw [List.takeWhile_cons_of_neg (by simpa using hstop), List.append_nil]

theorem pieces_eq_splitOn (cs : List Char) : pieces cs = cs.splitOn '.' := by
  induction cs with
  | nil => rfl
  | cons c rest ih =>
    have hcons : (c :: rest).splitOn '.' =
        if c = '.' then [] :: pieces rest else (pieces rest).modifyHead (c :: ·) := by
      rw [List.splitOn, List.splitOnP_cons_eq_if_modifyHead, ← List.splitOn, ← ih]
      simp only [beq_iff_eq]
    have hne : pieces rest ≠ [] := ih ▸ List.splitOn_ne_nil '.' rest
    rw [hcons]
    split
    · next hdot =>
      subst hdot
      rfl
    · next hdot =>
      cases hrest : pieces rest with
      | nil => exact absurd hrest hne
      | cons piece more => simp [pieces, hrest]

/-- One of the numbers is read from its numerals. -/
theorem number?_eq_some_iff {w : UInt64} : number? cs = some w ↔ Decimal.Numeral cs w.toNat := by
  simp only [number?, Option.bind_eq_some_iff, word64?_eq_some_iff, Decimal.value?_eq_some_iff]
  constructor
  · rintro ⟨_, hnumeral, rfl⟩
    exact hnumeral
  · intro hnumeral
    exact ⟨_, hnumeral, rfl⟩

/-- A version is read from the texts that state it. -/
theorem ofText?_eq_some_iff : ofText? text = some v ↔ v.StatedBy text := by
  have hjoin : ∀ x y z : List Char, ['.'].intercalate [x, y, z] = x ++ '.' :: (y ++ '.' :: z) := by
    intro x y z
    simp
  constructor
  · intro h
    unfold ofText? at h
    split at h
    · next major minor patch hpieces =>
      simp only [Option.bind_eq_bind, Option.bind_eq_some_iff, number?_eq_some_iff,
        Option.some.injEq] at h
      obtain ⟨_, hmajor, _, hminor, _, hpatch, rfl⟩ := h
      refine ⟨major, minor, patch, core_eq_iff.mp ?_, hmajor, hminor, hpatch⟩
      rw [← hjoin, ← hpieces, pieces_eq_splitOn, List.intercalate_splitOn]
    · cases h
  · rintro ⟨major, minor, patch, hfront, hmajor, hminor, hpatch⟩
    have hpieces : pieces (core text.toList) = [major, minor, patch] := by
      have hdots : ∀ piece ∈ [major, minor, patch], '.' ∉ piece := by
        simp only [List.forall_mem_cons]
        exact ⟨hmajor.not_mem rfl, hminor.not_mem rfl, hpatch.not_mem rfl, nofun⟩
      rw [core_eq_iff.mpr hfront, pieces_eq_splitOn, ← hjoin]
      exact List.splitOn_intercalate '.' hdots (List.cons_ne_nil _ _)
    simp only [ofText?, hpieces, number?_eq_some_iff.mpr hmajor, number?_eq_some_iff.mpr hminor,
      number?_eq_some_iff.mpr hpatch]
    rfl

/-- No text states two versions. -/
theorem StatedBy.unique (ha : a.StatedBy text) (hb : b.StatedBy text) : a = b := by
  have hread := ofText?_eq_some_iff.mpr ha
  rw [ofText?_eq_some_iff.mpr hb] at hread
  exact (Option.some.inj hread).symm

/-- The text of a version states it. -/
theorem statedBy_text (v : Version) : v.StatedBy v.text := by
  have hnumeral : ∀ n, Decimal.Numeral (Decimal.digits n) n :=
    fun n => Decimal.value?_eq_some_iff.mp (Decimal.value?_digits n)
  have hplain : ∀ n, ∀ c ∈ Decimal.digits n, c ≠ '-' ∧ c ≠ '+' := by
    intro n c hc
    constructor
    · rintro rfl
      exact (hnumeral n).not_mem rfl hc
    · rintro rfl
      exact (hnumeral n).not_mem rfl hc
  refine ⟨_, _, _, ⟨[], ?_, ?_, nofun⟩, hnumeral _, hnumeral _, hnumeral _⟩
  · simp [text, Decimal.text]
  · simp only [List.forall_mem_append, List.forall_mem_cons]
    exact ⟨hplain _, by decide, hplain _, by decide, hplain _⟩

/-- A version is not newer than another one exactly if it does not rank above it. -/
theorem isNewer_eq_false_iff : a.isNewer b = false ↔ a.rank ≤ b.rank := by
  rw [← Bool.not_eq_true, ← not_lt, not_iff_not]
  simp only [isNewer, rank, Prod.Lex.toLex_lt_toLex, decide_eq_true_eq, UInt64.lt_iff_toNat_lt,
    ← UInt64.toNat_inj]
  omega

end Version

namespace VersionStamp

variable {stamp : VersionStamp}

/-- The stamp is one of this program. -/
def programCheck (stamp : VersionStamp) : Check where
  passes := stamp.program = Version.programName
  refuses why := why = .badUpgrade (.foreign stamp.program)

/-- The stamp states a version. -/
def versionCheck (stamp : VersionStamp) : Check where
  passes := ∃ v : Version, v.StatedBy stamp.version
  refuses why := why = .badUpgrade (.unreadable stamp.version)

/-- The version that the stamp states is not later than this one. -/
def rankCheck (stamp : VersionStamp) : Check where
  passes := ∀ v : Version, v.StatedBy stamp.version → v.rank ≤ Version.current.rank
  refuses why := why = .badUpgrade (.newer stamp.version Version.current.text)

/-- All that is asked of a stamp before its store is taken over, in this order. -/
def upgradeChecks (stamp : VersionStamp) : List Check :=
  [stamp.programCheck, stamp.versionCheck, stamp.rankCheck]

theorem requireUpgradable_decides (stamp : VersionStamp) :
    DecidesResult stamp.upgradeChecks (requireUpgradable stamp) := by
  refine .demand_bind Iff.rfl (fun _ => rfl) fun _ => ?_
  cases hread : Version.ofText? stamp.version with
  | none =>
    have hunstated : ¬stamp.versionCheck.passes := by
      rintro ⟨v, hv⟩
      rw [Version.ofText?_eq_some_iff.mpr hv] at hread
      cases hread
    exact DecidedBy.cons_iff.mpr ⟨fun hpass => absurd hpass hunstated, fun _ => ⟨_, rfl, rfl⟩⟩
  | some v =>
    have hv := Version.ofText?_eq_some_iff.mp hread
    refine DecidedBy.cons_iff.mpr ⟨fun _ => ?_, fun hfail => absurd ⟨v, hv⟩ hfail⟩
    refine DecidesResult.demand ?_ fun _ => rfl
    rw [Version.isNewer_eq_false_iff]
    constructor
    · intro hpass
      exact hpass v hv
    · intro hle v' hv'
      rwa [hv'.unique hv]

/-- A stamp passes its checks if this program wrote it in a version that is not later. -/
theorem forall_upgradeChecks_iff : (∀ k ∈ stamp.upgradeChecks, k.passes) ↔
    stamp.program = Version.programName ∧
      ∃ v : Version, v.StatedBy stamp.version ∧ v.rank ≤ Version.current.rank := by
  simp only [upgradeChecks, List.forall_mem_cons, programCheck, versionCheck, rankCheck]
  constructor
  · rintro ⟨hprogram, ⟨v, hv⟩, hrank, _⟩
    exact ⟨hprogram, v, hv, hrank v hv⟩
  · rintro ⟨hprogram, v, hv, hle⟩
    refine ⟨hprogram, ⟨v, hv⟩, ?_, nofun⟩
    intro v' hv'
    rwa [hv'.unique hv]

/-- Whichever check refuses a stamp, it is the upgrade that is refused. -/
theorem exists_eq_badUpgrade {k : Check} (hk : k ∈ stamp.upgradeChecks) {why : Rejection}
    (h : k.refuses why) : ∃ fault, why = .badUpgrade fault := by
  simp only [upgradeChecks, List.mem_cons, List.not_mem_nil, or_false] at hk
  obtain rfl | rfl | rfl := hk
  · exact ⟨_, h⟩
  · exact ⟨_, h⟩
  · exact ⟨_, h⟩

/-- A text that states no version is refused as the stamp of this program. -/
theorem requireUpgradable_of_unstated {text : String} (h : ∀ v : Version, ¬v.StatedBy text) :
    requireUpgradable ⟨Version.programName, text⟩ =
      .error (.rejected (.badUpgrade (.unreadable text))) := by
  have hdecided := requireUpgradable_decides ⟨Version.programName, text⟩
  have hprogram : ∀ k ∈ [programCheck ⟨Version.programName, text⟩], k.passes := by
    simp only [List.forall_mem_cons]
    exact ⟨rfl, nofun⟩
  have hunstated : ¬(versionCheck ⟨Version.programName, text⟩).passes := fun ⟨v, hv⟩ => h v hv
  obtain ⟨_, rfl, hrefused⟩ := hdecided.first _ _ _ rfl hprogram hunstated
  exact hrefused

/-- What is told of an upgrade from the store with this stamp. -/
def told (stamp : VersionStamp) : Receipt where
  calls := []
  events := []
  attributes := [
    ("action", "migrate"),
    ("from_version", stamp.version),
    ("version", Version.current.text)]

end VersionStamp

namespace Store

variable [AddressRules] {s : Store} {stamp : VersionStamp}

/-- The store with the stamp of this program and its version. -/
def restamped (s : Store) : Store :=
  { s with version := some ⟨Version.programName, Version.current.text⟩ }

/-- An upgrade writes nothing but the stamp, and only once the old stamp has passed its checks. -/
theorem outcome_upgrade (hstamp : s.version = some stamp) (env : Env) (u : Upgrade) :
    ((Request.upgrade u).run env).outcome s =
      Call.proceed s (requireUpgradable stamp) fun _ => (.ok stamp.told, s.restamped) := by
  have hfound : s.getVersion = .ok stamp := present_eq_ok_iff.mpr hstamp
  simp only [Request.run, TokenBridge.upgrade, Call.outcome_check_bind, hfound, Call.proceed_ok,
    Call.outcome_lift_bind]
  rfl

/-- So nothing has to be taken back after a fault. -/
theorem transact_upgrade (hstamp : s.version = some stamp) (env : Env) (u : Upgrade) :
    ((Request.upgrade u).run env).transact s = ((Request.upgrade u).run env).outcome s := by
  rw [Call.transact, outcome_upgrade hstamp]
  cases requireUpgradable stamp with
  | error fault => rfl
  | ok _ => rfl

/-- An upgrade is refused for the first check of the stamp that fails, and leaves the store as it
was. If none fails, the store gets a new stamp and nothing else. -/
theorem upgrade_decided (hstamp : s.version = some stamp) (env : Env) (u : Upgrade) :
    let ended := ((Request.upgrade u).run env).transact s
    DecidedBy stamp.upgradeChecks (fun why => ended = (.error (.rejected why), s))
      (ended = (.ok stamp.told, s.restamped)) := by
  intro ended
  have hended : ended = _ := (transact_upgrade hstamp env u).trans (outcome_upgrade hstamp env u)
  refine stamp.requireUpgradable_decides.mono ?_ ?_
  · intro why hrefused
    rw [hended, hrefused, Call.proceed_error]
  · rintro ⟨_, hpassed⟩
    rw [hended, hpassed, Call.proceed_ok]

/-- What comes of an upgrade of a store with a stamp. -/
structure UpgradesFrom (s : Store) (stamp : VersionStamp) (ended : Except Fault Receipt × Store) :
    Prop where
  /-- It succeeds exactly if this program wrote the stamp, in a version that is not later. -/
  succeeds_iff : (∃ receipt t, ended = (.ok receipt, t)) ↔
    stamp.program = Version.programName ∧
      ∃ v : Version, v.StatedBy stamp.version ∧ v.rank ≤ Version.current.rank
  /-- Then the version in the stamp is all that changes. -/
  changes : ∀ receipt t, ended = (.ok receipt, t) →
    t = { s with version := some { stamp with version := Version.current.text } }
  /-- Otherwise nothing changes, and it is the upgrade that is refused. -/
  refuses : ∀ fault t, ended = (.error fault, t) →
    t = s ∧ ∃ why, fault = .rejected (.badUpgrade why)

/-- Every upgrade of a store with a stamp ends in this way. -/
theorem upgradesFrom (hstamp : s.version = some stamp) (env : Env) (u : Upgrade) :
    s.UpgradesFrom stamp (((Request.upgrade u).run env).transact s) := by
  have hdecided := upgrade_decided hstamp env u
  by_cases hall : ∀ k ∈ stamp.upgradeChecks, k.passes
  · have hended := hdecided.none hall
    have hpasses := VersionStamp.forall_upgradeChecks_iff.mp hall
    constructor
    · exact iff_of_true ⟨stamp.told, s.restamped, hended⟩ hpasses
    · intro receipt t hok
      obtain ⟨_, rfl⟩ := Prod.mk.inj (hended.symm.trans hok)
      rw [hpasses.1]
      rfl
    · intro fault t herror
      cases (Prod.mk.inj (hended.symm.trans herror)).1
  · obtain ⟨k, hk, why, hwhy, hended⟩ := hdecided.exists_refused hall
    constructor
    · refine iff_of_false ?_ fun hpasses => hall (VersionStamp.forall_upgradeChecks_iff.mpr hpasses)
      rintro ⟨receipt, t, hok⟩
      cases (Prod.mk.inj (hended.symm.trans hok)).1
    · intro receipt t hok
      cases (Prod.mk.inj (hended.symm.trans hok)).1
    · intro fault t herror
      obtain ⟨hfault, rfl⟩ := Prod.mk.inj (hended.symm.trans herror)
      obtain rfl := Except.error.inj hfault
      obtain ⟨reason, rfl⟩ := VersionStamp.exists_eq_badUpgrade hk hwhy
      exact ⟨rfl, reason, rfl⟩

end Store

/-- Versions are read from the texts that state them and from nothing else, and the text of a
version is one of these. A stamp of this program that states none is refused as unreadable. So an
upgrade succeeds exactly from a stamp of this program with a version that is not later, and then
changes that version alone; otherwise it is refused before it has written anything. -/
theorem Version.decides_upgrades [AddressRules] :
    (∀ text v, ofText? text = some v ↔ v.StatedBy text) ∧
      (∀ v : Version, v.StatedBy v.text) ∧
      (∀ text, (∀ v : Version, ¬v.StatedBy text) →
        requireUpgradable ⟨programName, text⟩ =
          .error (.rejected (.badUpgrade (.unreadable text)))) ∧
      ∀ (s : Store) (stamp : VersionStamp), s.version = some stamp → ∀ env u,
        let call := (Request.upgrade u).run env
        s.UpgradesFrom stamp (call.transact s) ∧ call.transact s = call.outcome s := by
  refine ⟨fun text v => ofText?_eq_some_iff, statedBy_text, ?_, ?_⟩
  · intro text hunstated
    exact VersionStamp.requireUpgradable_of_unstated hunstated
  · intro s stamp hstamp env u
    exact ⟨Store.upgradesFrom hstamp env u, Store.transact_upgrade hstamp env u⟩

namespace Sample

/-- A store in which this program has counted messages and stamped a version. -/
def stamped (version : String) : Store :=
  { Store.empty with nextNonce := some 7, version := some ⟨Version.programName, version⟩ }

def upgradedFrom (version : String) : Except Fault Receipt × Store :=
  ((Request.upgrade {}).run env).transact (stamped version)

end Sample

/-- A candidate of this version is upgraded to it, and a later version is refused. Signs are no part
of a version. -/
theorem Version.decides_upgrades_sample :
    current.StatedBy "00.01.0-rc.1" ∧
      (∃ receipt, Sample.upgradedFrom "00.01.0-rc.1" = (.ok receipt, Sample.stamped current.text)) ∧
      (∃ why, Sample.upgradedFrom "0.1.1" =
        (.error (.rejected (.badUpgrade why)), Sample.stamped "0.1.1")) ∧
      requireUpgradable ⟨programName, "0.+1.0"⟩ =
        .error (.rejected (.badUpgrade (.unreadable "0.+1.0"))) := by
  obtain ⟨hread, _, hunread, hended⟩ := decides_upgrades
  have hcandidate : current.StatedBy "00.01.0-rc.1" := (hread _ _).mp rfl
  have hlater : (⟨0, 1, 1⟩ : Version).StatedBy "0.1.1" := (hread _ _).mp rfl
  refine ⟨hcandidate, ?_, ?_, ?_⟩
  · obtain ⟨hends, _⟩ := hended (Sample.stamped "00.01.0-rc.1") _ rfl Sample.env {}
    obtain ⟨receipt, t, hok⟩ := hends.succeeds_iff.mpr ⟨rfl, current, hcandidate, le_rfl⟩
    obtain rfl := hends.changes receipt t hok
    exact ⟨receipt, hok⟩
  · obtain ⟨hends, _⟩ := hended (Sample.stamped "0.1.1") _ rfl Sample.env {}
    rcases hresult : Sample.upgradedFrom "0.1.1" with ⟨fault | receipt, t⟩
    · obtain ⟨rfl, why, rfl⟩ := hends.refuses fault t hresult
      exact ⟨why, rfl⟩
    · obtain ⟨_, v, hv, hle⟩ := hends.succeeds_iff.mp ⟨receipt, t, hresult⟩
      obtain rfl := hv.unique hlater
      exact absurd (isNewer_eq_false_iff.mpr hle) (by decide)
  · apply hunread
    intro v hv
    have hsome := (hread _ _).mpr hv
    have hnone : ofText? "0.+1.0" = none := rfl
    rw [hnone] at hsome
    cases hsome

end TokenBridge

import TokenBridge.Proofs.Atomicity
import TokenBridge.Proofs.CommitmentHistory
import TokenBridge.Proofs.Refusals
import TokenBridge.Proofs.Replay

/-!
# Refusals that last

Whether a message may be redeemed depends on few things that are stored. The chain that messages
come from is fixed at the founding, what was redeemed stays redeemed, and a commitment is never
changed. So a message that is refused for its chain or as redeemed is refused forever, and a path
that does not lead to the root at its height can only come to do so under another scheme.
-/

namespace TokenBridge

variable {g : Genesis} {log earlier between : List Entry} {e e' : Entry} {env : Env}
  {now : Timestamp} {s t : Store} {request : Request} {receipt : Receipt} {m : Message}
  {path : MerklePath} {height : UInt64} {settings : Settings} {why : Rejection}

namespace Entry

/-- The message, path and height of a request to withdraw. -/
def withdrawal? (e : Entry) : Option (Message × MerklePath × UInt64) :=
  match e.request with
  | .command _ (.withdraw m path height) => some (m, path, height)
  | _ => none

/-- The scheme in force after a request. -/
def scheme? (e : Entry) : Option Scheme := e.after.settings.map Settings.scheme

/-- The request set a scheme that was not in force after the request before it. -/
def Switches (e previous : Entry) : Prop :=
  ∃ sender scheme receipt, e.request = .command sender (.setScheme scheme) ∧
    e.result = .ok receipt ∧ previous.scheme? ≠ some scheme ∧ e.scheme? = some scheme

theorem exists_of_withdrawal? (h : e.withdrawal? = some (m, path, height)) :
    ∃ sender, e.request = .command sender (.withdraw m path height) := by
  unfold withdrawal? at h
  split at h
  · next sender m' path' height' hrequest =>
    cases h
    exact ⟨sender, hrequest⟩
  · cases h

end Entry

/-- A reason that lies in a message and its path. -/
def Rejection.blamesMessage : Rejection → Bool
  | notIncluded _ => true
  | foreignChain .. => true
  | replayed .. => true
  | _ => false

/-! ### Why a withdrawal is refused -/

namespace WithdrawalOrder

/-- What is paid out is not refused for the message itself. -/
theorem spares_checkRelease [AddressRules] (now : Timestamp) (m : Message) (s : Store) :
    Spares Rejection.blamesMessage (checkRelease now m s) := by
  unfold checkRelease
  cases m.assetId? with
  | none => exact .rejected rfl
  | some asset =>
    refine (Spares.resolveAsset (fun _ => rfl) asset s).bind fun binding _ => ?_
    refine (Spares.mapError fun _ => rfl).bind fun recipient _ => ?_
    refine (Spares.mapError fun _ => rfl).bind fun amount _ => ?_
    refine (Spares.demand rfl).bind fun _ _ => ?_
    refine (Spares.reserved (fun _ _ _ => rfl) _ _ _ _ s).bind fun quota _ => ?_
    exact (Spares.demand rfl).bind fun _ _ => .ok _

/-- What the checks of a message come to where a root is committed. -/
theorem checkMessage_of_commitment {c : Commitment} (hc : s.commitments[height]? = some c)
    (hsettings : s.settings = some settings) :
    checkMessage now m path height s = (do
      demand (c.isFinal now settings.finalityDelay = true) (.notFinalized height)
      demand (settings.scheme.verify c.root m.leaf path = true) (.notIncluded height)
      demand (m.sourceChain = settings.remoteChain)
        (.foreignChain settings.remoteChain m.sourceChain)
      demand (s.redeemed.contains ⟨m.sourceChain, m.nonce⟩ = false)
        (.replayed m.sourceChain m.nonce)) := by
  simp only [checkMessage, Store.requireIncluded, Store.isFinalized, Store.includes, hc,
    Store.getSettings, hsettings, Store.present]
  rfl

/-- Why the checks of a message refuse it, on a store with settings. -/
theorem refusal_of_checkMessage (hsettings : s.settings = some settings)
    (h : checkMessage now m path height s = .error (.rejected why)) :
    why = .notFinalized height ∨
      (∃ c, s.commitments[height]? = some c ∧
        settings.scheme.verify c.root m.leaf path = false ∧ why = .notIncluded height) ∨
      (m.sourceChain ≠ settings.remoteChain ∧
        why = .foreignChain settings.remoteChain m.sourceChain) ∨
      (s.redeemed.contains ⟨m.sourceChain, m.nonce⟩ = true ∧
        why = .replayed m.sourceChain m.nonce) := by
  cases hc : s.commitments[height]? with
  | none =>
    simp only [checkMessage, Store.isFinalized, hc] at h
    cases h
    exact Or.inl rfl
  | some c =>
    rw [checkMessage_of_commitment hc hsettings] at h
    simp only [Except.bind_eq_error_iff, demand_eq_error_iff, demand_eq_ok_iff,
      Fault.rejected.injEq, exists_const, Bool.not_eq_true, Bool.not_eq_false] at h
    rcases h with ⟨_, rfl⟩ | ⟨_, ⟨hpath, rfl⟩ | ⟨_, ⟨hchain, rfl⟩ | ⟨_, hspent, rfl⟩⟩⟩
    · exact Or.inl rfl
    · exact Or.inr (Or.inl ⟨c, rfl, hpath, rfl⟩)
    · exact Or.inr (Or.inr (Or.inl ⟨hchain, rfl⟩))
    · exact Or.inr (Or.inr (Or.inr ⟨hspent, rfl⟩))

end WithdrawalOrder

/-- A withdrawal that is refused for its message fails the checks of the message. -/
theorem checkMessage_of_withdraw [AddressRules] {sender : Address} (hwhy : why.blamesMessage = true)
    (h : ((Request.command sender (.withdraw m path height)).run env).transact s =
      (.error (.rejected why), t)) :
    WithdrawalOrder.checkMessage env.now m path height s = .error (.rejected why) ∧ t = s := by
  obtain ⟨⟨_, hfaults⟩, hsame⟩ := Call.transact_eq_error_iff.mp h
  refine ⟨?_, hsame.symm⟩
  have hblamed : why.blamesMessage ≠ false := by
    rw [hwhy]
    nofun
  simp only [Request.run, Command.run, withdraw, Call.faults_check_bind_iff] at hfaults
  obtain ⟨hactive, _⟩ | ⟨_, _, ⟨hmessage, _⟩ | ⟨_, _, ⟨hrelease, _⟩ | ⟨order, _, hrecord⟩⟩⟩ :=
    hfaults
  · exact absurd (Spares.requireActive rfl rfl s why hactive) hblamed
  · exact hmessage
  · exact absurd (WithdrawalOrder.spares_checkRelease env.now m s why hrelease) hblamed
  · exact (WithdrawalOrder.not_faults_record hrecord).elim

/-! ### What a withdrawal may wait for -/

/-- A step leaves the scheme as it is, unless it sets it. -/
theorem Step.scheme_eq [AddressRules] (hstep : Step env s request receipt t) :
    t.settings.map Settings.scheme = s.settings.map Settings.scheme ∨
      ∃ sender scheme, request = .command sender (.setScheme scheme) ∧
        t.settings.map Settings.scheme = some scheme := by
  cases hstep with
  | deposit _ _ _ hrecord | receive _ _ _ hrecord =>
    obtain ⟨_, _, rfl⟩ := DepositOrder.store_of_record hrecord
    exact Or.inl rfl
  | setFinalityDelay _ hsettings _ =>
    rw [hsettings]
    exact Or.inl rfl
  | @setScheme sender scheme _ _ _ _ _ => exact Or.inr ⟨sender, scheme, rfl, rfl⟩
  | _ => exact Or.inl rfl

/-- A request after which another scheme is in force than after the request before it has switched
the scheme. -/
theorem Run.switches_of_snoc [AddressRules] {previous change : Entry}
    (h : Run g (log ++ [previous] ++ [change]) t) (hother : change.scheme? ≠ previous.scheme?) :
    change.Switches previous := by
  obtain ⟨u, hbefore, hlater, hended, _⟩ := h.of_snoc
  obtain ⟨_, _, _, _, rfl⟩ := hbefore.of_snoc
  cases hresult : change.result with
  | error fault =>
    rw [hresult] at hended
    have hsame := Call.store_of_transact_error hended
    exact absurd (congrArg (·.settings.map Settings.scheme) hsame) hother
  | ok receipt =>
    rw [hresult] at hended
    rcases (Step.of_yields hlater (Call.transact_eq_ok_iff.mp hended)).scheme_eq with
      hsame | ⟨sender, scheme, hrequest, hscheme⟩
    · exact absurd hsame hother
    · refine ⟨sender, scheme, receipt, hrequest, hresult, ?_, hscheme⟩
      intro hprevious
      exact hother (hscheme.trans hprevious.symm)

/-- If another scheme is in force than after a request, a later request has switched it. -/
theorem Run.exists_switch [AddressRules] (h : Run g (earlier ++ e :: between) t)
    (hother : t.settings.map Settings.scheme ≠ e.scheme?) :
    ∃ before previous change after,
      e :: between = before ++ previous :: change :: after ∧ change.Switches previous := by
  induction between using List.reverseRecOn generalizing t with
  | nil =>
    obtain ⟨_, _, _, _, rfl⟩ := h.of_snoc
    exact absurd rfl hother
  | append_singleton between change ih =>
    rw [← List.cons_append, ← List.append_assoc] at h
    obtain ⟨u, hbefore, _, _, rfl⟩ := h.of_snoc
    by_cases hsame : u.settings.map Settings.scheme = e.scheme?
    · -- The scheme was still the old one before the last request, which therefore switched it.
      have hback := List.dropLast_append_getLast (List.cons_ne_nil e between)
      generalize (e :: between).dropLast = before, (e :: between).getLast _ = previous at hback
      rw [← hback, ← List.append_assoc] at h hbefore
      obtain ⟨_, _, _, _, rfl⟩ := hbefore.of_snoc
      refine ⟨before, previous, change, [], ?_, h.switches_of_snoc ?_⟩
      · rw [← List.cons_append, ← hback, List.append_assoc]
        rfl
      · intro hscheme
        exact hother (hscheme.trans hsame)
    · obtain ⟨before, previous, change', after, hsplit, hswitch⟩ := ih hbefore hsame
      refine ⟨before, previous, change', after ++ [change], ?_, hswitch⟩
      rw [← List.cons_append, hsplit, List.append_assoc]
      rfl

/-! ### Refused once and asked for again -/

/-- The store holds at least the evidence that another one holds: the same chain, its commitments
and what was redeemed in it. -/
structure Store.Extends (t s : Store) : Prop where
  remoteChain : t.settings.map Settings.remoteChain = s.settings.map Settings.remoteChain
  commitments : ∀ (height : UInt64) (c : Commitment),
    s.commitments[height]? = some c → t.commitments[height]? = some c
  redeemed : ∀ id ∈ s.redeemed, id ∈ t.redeemed

/-- A message that is refused and then accepted was refused for its path, under another scheme. -/
theorem WithdrawalOrder.scheme_ne_of_checkMessage {later : Timestamp} (hextends : t.Extends s)
    (hsettings : ∃ settings, s.settings = some settings) (hwhy : why.blamesMessage = true)
    (hrefused : checkMessage now m path height s = .error (.rejected why))
    (haccepted : checkMessage later m path height t = .ok ()) :
    why = .notIncluded height ∧
      t.settings.map Settings.scheme ≠ s.settings.map Settings.scheme := by
  obtain ⟨settings, hsettings⟩ := hsettings
  obtain ⟨c, settings', hstored, hsettings', _, hpath, hchain, hfresh⟩ :=
    checkMessage_eq_ok_iff.mp haccepted
  have hremote : settings'.remoteChain = settings.remoteChain := by
    have hsame := hextends.remoteChain
    rw [hsettings, hsettings'] at hsame
    exact Option.some.inj hsame
  rcases refusal_of_checkMessage hsettings hrefused with
    rfl | ⟨c', hstored', hpath', rfl⟩ | ⟨hforeign, rfl⟩ | ⟨hspent, rfl⟩
  · cases hwhy
  · refine ⟨rfl, ?_⟩
    obtain rfl := Option.some.inj (hstored.symm.trans (hextends.commitments height c' hstored'))
    rw [hsettings, hsettings']
    intro hscheme
    rw [Option.some.inj hscheme, hpath'] at hpath
    cases hpath
  · exact absurd (hchain.trans hremote) hforeign
  · have hkept := hextends.redeemed _ (Std.ExtTreeSet.contains_iff_mem.mp hspent)
    rw [← Std.ExtTreeSet.contains_iff_mem, hfresh] at hkept
    cases hkept

/-- The reasons against a message that stay. -/
def Rejection.isLasting : Rejection → Bool
  | foreignChain .. => true
  | replayed .. => true
  | _ => false

theorem Rejection.blamesMessage_of_isLasting (h : why.isLasting = true) :
    why.blamesMessage = true := by
  cases why with
  | foreignChain | replayed => rfl
  | _ => cases h

/-- What is known of a withdrawal that was refused for its message, when it is asked for again. -/
structure LastingRefusals (log : List Entry) : Prop where
  /-- What was refused as redeemed, or for its chain, is never paid out. -/
  never : ∀ earlier e later w why, log = earlier ++ e :: later → e.withdrawal? = some w →
    e.result = .error (.rejected why) → why.isLasting = true →
      ∀ e' ∈ later, e'.withdrawal? = some w → e'.result.isOk = false
  /-- What was refused for its path is paid out only after the scheme was switched. -/
  unproven : ∀ earlier e between e' later w height,
    log = earlier ++ e :: (between ++ e' :: later) → e.withdrawal? = some w →
    e.result = .error (.rejected (.notIncluded height)) → e'.withdrawal? = some w →
    e'.result.isOk = true →
      ∃ before previous change after,
        e :: between = before ++ previous :: change :: after ∧ change.Switches previous

/-- A withdrawal that succeeds passes the checks of its message. -/
theorem Step.checkMessage_eq [AddressRules] {sender : Address}
    (hstep : Step env s (.command sender (.withdraw m path height)) receipt t) :
    WithdrawalOrder.checkMessage env.now m path height s = .ok () := by
  cases hstep with
  | withdraw _ hmessage _ => exact hmessage

namespace Run

variable [AddressRules]

/-- However a run goes on, its evidence is kept. -/
theorem extends_of_append {later : List Entry} (h : Run g log s) (hlater : Run g (log ++ later) t) :
    t.Extends s where
  remoteChain := by
    obtain ⟨_, _, hsettings⟩ := h.settings_eq
    obtain ⟨_, _, hsettings'⟩ := hlater.settings_eq
    rw [hsettings, hsettings']
    rfl
  commitments _ _ hstored := h.commitment_kept hlater hstored
  redeemed id hid := by
    rw [h.mem_redeemed_iff] at hid
    rw [hlater.mem_redeemed_iff, redeemedIn, List.filterMap_append]
    exact List.mem_append_left _ hid

/-- A withdrawal that is refused for its message and succeeds later was refused for its path, and
the scheme was switched in between. -/
theorem exists_switch_of_withdrawals {later : List Entry} {w : Message × MerklePath × UInt64}
    (h : Run g (earlier ++ e :: (between ++ e' :: later)) s) (he : e.withdrawal? = some w)
    (he' : e'.withdrawal? = some w) (hresult : e.result = .error (.rejected why))
    (hwhy : why.blamesMessage = true) (hok : e'.result = .ok receipt) :
    why = .notIncluded w.2.2 ∧
      ∃ before previous change after,
        e :: between = before ++ previous :: change :: after ∧ change.Switches previous := by
  obtain ⟨m, path, height⟩ := w
  obtain ⟨sender, hrequest⟩ := Entry.exists_of_withdrawal? he
  obtain ⟨sender', hrequest'⟩ := Entry.exists_of_withdrawal? he'
  have hsplit : earlier ++ e :: (between ++ e' :: later) =
      (earlier ++ e :: between) ++ e' :: later := by
    rw [List.append_assoc]
    rfl
  obtain ⟨t, hbetween, hstep⟩ := h.step_of_eq_append hsplit hok
  rw [hrequest'] at hstep
  have hprefix : Run g (earlier ++ [e] ++ between) t := by
    rwa [List.append_assoc]
  obtain ⟨_, hfirst⟩ := hprefix.of_append
  obtain ⟨before, hearlier, _, hended, hafter⟩ := hfirst.of_snoc
  rw [hrequest, hresult] at hended
  obtain ⟨hrefused, hsame⟩ := checkMessage_of_withdraw hwhy hended
  obtain ⟨hpath, hscheme⟩ := WithdrawalOrder.scheme_ne_of_checkMessage
    (hearlier.extends_of_append hbetween) hearlier.complete.settings hwhy hrefused
    hstep.checkMessage_eq
  refine ⟨hpath, hbetween.exists_switch ?_⟩
  rw [Entry.scheme?, hsame]
  exact hscheme

/-- In every run the refusals of messages last. -/
theorem lasting_refusals (h : Run g log s) : LastingRefusals log where
  never := by
    rintro earlier e later w why rfl he hresult hlasting e' hmem he'
    obtain ⟨between, rest, rfl⟩ := List.append_of_mem hmem
    cases hended : e'.result with
    | error fault => rfl
    | ok receipt =>
      obtain ⟨rfl, _⟩ := h.exists_switch_of_withdrawals he he' hresult
        (Rejection.blamesMessage_of_isLasting hlasting) hended
      cases hlasting
  unproven := by
    rintro earlier e between e' later w height rfl he hresult he' hok
    cases hended : e'.result with
    | error fault =>
      rw [hended] at hok
      cases hok
    | ok receipt => exact (h.exists_switch_of_withdrawals he he' hresult rfl hended).2

end Run

namespace Sample

/-- The founding of the short run, with paths read in the other way. -/
def misread : Genesis := { genesis with scheme := some .indexed }

/-- A withdrawal is asked for under the wrong scheme, under the right one, and once more. -/
def disputes : List Request :=
  preparations ++ [withdrawal, .command "root" (.setScheme .sortedPair), withdrawal, withdrawal]

def disputed : List Entry × Store :=
  ((found misread).transact .empty).2.play (disputes.map (Sample.env, ·))

theorem run_disputed : Run misread disputed.1 disputed.2 :=
  Run.of_found (by decide +kernel) (disputes.map (Sample.env, ·)) (by decide)

end Sample

/-- The path is refused, then accepted once the scheme was switched, and the message not again. -/
theorem Run.lasting_refusals_sample :
    Run Sample.misread Sample.disputed.1 Sample.disputed.2 ∧
      Sample.disputed.1[5]?.map Entry.result = some (.error (.rejected (.notIncluded 1))) ∧
      Sample.disputed.1[7]?.map (·.result.isOk) = some true ∧
      Sample.disputed.1[8]?.map Entry.result = some (.error (.rejected (.replayed 2 7))) ∧
      LastingRefusals Sample.disputed.1 := by
  have hended :
      Sample.disputed.1[5]?.map Entry.result = some (.error (.rejected (.notIncluded 1))) ∧
        Sample.disputed.1[7]?.map (·.result.isOk) = some true ∧
        Sample.disputed.1[8]?.map Entry.result = some (.error (.rejected (.replayed 2 7))) := by
    decide +kernel
  exact ⟨Sample.run_disputed, hended.1, hended.2.1, hended.2.2,
    lasting_refusals Sample.run_disputed⟩

end TokenBridge

import TokenBridge.Chain
import TokenBridge.Proofs.Step

/-!
# Runs of a bridge

A run starts with a founding on the empty store, after which commands and upgrades follow one
another in any order, from any callers, in any blocks and with any replies of token contracts. The
log of a run keeps every request with the way it ended and the store that it left. Whatever
sequence of requests is made, it is a run.
-/

namespace TokenBridge

/-- A request as it went. -/
structure Entry where
  env : Env
  request : Request
  result : Except Fault Receipt
  /-- The store after the request. -/
  after : Store

/-- A bridge founded in the given way has gone through the requests of the log, and holds the given
store now. -/
inductive Run [AddressRules] (g : Genesis) : List Entry → Store → Prop
  | found {receipt s} (h : (TokenBridge.found g).transact .empty = (.ok receipt, s)) : Run g [] s
  | request {log s env request result t} (hrun : Run g log s) (hlater : request.isLater = true)
      (h : (request.run env).transact s = (result, t)) :
      Run g (log ++ [⟨env, request, result, t⟩]) t

namespace Call

variable {s t : Store}

/-- Giving a role to several accounts changes the roster and the number of admins alone. -/
theorem yields_grantAll [AddressRules] {role : Role} {accounts : List Address} {u : Unit}
    (h : (grantAll role accounts).Yields s u t) :
    ∃ roster adminCount, t = { s with roster, adminCount } := by
  induction accounts generalizing s with
  | nil => exact ⟨s.roster, s.adminCount, (yields_pure_iff.mp h).2.symm⟩
  | cons account rest ih =>
    simp only [grantAll, yields_lift_bind_iff] at h
    obtain ⟨_, _, h⟩ := h
    obtain ⟨changed, m, hgrant, hrest⟩ := yields_bind_iff.mp h
    obtain ⟨roster, adminCount, rfl⟩ := yields_grant hgrant
    obtain ⟨roster', adminCount', rfl⟩ := ih hrest
    exact ⟨roster', adminCount', rfl⟩

end Call

/-- Founding writes the settings, and leaves all tables but the roster empty. -/
theorem yields_found [AddressRules] {g : Genesis} {receipt : Receipt} {s : Store}
    (h : (found g).Yields .empty receipt s) :
    ∃ adminCount version roster, s = { Store.empty with
      settings := some g.settings, pauses := some .none, nextNonce := some 0,
      adminCount, version, roster } := by
  simp only [found, stamp, Call.yields_write_bind_iff, Call.yields_lift_bind_iff] at h
  obtain ⟨_, _, _, _, h⟩ := h
  obtain ⟨_, _, hadmins, h⟩ := Call.yields_bind_iff.mp h
  obtain ⟨_, _, hcommitters, h⟩ := Call.yields_bind_iff.mp h
  obtain ⟨_, _, hpausers, h⟩ := Call.yields_bind_iff.mp h
  obtain ⟨_, _, rfl⟩ := Call.yields_grantAll hadmins
  obtain ⟨_, _, rfl⟩ := Call.yields_grantAll hcommitters
  obtain ⟨_, _, rfl⟩ := Call.yields_grantAll hpausers
  exact ⟨_, _, _, (Call.yields_pure_iff.mp h).2.symm⟩

/-- What is collected from a log grows by what its last entry gives. -/
theorem filterMap_snoc (collect : Entry → Option α) (log : List Entry) (e : Entry) :
    (log ++ [e]).filterMap collect = log.filterMap collect ++ (collect e).toList := by
  rw [List.filterMap_append]
  cases h : collect e with
  | none => simp [h]
  | some a => simp [h]

namespace Run

variable [AddressRules] {g : Genesis} {log : List Entry} {s : Store}

/-- What holds after the founding, and is kept by requests that fault and by every step, holds
throughout all runs. -/
@[elab_as_elim]
theorem rec_step {motive : ∀ log s, Run g log s → Prop}
    (found : ∀ {receipt s} (hrun : Run g [] s), (TokenBridge.found g).Yields .empty receipt s →
      motive [] s hrun)
    (fault : ∀ {log s} env request reason (hrun : Run g log s)
      (hnext : Run g (log ++ [⟨env, request, .error reason, s⟩]) s),
      motive log s hrun → motive _ s hnext)
    (step : ∀ {log s env request receipt t} (hrun : Run g log s)
      (hnext : Run g (log ++ [⟨env, request, .ok receipt, t⟩]) t), Step env s request receipt t →
      motive log s hrun → motive _ t hnext)
    (h : Run g log s) : motive log s h := by
  induction h with
  | found h => exact found (.found h) (Call.transact_eq_ok_iff.mp h)
  | @request log s env request result t hrun hlater h ih =>
    cases result with
    | error reason =>
      obtain rfl := Call.store_of_transact_error h
      exact fault env request reason hrun (.request hrun hlater h) ih
    | ok receipt =>
      exact step hrun (.request hrun hlater h)
        (Step.of_yields hlater (Call.transact_eq_ok_iff.mp h)) ih

/-- In every run bindings are stored under the names of their tokens. -/
theorem boundByName (h : Run g log s) : s.BoundByName := by
  intro token b hb
  induction h using rec_step with
  | found _ hfound =>
    obtain ⟨_, _, _, rfl⟩ := yields_found hfound
    simp [Store.empty] at hb
  | fault _ _ _ _ _ ih => exact ih hb
  | step _ _ hstep ih =>
    cases hstep with
    | deposit _ _ _ hrecord | receive _ _ _ hrecord =>
      obtain ⟨_, _, rfl⟩ := DepositOrder.store_of_record hrecord
      exact ih hb
    | @bindAsset _ _ b' _ _ _ _ _ _ _ =>
      rw [Std.ExtTreeMap.getElem?_insert] at hb
      split at hb
      · next heq =>
        obtain rfl := Option.some.inj hb
        exact Std.compare_eq_iff_eq.mp heq
      · exact ih hb
    | _ => exact ih hb

/-- The settings stay those of the founding, up to the finality delay and the scheme. -/
theorem settings_eq (h : Run g log s) :
    ∃ finalityDelay scheme, s.settings = some { g.settings with finalityDelay, scheme } := by
  induction h using rec_step with
  | found _ hfound =>
    obtain ⟨_, _, _, rfl⟩ := yields_found hfound
    exact ⟨g.settings.finalityDelay, g.settings.scheme, rfl⟩
  | fault _ _ _ _ _ ih => exact ih
  | step _ _ hstep ih =>
    obtain ⟨finalityDelay, scheme, hsettings⟩ := ih
    cases hstep with
    | deposit _ _ _ hrecord | receive _ _ _ hrecord =>
      obtain ⟨_, _, rfl⟩ := DepositOrder.store_of_record hrecord
      exact ⟨finalityDelay, scheme, hsettings⟩
    | @setFinalityDelay _ seconds _ _ _ hold _ =>
      obtain rfl := Option.some.inj (hold.symm.trans hsettings)
      exact ⟨seconds, scheme, rfl⟩
    | @setScheme _ other _ _ _ hold _ =>
      obtain rfl := Option.some.inj (hold.symm.trans hsettings)
      exact ⟨finalityDelay, other, rfl⟩
    | _ => exact ⟨finalityDelay, scheme, hsettings⟩

/-- The chain from which messages are redeemed is the one that the bridge was founded for. -/
theorem settings_remoteChain (h : Run g log s) :
    ∃ settings, s.settings = some settings ∧ settings.remoteChain = g.remoteChain := by
  obtain ⟨_, _, hsettings⟩ := h.settings_eq
  exact ⟨_, hsettings, rfl⟩

/-- The last request of a run was carried out on the store of the run before it. -/
theorem of_snoc {e : Entry} (h : Run g (log ++ [e]) s) :
    ∃ before, Run g log before ∧ e.request.isLater = true ∧
      (e.request.run e.env).transact before = (e.result, e.after) ∧ e.after = s := by
  generalize hwhole : log ++ [e] = whole at h
  cases h with
  | found _ => simp at hwhole
  | request hrun hlater hended =>
    obtain ⟨rfl, he⟩ := List.append_inj' hwhole rfl
    obtain rfl := List.singleton_inj.mp he
    exact ⟨_, hrun, hlater, hended, rfl⟩

/-- The first requests of a run make a run of their own. -/
theorem of_append {later : List Entry} (h : Run g (log ++ later) s) :
    ∃ before, Run g log before := by
  induction later generalizing log with
  | nil =>
    rw [List.append_nil] at h
    exact ⟨s, h⟩
  | cons e later ih =>
    rw [List.append_cons] at h
    obtain ⟨_, hnext⟩ := ih h
    obtain ⟨before, hbefore, _⟩ := hnext.of_snoc
    exact ⟨before, hbefore⟩

/-- A request of a run that succeeded was a step from the store of the run before it. -/
theorem step_of_eq_append {earlier later : List Entry} {e : Entry} {receipt : Receipt}
    (h : Run g log s) (hlog : log = earlier ++ e :: later) (hresult : e.result = .ok receipt) :
    ∃ before, Run g earlier before ∧ Step e.env before e.request receipt e.after := by
  rw [hlog, List.append_cons] at h
  obtain ⟨_, hprefix⟩ := h.of_append
  obtain ⟨before, hbefore, hlater, hended, _⟩ := hprefix.of_snoc
  rw [hresult] at hended
  exact ⟨before, hbefore, Step.of_yields hlater (Call.transact_eq_ok_iff.mp hended)⟩

end Run

/-- The log of a sequence of requests made from a store on, and the store in the end. -/
def Store.play [AddressRules] (s : Store) : List (Env × Request) → List Entry × Store
  | [] => ([], s)
  | (env, request) :: rest =>
    let ended := (request.run env).transact s
    let played := ended.2.play rest
    (⟨env, request, ended.1, ended.2⟩ :: played.1, played.2)

/-- Requests that are played in one block are logged with that block. -/
theorem Store.env_of_mem_play [AddressRules] {s : Store} {env : Env} {requests : List Request}
    {e : Entry} (h : e ∈ (s.play (requests.map (env, ·))).1) : e.env = env := by
  induction requests generalizing s with
  | nil => cases h
  | cons request rest ih =>
    rcases List.mem_cons.mp h with rfl | hrest
    · rfl
    · exact ih hrest

/-- A later request goes on with a run, however it ends. -/
theorem Run.snoc [AddressRules] {g : Genesis} {log : List Entry} {s : Store} (h : Run g log s)
    (env : Env) (request : Request) (hlater : request.isLater = true) :
    let ended := (request.run env).transact s
    Run g (log ++ [⟨env, request, ended.1, ended.2⟩]) ended.2 :=
  h.request hlater rfl

/-- Every sequence of later requests goes on with a run. -/
theorem Run.play [AddressRules] {g : Genesis} {log : List Entry} {s : Store} (h : Run g log s)
    (requests : List (Env × Request)) (hlater : ∀ r ∈ requests, r.2.isLater = true) :
    Run g (log ++ (s.play requests).1) (s.play requests).2 := by
  induction requests generalizing log s with
  | nil => simpa [Store.play] using h
  | cons r rest ih =>
    have hnext := h.snoc r.1 r.2 (hlater r List.mem_cons_self)
    have hrest := ih hnext fun r' hr' => hlater r' (List.mem_cons_of_mem _ hr')
    rwa [List.append_assoc] at hrest

/-- A founding that succeeds starts a run, and every sequence of later requests goes on with it. -/
theorem Run.of_found [AddressRules] {g : Genesis}
    (hfound : ((TokenBridge.found g).transact .empty).1.isOk = true)
    (requests : List (Env × Request)) (hlater : ∀ r ∈ requests, r.2.isLater = true) :
    let start := ((TokenBridge.found g).transact .empty).2
    Run g (start.play requests).1 (start.play requests).2 := by
  rcases h : (TokenBridge.found g).transact .empty with ⟨result, s⟩
  cases result with
  | error fault => simp [h, Except.isOk, Except.toBool] at hfound
  | ok receipt => exact (Run.found h).play requests hlater

/-! A short run, in which a token is deposited in both ways, and paid out once. -/

namespace Sample

def genesis : Genesis where
  admins := ["root"]
  committers := ["root"]
  pausers := []
  remoteChain := 2
  homeChain := 1
  startHeight := 1
  finalityDelay := 0
  scheme := some .sortedPair

/-- The block of all requests; every account holds one hundred of every token. -/
def env : Env where
  now := ⟨1000000000⟩
  height := 1
  self := "bridge"
  tokens := {
    balance := fun _ _ => .ok (balanceToJson ⟨100, by decide⟩).render
    allowance := fun _ _ _ => .ok (Allowance.mk ⟨100, by decide⟩ .never).toJson.render }

def message : Message where
  sender := "0x00"
  recipient := "alice"
  amount := ⟨30, by decide⟩
  nonce := 7
  data := Word256.zero.bytes
  sourceChain := 2

/-- Everything before the withdrawal. -/
def preparations : List Request := [
  .command "root" (.bindAsset "cash" Word256.zero.bytes 6 6),
  .command "root" (.setTerms "cash" .withdrawal ⟨⟨50, by decide⟩, 60⟩),
  .command "alice" (.deposit "cash" ⟨100, by decide⟩ Word256.zero.toHex),
  .command "cash"
    (.receive "alice" ⟨20, by decide⟩ (utf8 (Notice.deposit Word256.zero.toHex).toJson.render)),
  .command "root" (.commit 1 message.leaf.bytes 0)]

def withdrawal : Request := .command "bob" (.withdraw message ⟨0, 1, []⟩ 1)

def requests : List Request := preparations ++ [withdrawal]

/-- The log of the run and the store in the end. -/
def played : List Entry × Store :=
  ((found genesis).transact .empty).2.play (requests.map (env, ·))

/-- The bridge can be founded, so whatever is requested in the block is a run of it. -/
theorem run_of_later (requests : List Request) (hlater : ∀ r ∈ requests, r.isLater = true) :
    let start := ((found genesis).transact .empty).2
    Run genesis (start.play (requests.map (env, ·))).1 (start.play (requests.map (env, ·))).2 :=
  Run.of_found (by decide +kernel) (requests.map (env, ·)) (List.forall_mem_map.mpr hlater)

theorem run : Run genesis played.1 played.2 := run_of_later requests (by decide)

end Sample

end TokenBridge

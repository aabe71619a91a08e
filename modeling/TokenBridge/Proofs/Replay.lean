import TokenBridge.Proofs.Run

/-!
# Redeeming once

A message is redeemed by the withdrawal that pays it out, whatever path, height and scheme it was
shown under. The store keeps exactly the messages redeemed in the run so far. They all come from one
chain, so that a nonce alone decides whether a message can still be redeemed.
-/

namespace TokenBridge

variable {g : Genesis} {log : List Entry} {env : Env} {s t : Store} {request : Request}
  {receipt : Receipt}

/-- The message that a request redeemed, if it redeemed one. -/
def Entry.redeems? (e : Entry) : Option MessageId :=
  match e.request, e.result with
  | .command _ (.withdraw m _ _), .ok _ => some ⟨m.sourceChain, m.nonce⟩
  | _, _ => none

/-- The messages redeemed in a log, in the order of their withdrawals. -/
def redeemedIn (log : List Entry) : List MessageId := log.filterMap Entry.redeems?

theorem redeemedIn_snoc (log : List Entry) (e : Entry) :
    redeemedIn (log ++ [e]) = redeemedIn log ++ e.redeems?.toList :=
  filterMap_snoc Entry.redeems? log e

/-- A request that faults redeems nothing. -/
theorem Entry.redeems?_error (env : Env) (request : Request) (reason : Fault) (after : Store) :
    Entry.redeems? ⟨env, request, .error reason, after⟩ = none := by
  cases request with
  | command sender command =>
    cases command with
    | _ => rfl
  | _ => rfl

/-- A step that redeems a message finds it unredeemed and from the remote chain. -/
theorem Step.fresh_of_redeems [AddressRules] (hstep : Step env s request receipt t) {id : MessageId}
    (hid : Entry.redeems? ⟨env, request, .ok receipt, t⟩ = some id) :
    id ∉ s.redeemed ∧
      ∃ settings, s.settings = some settings ∧ id.sourceChain = settings.remoteChain := by
  cases hstep with
  | withdraw _ hmessage _ =>
    obtain ⟨_, settings, _, hsettings, _, _, hchain, hfresh⟩ :=
      WithdrawalOrder.checkMessage_eq_ok_iff.mp hmessage
    obtain rfl := Option.some.inj hid
    refine ⟨?_, settings, hsettings, hchain⟩
    rw [← Std.ExtTreeSet.contains_iff_mem, hfresh]
    exact Bool.false_ne_true
  | _ => cases hid

/-- A step adds to the redeemed messages the one that it redeems. -/
theorem Step.mem_redeemed_iff [AddressRules] (hstep : Step env s request receipt t)
    (id : MessageId) :
    id ∈ t.redeemed ↔
      id ∈ s.redeemed ∨ Entry.redeems? ⟨env, request, .ok receipt, t⟩ = some id := by
  cases hstep with
  | deposit _ _ _ hrecord | receive _ _ _ hrecord =>
    obtain ⟨_, _, rfl⟩ := DepositOrder.store_of_record hrecord
    exact (or_iff_left nofun).symm
  | @withdraw _ m _ _ order _ _ hrelease =>
    obtain ⟨_, _, _, _, _, _, _, _, _, _, hid⟩ := WithdrawalOrder.checkRelease_eq_ok_iff.mp hrelease
    have hinsert : id ∈ (order.recorded s).redeemed ↔ order.id = id ∨ id ∈ s.redeemed := by
      simp only [WithdrawalOrder.recorded, Std.ExtTreeSet.mem_insert, Std.compare_eq_iff_eq]
    rw [hinsert, hid, or_comm]
    exact or_congr_right Option.some_inj.symm
  | _ => exact (or_iff_left nofun).symm

namespace Run

variable [AddressRules]

/-- The store keeps the messages that were redeemed. -/
theorem mem_redeemed_iff (h : Run g log s) (id : MessageId) :
    id ∈ s.redeemed ↔ id ∈ redeemedIn log := by
  induction h using rec_step with
  | found _ hfound =>
    obtain ⟨_, _, _, rfl⟩ := yields_found hfound
    simp [Store.empty, redeemedIn]
  | fault env request reason _ _ ih =>
    rw [redeemedIn_snoc, Entry.redeems?_error]
    simpa using ih
  | step _ _ hstep ih =>
    rw [redeemedIn_snoc, List.mem_append, Option.mem_toList, hstep.mem_redeemed_iff, ih]

/-- Every redeemed message comes from the chain that the bridge was founded for. -/
theorem sourceChain_of_redeemed (h : Run g log s) {id : MessageId} (hid : id ∈ redeemedIn log) :
    id.sourceChain = g.remoteChain := by
  induction h using rec_step with
  | found _ _ => cases hid
  | fault env request reason _ _ ih =>
    rw [redeemedIn_snoc, Entry.redeems?_error] at hid
    exact ih (by simpa using hid)
  | step hrun _ hstep ih =>
    rw [redeemedIn_snoc, List.mem_append, Option.mem_toList] at hid
    rcases hid with hold | hnew
    · exact ih hold
    · obtain ⟨_, settings, hsettings, hchain⟩ := hstep.fresh_of_redeems hnew
      obtain ⟨settings', hsettings', hremote⟩ := hrun.settings_remoteChain
      obtain rfl := Option.some.inj (hsettings.symm.trans hsettings')
      exact hchain.trans hremote

/-- No two withdrawals of a run that succeed have the same nonce. -/
theorem nodup_nonces (h : Run g log s) : ((redeemedIn log).map MessageId.nonce).Nodup := by
  induction h using rec_step with
  | found _ _ => exact List.nodup_nil
  | fault env request reason _ _ ih =>
    rw [redeemedIn_snoc, Entry.redeems?_error]
    simpa using ih
  | step hrun hnext hstep ih =>
    rw [redeemedIn_snoc]
    cases hid : Entry.redeems? _ with
    | none => simpa using ih
    | some id =>
      have hfresh := (hstep.fresh_of_redeems hid).1
      have hchain : id.sourceChain = g.remoteChain :=
        hnext.sourceChain_of_redeemed (by rw [redeemedIn_snoc, hid]; simp)
      rw [Option.toList_some, List.map_append, List.nodup_append]
      refine ⟨ih, by simp, ?_⟩
      intro nonce hold nonce' hnew heq
      obtain ⟨old, hmem, hnonce⟩ := List.mem_map.mp hold
      obtain rfl : nonce' = id.nonce := by simpa using hnew
      -- With one source chain an equal nonce is the same message, which the store keeps.
      have hsame : old = id := by
        have hold := hrun.sourceChain_of_redeemed hmem
        cases old
        cases id
        simp_all
      exact hfresh (hsame ▸ (hrun.mem_redeemed_iff old).mpr hmem)

/-- In every run at most one withdrawal of a nonce succeeds; the store keeps exactly the messages
whose withdrawal has succeeded, and they come from the chain that the bridge was founded for. -/
theorem redeems_once (h : Run g log s) :
    ((redeemedIn log).map MessageId.nonce).Nodup ∧
      (∀ id, id ∈ s.redeemed ↔ id ∈ redeemedIn log) ∧
      ∀ id ∈ redeemedIn log, id.sourceChain = g.remoteChain :=
  ⟨h.nodup_nonces, h.mem_redeemed_iff, fun _ hid => h.sourceChain_of_redeemed hid⟩

end Run

namespace Sample

/-- Another message, for which the quota has room left. -/
def nextMessage : Message := { message with nonce := 8, amount := ⟨17, by decide⟩ }

/-- The log of a run in which a message is redeemed, asked for again, and followed by another one,
and the store in the end. -/
def askedAgain : List Entry × Store :=
  ((found genesis).transact .empty).2.play ((requests ++ [
    withdrawal,
    .command "root" (.commit 2 nextMessage.leaf.bytes 0),
    .command "bob" (.withdraw nextMessage ⟨0, 1, []⟩ 2)]).map (Sample.env, ·))

theorem run_askedAgain : Run genesis askedAgain.1 askedAgain.2 := run_of_later _ (by decide)

end Sample

/-- Of three withdrawals the second one, of a message redeemed before, is refused. -/
theorem Run.redeems_once_sample :
    Run Sample.genesis Sample.askedAgain.1 Sample.askedAgain.2 ∧
      (Sample.askedAgain.1.drop 5).map (·.result.isOk) = [true, false, true, true] ∧
      redeemedIn Sample.askedAgain.1 = [⟨2, 7⟩, ⟨2, 8⟩] ∧
      ((redeemedIn Sample.askedAgain.1).map MessageId.nonce).Nodup ∧
      (∀ id, id ∈ Sample.askedAgain.2.redeemed ↔ id ∈ redeemedIn Sample.askedAgain.1) ∧
      ∀ id ∈ redeemedIn Sample.askedAgain.1, id.sourceChain = Sample.genesis.remoteChain := by
  obtain ⟨hended, hredeemed⟩ :
      (Sample.askedAgain.1.drop 5).map (·.result.isOk) = [true, false, true, true] ∧
        redeemedIn Sample.askedAgain.1 = [⟨2, 7⟩, ⟨2, 8⟩] := by
    decide +kernel
  exact ⟨Sample.run_askedAgain, hended, hredeemed, redeems_once Sample.run_askedAgain⟩

end TokenBridge

import TokenBridge.Proofs.Atomicity
import TokenBridge.Proofs.Wire

/-!
# The two ways to deposit

An amount is deposited by its owner, from whom the bridge takes it, or by the token, which has moved
it here already. Both ways pass the same tests and store the same; the owner's own way asks the
token in between whether the amount can be taken. So whatever the token replies, the two ways differ
by nothing but that question and the order to move the amount.
-/

namespace TokenBridge

variable {α β : Type} {g : Genesis} {log : List Entry} {env : Env} {s t : Store} {fault : Fault}
  {token owner : Address} {amount : Amount} {recipient : String} {order : DepositOrder}

/-- A text is found again in its bytes. -/
theorem fromUTF8?_utf8 (text : String) : String.fromUTF8? ⟨(utf8 text).toArray⟩ = some text := by
  rw [utf8, Array.toArray_toList, String.fromUTF8?, dif_pos text.isValidUTF8]
  rfl

/-- What a token says about an amount is understood. -/
theorem receive.readNotice_utf8 (notice : Notice) :
    readNotice (utf8 notice.toJson.render) = .ok notice := by
  rw [readNotice, fromUTF8?_utf8]
  exact Document.roundTrips_notice.read_render notice

theorem requireValid_eq_ok [AddressRules] {address : Address} (h : address.fault? = none) :
    requireValid address = .ok address := by
  simp [requireValid, Address.validate, h, Except.mapError]

/-- Whatever the token replies, an amount that cannot be taken is refused as a failed transfer. -/
theorem Env.exists_of_requireFunds_error (h : env.requireFunds token owner amount = .error fault) :
    ∃ why, fault = .rejected (.transferFailed why) := by
  rcases Except.bind_eq_error_iff.mp h with hbalance | ⟨balance, _, h⟩
  · obtain ⟨cause, _, rfl⟩ := Except.mapError_eq_error_iff.mp hbalance
    exact ⟨.unanswered cause, rfl⟩
  rcases Except.bind_eq_error_iff.mp h with hbelow | ⟨_, _, h⟩
  · obtain ⟨_, rfl⟩ := demand_eq_error_iff.mp hbelow
    exact ⟨.balanceBelow balance amount, rfl⟩
  rcases Except.bind_eq_error_iff.mp h with hallowance | ⟨allowance, _, h⟩
  · obtain ⟨cause, _, rfl⟩ := Except.mapError_eq_error_iff.mp hallowance
    exact ⟨.unanswered cause, rfl⟩
  · obtain ⟨_, rfl⟩ := demand_eq_error_iff.mp h
    exact ⟨.allowanceBelow (allowance.usable env.height env.now) amount, rfl⟩

namespace Call

/-- How a call ends that goes on from a store with the result of a test. -/
def proceed (s : Store) (result : Except Fault α) (next : α → Except Fault β × Store) :
    Except Fault β × Store :=
  match result with
  | .error fault => (.error fault, s)
  | .ok a => next a

@[simp] theorem proceed_ok (s : Store) (a : α) (next : α → Except Fault β × Store) :
    proceed s (.ok a) next = next a := rfl

@[simp] theorem proceed_error (s : Store) (fault : Fault) (next : α → Except Fault β × Store) :
    proceed s (.error fault) next = (.error fault, s) := rfl

theorem outcome_check_bind (test : Store → Except Fault α) (next : α → Call β) (s : Store) :
    (check test >>= next).outcome s = proceed s (test s) fun a => (next a).outcome s := by
  rw [outcome_bind, outcome_check]
  cases test s with
  | error fault => rfl
  | ok a => rfl

theorem outcome_lift_bind (result : Except Fault α) (next : α → Call β) (s : Store) :
    (lift result >>= next).outcome s = proceed s result fun a => (next a).outcome s :=
  outcome_check_bind (fun _ => result) next s

theorem proceed_bind {γ : Type} (s : Store) (first : Except Fault α) (next : α → Except Fault β)
    (rest : β → Except Fault γ × Store) :
    proceed s (first >>= next) rest = proceed s first fun a => proceed s (next a) rest := by
  cases first with
  | error fault => rfl
  | ok a => rfl

theorem transact_check_bind (test : Store → Except Fault α) (next : α → Call β) (s : Store) :
    (check test >>= next).transact s = proceed s (test s) fun a => (next a).transact s := by
  rw [transact, outcome_check_bind]
  cases test s with
  | error fault => rfl
  | ok a => rfl

theorem transact_lift_bind (result : Except Fault α) (next : α → Call β) (s : Store) :
    (lift result >>= next).transact s = proceed s result fun a => (next a).transact s :=
  transact_check_bind (fun _ => result) next s

theorem transact_of_ok {call : Call α} {a : α} (h : call.outcome s = (.ok a, t)) :
    call.transact s = (.ok a, t) := by
  rw [transact, h]

theorem transact_of_error {call : Call α} (h : call.outcome s = (.error fault, t)) :
    call.transact s = (.error fault, s) := by
  rw [transact, h]

end Call

namespace DepositOrder

/-- A deposit that the token reports is stored once it has passed the tests. -/
theorem outcome_receive [AddressRules] (env : Env) (token : Address) (amount : Amount)
    (recipient : String) (s : Store) (howner : owner.fault? = none) :
    ((Command.receive owner amount (utf8 (Notice.deposit recipient).toJson.render)).run env
      token).outcome s =
        Call.proceed s (s.requireActive .deposits) fun _ =>
          Call.proceed s (check env.now token amount recipient s) fun order =>
            (order.record owner []).outcome s := by
  simp only [Command.run, receive, requireValid_eq_ok howner, receive.readNotice_utf8,
    Except.mapError, Call.outcome_check_bind, Call.outcome_lift_bind, Call.proceed_ok]

/-- A deposit of the owner is stored once it has passed the same tests and can be taken. -/
theorem outcome_deposit [AddressRules] (env : Env) (owner : Address) (amount : Amount)
    (recipient : String) (s : Store) (htoken : token.fault? = none) :
    ((Command.deposit token amount recipient).run env owner).outcome s =
      Call.proceed s (s.requireActive .deposits) fun _ =>
        Call.proceed s (check env.now token amount recipient s) fun order =>
          Call.proceed s (env.requireFunds token owner amount) fun _ =>
            (order.record owner [⟨token, .take owner env.self amount⟩]).outcome s := by
  simp only [Command.run, deposit, requireValid_eq_ok htoken, Call.outcome_check_bind,
    Call.outcome_lift_bind, Call.proceed_ok]

/-- What is ordered from tokens is no part of what is stored. -/
theorem outcome_record_of_ok {calls : List TokenCall} {receipt : Receipt}
    (h : (order.record owner calls).outcome s = (.ok receipt, t)) :
    receipt.calls = calls ∧ ∀ others,
      (order.record owner others).outcome s = (.ok { receipt with calls := others }, t) := by
  obtain ⟨settings, nonce, locked, next, hsettings, hnonce, hlocked, hnext, rfl, rfl⟩ :=
    yields_record_iff.mp h
  refine ⟨rfl, ?_⟩
  intro others
  exact yields_record_iff.mpr
    ⟨settings, nonce, locked, next, hsettings, hnonce, hlocked, hnext, rfl, rfl⟩

end DepositOrder

/-- A deposit that its owner makes ends as the same deposit does if the token reports it, but for
the question whether the amount can be taken. -/
structure Env.DepositsAgree (env : Env) (s : Store) (token owner : Address) (amount : Amount)
    (received deposited : Except Fault Receipt × Store) : Prop where
  /-- What the token is refused is refused to the owner, for the same reason. -/
  rejected : ∀ why, received.1 = .error (.rejected why) → deposited = (.error (.rejected why), s)
  /-- What the token may report the owner may do if the amount can be taken: the same is stored and
  told, and the amount is ordered from the token. -/
  accepted : ∀ receipt, received.1 = .ok receipt → receipt.calls = [] ∧
    ((∃ why, env.requireFunds token owner amount = .error (.rejected (.transferFailed why)) ∧
        deposited = (.error (.rejected (.transferFailed why)), s)) ∨
      (env.requireFunds token owner amount = .ok () ∧
        deposited =
          (.ok { receipt with calls := [⟨token, .take owner env.self amount⟩] }, received.2)))
  /-- Where the token's way aborts, the owner's way comes no further. -/
  aborted : received.1 = .error .aborted →
    (∃ why, deposited = (.error (.rejected (.transferFailed why)), s)) ∨
      deposited = (.error .aborted, s)

namespace Env.DepositsAgree

/-- Where a test stops the token's way, the same test stops the owner's way. -/
theorem of_fault (fault : Fault) :
    env.DepositsAgree s token owner amount (.error fault, s) (.error fault, s) where
  rejected why h := by
    obtain rfl := Except.error.inj h
    rfl
  accepted receipt h := by cases h
  aborted h := by
    obtain rfl := Except.error.inj h
    exact Or.inr rfl

/-- Where the token's way aborts, the owner may have been refused before. -/
theorem of_abort {deposited : Except Fault Receipt × Store}
    (h : (∃ why, deposited = (.error (.rejected (.transferFailed why)), s)) ∨
      deposited = (.error .aborted, s)) :
    env.DepositsAgree s token owner amount (.error .aborted, s) deposited where
  rejected why h := by cases h
  accepted receipt h := by cases h
  aborted _ := h

/-- Where the token's way succeeds, the owner's way ends as the question about the amount does. -/
theorem of_receipt {receipt : Receipt} {deposited : Except Fault Receipt × Store}
    (hcalls : receipt.calls = [])
    (h : (∃ why, env.requireFunds token owner amount = .error (.rejected (.transferFailed why)) ∧
        deposited = (.error (.rejected (.transferFailed why)), s)) ∨
      (env.requireFunds token owner amount = .ok () ∧
        deposited = (.ok { receipt with calls := [⟨token, .take owner env.self amount⟩] }, t))) :
    env.DepositsAgree s token owner amount (.ok receipt, t) deposited where
  rejected why hrejected := by cases hrejected
  accepted receipt haccepted := by
    obtain rfl := Except.ok.inj haccepted
    exact ⟨hcalls, h⟩
  aborted haborted := by cases haborted

/-- Two ways agree that store the same deposit, one of them after the amount was asked for. -/
theorem of_record {received deposited : Call Receipt} (hcomplete : s.Complete)
    (hreceived : received.outcome s = (order.record owner []).outcome s)
    (hdeposited : deposited.outcome s =
      Call.proceed s (env.requireFunds token owner amount) fun _ =>
        (order.record owner [⟨token, .take owner env.self amount⟩]).outcome s) :
    env.DepositsAgree s token owner amount (received.transact s) (deposited.transact s) := by
  rcases hended : (order.record owner []).outcome s with ⟨result, m⟩
  rw [hended] at hreceived
  cases hfunds : env.requireFunds token owner amount with
  | error fault =>
    obtain ⟨why, rfl⟩ := Env.exists_of_requireFunds_error hfunds
    rw [hfunds, Call.proceed_error] at hdeposited
    rw [Call.transact_of_error hdeposited]
    cases result with
    | error fault =>
      obtain ⟨rfl, _⟩ := DepositOrder.aborted_of_faults_record hcomplete hended
      rw [Call.transact_of_error hreceived]
      exact .of_abort (Or.inl ⟨why, rfl⟩)
    | ok receipt =>
      obtain ⟨hcalls, _⟩ := DepositOrder.outcome_record_of_ok hended
      rw [Call.transact_of_ok hreceived]
      exact .of_receipt hcalls (Or.inl ⟨why, hfunds, rfl⟩)
  | ok _ =>
    rw [hfunds, Call.proceed_ok] at hdeposited
    cases result with
    | error fault =>
      obtain ⟨rfl, _⟩ := DepositOrder.aborted_of_faults_record hcomplete hended
      rw [Call.transact_of_error hreceived]
      rcases htaken : (order.record owner [⟨token, .take owner env.self amount⟩]).outcome s with
        ⟨result, m'⟩
      rw [htaken] at hdeposited
      cases result with
      | error fault =>
        obtain ⟨rfl, _⟩ := DepositOrder.aborted_of_faults_record hcomplete htaken
        rw [Call.transact_of_error hdeposited]
        exact .of_abort (Or.inr rfl)
      | ok receipt =>
        obtain ⟨_, hothers⟩ := DepositOrder.outcome_record_of_ok htaken
        rw [hothers []] at hended
        cases hended
    | ok receipt =>
      obtain ⟨hcalls, hothers⟩ := DepositOrder.outcome_record_of_ok hended
      rw [hothers] at hdeposited
      rw [Call.transact_of_ok hreceived, Call.transact_of_ok hdeposited]
      exact .of_receipt hcalls (Or.inr ⟨hfunds, rfl⟩)

end Env.DepositsAgree

/-- In every run the two ways to deposit agree, in every block and whatever the token replies. -/
theorem Run.deposits_agree [AddressRules] (h : Run g log s) (env : Env)
    (htoken : token.fault? = none) (howner : owner.fault? = none) (amount : Amount)
    (recipient : String) :
    env.DepositsAgree s token owner amount
      (((Command.receive owner amount (utf8 (Notice.deposit recipient).toJson.render)).run env
        token).transact s)
      (((Command.deposit token amount recipient).run env owner).transact s) := by
  have hreceive := DepositOrder.outcome_receive env token amount recipient s howner
  have hdeposit := DepositOrder.outcome_deposit env owner amount recipient s htoken
  cases hactive : s.requireActive .deposits with
  | error fault =>
    rw [hactive, Call.proceed_error] at hreceive hdeposit
    rw [Call.transact_of_error hreceive, Call.transact_of_error hdeposit]
    exact .of_fault fault
  | ok _ =>
    rw [hactive, Call.proceed_ok] at hreceive hdeposit
    cases hcheck : DepositOrder.check env.now token amount recipient s with
    | error fault =>
      rw [hcheck, Call.proceed_error] at hreceive hdeposit
      rw [Call.transact_of_error hreceive, Call.transact_of_error hdeposit]
      exact .of_fault fault
    | ok order =>
      rw [hcheck, Call.proceed_ok] at hreceive hdeposit
      exact .of_record h.complete hreceive hdeposit

namespace Sample

/-- An amount that alice deposits in either way. -/
def stake : Amount := ⟨27, by decide⟩

/-- The deposit as the token reports it. -/
def reported (env : Env) : Except Fault Receipt × Store :=
  ((Command.receive "alice" stake (utf8 (Notice.deposit Word256.zero.toHex).toJson.render)).run env
    "cash").transact played.2

/-- The deposit as alice makes it. -/
def owned (env : Env) : Except Fault Receipt × Store :=
  ((Command.deposit "cash" stake Word256.zero.toHex).run env "alice").transact played.2

end Sample

/-- Where alice has enough, she may deposit what the token may report; where she has too little,
only the token's report counts. -/
theorem Run.deposits_agree_sample :
    Run Sample.genesis Sample.played.1 Sample.played.2 ∧
      Sample.env.DepositsAgree Sample.played.2 "cash" "alice" Sample.stake
        (Sample.reported Sample.env) (Sample.owned Sample.env) ∧
      (Sample.reported Sample.env).1.isOk = true ∧ (Sample.owned Sample.env).1.isOk = true ∧
      Sample.spent.DepositsAgree Sample.played.2 "cash" "alice" Sample.stake
        (Sample.reported Sample.spent) (Sample.owned Sample.spent) ∧
      (Sample.reported Sample.spent).1.isOk = true ∧
      (Sample.owned Sample.spent).1.isOk = false := by
  have hvalid : Address.fault? "cash" = none ∧ Address.fault? "alice" = none := by decide +kernel
  have hagree : ∀ env : Env, env.DepositsAgree Sample.played.2 "cash" "alice" Sample.stake
      (Sample.reported env) (Sample.owned env) := by
    intro env
    exact deposits_agree Sample.run env hvalid.1 hvalid.2 Sample.stake Word256.zero.toHex
  have hended : (Sample.reported Sample.env).1.isOk = true ∧
      (Sample.owned Sample.env).1.isOk = true ∧ (Sample.reported Sample.spent).1.isOk = true ∧
      (Sample.owned Sample.spent).1.isOk = false := by decide +kernel
  exact ⟨Sample.run, hagree Sample.env, hended.1, hended.2.1, hagree Sample.spent, hended.2.2.1,
    hended.2.2.2⟩

end TokenBridge

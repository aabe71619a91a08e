import Mathlib.Tactic.SplitIfs
import TokenBridge.Proofs.BindingIndex
import TokenBridge.Proofs.ValidAddresses

/-!
# Listing page by page

Bindings and holders of a role are listed in pages, and a page is asked for by the last entry of the
one before. What comes after that entry is what the pages so far have left of the whole list, since
the list is sorted by the addresses that pages are asked for by. So the pages make up the list, each
entry once. No page is refused on the way, because only valid addresses are ever stored.

Texts are compared character by character, and what is stored under them lies in the order of their
bytes. In UTF-8 the two orders are one: a character with a lower code has lower bytes, and the
bytes of no character begin those of another.
-/

namespace TokenBridge

/-! ### The order of bytes -/

/-- A character with a lower code has lower bytes, whatever follows them. -/
theorem utf8EncodeChar_lt {c d : Char} (h : c < d) (rest rest' : Bytes) :
    String.utf8EncodeChar c ++ rest < String.utf8EncodeChar d ++ rest' := by
  have hlt : c.val.toNat < d.val.toNat := h
  have hvalid : d.val.toNat < 1114112 := by
    rcases d.valid with hlow | hhigh
    · exact Nat.lt_trans hlow (by decide)
    · exact hhigh.2
  -- All bytes but the first hold one digit each to the base of sixty-four.
  have hthird : ∀ v : Nat, v / 4096 = v / 64 / 64 := by
    intro v
    omega
  have hfourth : ∀ v : Nat, v / 262144 = v / 64 / 64 / 64 := by
    intro v
    omega
  simp only [String.utf8EncodeChar, hthird, hfourth]
  split_ifs
  all_goals
    simp only [List.cons_append, List.nil_append, List.cons_lt_cons_iff, UInt8.lt_iff_toNat_lt,
      ← UInt8.toNat_inj, UInt8.toNat_ofNat']
    omega

/-- No character is without bytes. -/
theorem nil_lt_utf8EncodeChar (c : Char) (rest : Bytes) :
    [] < String.utf8EncodeChar c ++ rest := by
  cases hbytes : String.utf8EncodeChar c with
  | nil => exact absurd hbytes String.utf8EncodeChar_ne_nil
  | cons byte bytes => exact List.nil_lt_cons byte (bytes ++ rest)

theorem utf8_eq_flatMap (text : String) :
    utf8 text = text.toList.flatMap String.utf8EncodeChar := by
  rw [utf8, ← String.utf8Encode_toList, List.utf8Encode, List.data_toByteArray, List.toList_toArray]

/-- What comes first by characters comes first by bytes. -/
theorem flatMap_utf8EncodeChar_lt {cs ds : List Char} (h : cs < ds) :
    cs.flatMap String.utf8EncodeChar < ds.flatMap String.utf8EncodeChar := by
  induction cs generalizing ds with
  | nil =>
    cases ds with
    | nil => exact absurd h (List.lt_irrefl [])
    | cons d ds => exact nil_lt_utf8EncodeChar d _
  | cons c cs ih =>
    cases ds with
    | nil => cases h
    | cons d ds =>
      rw [List.flatMap_cons, List.flatMap_cons]
      rcases List.cons_lt_cons_iff.mp h with hchar | ⟨rfl, hrest⟩
      · exact utf8EncodeChar_lt hchar _ _
      · exact List.append_left_lt (ih hrest)

theorem utf8_lt_of_lt {a b : String} (h : a < b) : utf8 a < utf8 b := by
  rw [utf8_eq_flatMap, utf8_eq_flatMap]
  exact flatMap_utf8EncodeChar_lt h

/-- Texts come in the order of their bytes. -/
theorem utf8_lt_iff {a b : String} : utf8 a < utf8 b ↔ a < b := by
  refine ⟨?_, utf8_lt_of_lt⟩
  intro hbytes
  apply Decidable.byContradiction
  intro hnot
  by_cases hback : b < a
  · exact List.lt_asymm hbytes (utf8_lt_of_lt hback)
  · rw [String.le_antisymm hback hnot] at hbytes
    exact List.lt_irrefl _ hbytes

/-! ### Pages -/

variable {α : Type}

/-- Pages are asked for one after the other, each by the last entry of the one before, until there
is an empty one. -/
inductive Paged (ask : Option Address → Except Fault Answer) (shown : List α → Answer)
    (key : α → Address) : Option Address → List (List α) → Prop
  | done {start} (h : ask start = .ok (shown [])) : Paged ask shown key start []
  | next {start page last rest} (h : ask start = .ok (shown page))
      (hlast : page.getLast? = some last) (hrest : Paged ask shown key (some (key last)) rest) :
      Paged ask shown key start (page :: rest)

/-- Asked for page by page, an enumeration comes to an end without a failure. It lists what it
should and nothing else, each entry once and in the order of the bytes of their keys. -/
structure ListsOnce (ask : Option Address → Except Fault Answer) (shown : List α → Answer)
    (key : α → Address) (size : Nat) (listed : α → Prop) : Prop where
  ends : ∃ pages, Paged ask shown key none pages
  bounded : ∀ pages, Paged ask shown key none pages → ∀ page ∈ pages, page.length ≤ size
  ascending : ∀ pages, Paged ask shown key none pages →
    pages.flatten.Pairwise fun a b => utf8 (key a) < utf8 (key b)
  mem_iff : ∀ pages, Paged ask shown key none pages → ∀ a, a ∈ pages.flatten ↔ listed a

/-- The entries of a list that come after a key. -/
def entriesAfter (key : α → Address) (all : List α) (start : Option Address) : List α :=
  all.filter fun a => start.all (· < key a)

/-- A place in a list is its beginning or the key of one of its entries. -/
def IsPlace (key : α → Address) (all : List α) (start : Option Address) : Prop :=
  ∀ k ∈ start, ∃ a ∈ all, key a = k

/-- Asked for what comes after one of its places, a sorted list shows the first part of that. -/
structure ShowsFirst (ask : Option Address → Except Fault Answer) (shown : List α → Answer)
    (key : α → Address) (size : Nat) (all : List α) : Prop where
  size_pos : 0 < size
  shown_inj : ∀ page page', shown page = shown page' → page = page'
  sorted : all.Pairwise fun a b => key a < key b
  ask_eq : ∀ start, IsPlace key all start →
    ask start = .ok (shown ((entriesAfter key all start).take size))

section Lists

variable {key : α → Address} {all l : List α} {last : α} {start : Option Address} {size : Nat}

/-- What comes after the last one taken from a sorted list is what is left of it. -/
theorem filter_eq_drop (hsorted : l.Pairwise fun a b => key a < key b)
    (hlast : (l.take size).getLast? = some last) :
    (l.filter fun a => key last < key a) = l.drop size := by
  obtain ⟨before, htaken⟩ := List.getLast?_eq_some_iff.mp hlast
  have hsplit := List.take_append_drop size l
  rw [← hsplit, List.pairwise_append] at hsorted
  obtain ⟨hfirst, _, hacross⟩ := hsorted
  rw [htaken, List.pairwise_append] at hfirst
  have hmem : last ∈ l.take size := by
    rw [htaken]
    exact List.mem_append_right before List.mem_cons_self
  have hnone : ((l.take size).filter fun a => key last < key a) = [] := by
    rw [List.filter_eq_nil_iff]
    intro a ha
    rw [htaken, List.mem_append, List.mem_singleton] at ha
    rw [decide_eq_true_eq]
    rcases ha with hbefore | rfl
    · exact String.lt_asymm (hfirst.2.2 a hbefore last List.mem_cons_self)
    · exact String.lt_irrefl (key a)
  have hrest : ((l.drop size).filter fun a => key last < key a) = l.drop size := by
    rw [List.filter_eq_self]
    intro a ha
    exact decide_eq_true (hacross last hmem a ha)
  calc (l.filter fun a => key last < key a)
      = ((l.take size ++ l.drop size).filter fun a => key last < key a) := by rw [hsplit]
    _ = l.drop size := by rw [List.filter_append, hnone, hrest, List.nil_append]

/-- The last entry of a page comes after the place that the page was asked for by. -/
theorem last_mem_entriesAfter
    (hlast : ((entriesAfter key all start).take size).getLast? = some last) :
    last ∈ entriesAfter key all start :=
  List.mem_of_mem_take (List.mem_of_getLast? hlast)

/-- What comes after an entry that comes after a key comes after that key. -/
theorem entriesAfter_of_mem (h : last ∈ entriesAfter key all start) :
    entriesAfter key all (some (key last)) =
      (entriesAfter key all start).filter fun a => key last < key a := by
  obtain ⟨_, hstart⟩ := List.mem_filter.mp h
  unfold entriesAfter
  rw [List.filter_filter]
  apply List.filter_congr
  intro a _
  rw [Bool.eq_iff_iff, Bool.and_eq_true, Option.all_some]
  refine ⟨fun hlater => ⟨hlater, ?_⟩, And.left⟩
  cases start with
  | none => rfl
  | some k =>
    exact decide_eq_true (String.lt_trans (of_decide_eq_true hstart) (of_decide_eq_true hlater))

/-- What comes after the last entry of a page is what the page left. -/
theorem entriesAfter_last (hsorted : all.Pairwise fun a b => key a < key b)
    (hlast : ((entriesAfter key all start).take size).getLast? = some last) :
    entriesAfter key all (some (key last)) = (entriesAfter key all start).drop size := by
  rw [entriesAfter_of_mem (last_mem_entriesAfter hlast)]
  exact filter_eq_drop (hsorted.filter _) hlast

end Lists

namespace ShowsFirst

variable {ask : Option Address → Except Fault Answer} {shown : List α → Answer}
  {key : α → Address} {size : Nat} {all : List α} {last : α} {start : Option Address}
  {pages : List (List α)} {listed : α → Prop}

/-- The last entry of a page is an entry of the list, so the next page can be asked for. -/
theorem isPlace_last (hlast : ((entriesAfter key all start).take size).getLast? = some last) :
    IsPlace key all (some (key last)) := by
  intro k hk
  obtain rfl := Option.some.inj hk
  exact ⟨last, List.mem_of_mem_filter (last_mem_entriesAfter hlast), rfl⟩

/-- From every place on, the pages come to an end, since each one leaves fewer entries. -/
theorem exists_paged (h : ShowsFirst ask shown key size all) (hstart : IsPlace key all start) :
    ∃ pages, Paged ask shown key start pages := by
  induction hleft : (entriesAfter key all start).length using Nat.strongRecOn generalizing start
  case ind left ih =>
    have hask := h.ask_eq start hstart
    have hpos := h.size_pos
    cases hlast : ((entriesAfter key all start).take size).getLast? with
    | none =>
      rw [List.getLast?_eq_none_iff.mp hlast] at hask
      exact ⟨[], .done hask⟩
    | some last =>
      have hsome := List.length_pos_of_mem (last_mem_entriesAfter hlast)
      have hless : (entriesAfter key all (some (key last))).length < left := by
        rw [entriesAfter_last h.sorted hlast, List.length_drop]
        omega
      obtain ⟨rest, hrest⟩ := ih _ hless (isPlace_last hlast) rfl
      exact ⟨_ :: rest, .next hask hlast hrest⟩

/-- Whatever the pages are, they make up what comes after the place they start from. -/
theorem flatten_eq (h : ShowsFirst ask shown key size all)
    (hpaged : Paged ask shown key start pages) (hstart : IsPlace key all start) :
    pages.flatten = entriesAfter key all start ∧ ∀ page ∈ pages, page.length ≤ size := by
  induction hpaged with
  | @done start hask =>
    have hshown := Except.ok.inj ((h.ask_eq start hstart).symm.trans hask)
    have hnone := h.shown_inj _ _ hshown
    have hpos := h.size_pos
    refine ⟨?_, nofun⟩
    rcases List.take_eq_nil_iff.mp hnone with hzero | hempty
    · omega
    · exact hempty.symm
  | @next start page last rest hask hlast _ ih =>
    have hshown := Except.ok.inj ((h.ask_eq start hstart).symm.trans hask)
    obtain rfl := h.shown_inj _ _ hshown
    obtain ⟨hflatten, hbounded⟩ := ih (isPlace_last hlast)
    rw [entriesAfter_last h.sorted hlast] at hflatten
    constructor
    · rw [List.flatten_cons, hflatten, List.take_append_drop]
    · exact List.forall_mem_cons.mpr ⟨List.length_take_le _ _, hbounded⟩

/-- The pages of a sorted list that shows first what comes first list all of it. -/
theorem listsOnce (h : ShowsFirst ask shown key size all) (hmem : ∀ a, a ∈ all ↔ listed a) :
    ListsOnce ask shown key size listed := by
  have hstart : IsPlace key all none := by
    intro k hk
    cases hk
  have hall : entriesAfter key all none = all := List.filter_eq_self.mpr fun _ _ => rfl
  constructor
  case ends => exact h.exists_paged hstart
  case bounded =>
    intro pages hpaged
    exact (h.flatten_eq hpaged hstart).2
  case ascending =>
    intro pages hpaged
    rw [(h.flatten_eq hpaged hstart).1, hall]
    exact h.sorted.imp utf8_lt_iff.mpr
  case mem_iff =>
    intro pages hpaged a
    rw [(h.flatten_eq hpaged hstart).1, hall]
    exact hmem a

end ShowsFirst

/-! ### The two enumerations -/

variable {g : Genesis} {log : List Entry} {s : Store} {limit : Option UInt32}

/-- How many entries a page of that limit shows at most. -/
def pageSize (limit : Option UInt32) : Nat := limit.elim 10 fun n => min n.toNat 50

theorem Page.size_eq (start : Option Address) (limit : Option UInt32) :
    Page.size ⟨start, limit⟩ = pageSize limit := by
  cases limit with
  | none => rfl
  | some n => rfl

theorem pageSize_pos (hlimit : limit ≠ some 0) : 0 < pageSize limit := by
  cases limit with
  | none => exact Nat.zero_lt_succ 9
  | some n =>
    have hpos : 0 < n.toNat := by
      apply Nat.pos_of_ne_zero
      intro hzero
      exact hlimit (congrArg some (UInt32.toNat_inj.mp hzero))
    exact Nat.lt_min.mpr ⟨hpos, by decide⟩

/-- A page may be asked for by a valid address. -/
theorem Page.after_eq_ok [AddressRules] {start : Option Address}
    (h : ∀ k ∈ start, Address.fault? k = none) :
    Page.after ⟨start, limit⟩ = .ok start := by
  cases start with
  | none => rfl
  | some k =>
    have hvalid : Address.validate k = .ok k := by
      simp [Address.validate, h k rfl]
    simp [Page.after, hvalid]

namespace Run

variable [AddressRules]

/-- A binding is listed under the name of its token. -/
theorem token_of_mem_toList (h : Run g log s) {entry : Address × Binding}
    (hmem : entry ∈ s.bindings.toList) : entry.2.token = entry.1 :=
  h.boundByName (Std.ExtTreeMap.mem_toList_iff_getElem?_eq_some.mp hmem)

theorem mem_bindings_iff (h : Run g log s) (b : Binding) :
    b ∈ s.bindings.toList.map Prod.snd ↔ s.bindings[b.token]? = some b := by
  rw [List.mem_map, ← Std.ExtTreeMap.mem_toList_iff_getElem?_eq_some]
  constructor
  · rintro ⟨entry, hmem, rfl⟩
    rw [h.token_of_mem_toList hmem]
    exact hmem
  · intro hmem
    exact ⟨_, hmem, rfl⟩

/-- Asked for bindings after a token, the bridge shows the first of all that come after it. -/
theorem showsFirst_bindings (h : Run g log s) (now : Timestamp) (hlimit : limit ≠ some 0) :
    ShowsFirst (fun start => (Question.bindings ⟨start, limit⟩).answer now s) .bindings
      Binding.token (pageSize limit) (s.bindings.toList.map Prod.snd) := by
  constructor
  case size_pos => exact pageSize_pos hlimit
  case shown_inj =>
    intro page page' hsame
    exact Answer.bindings.inj hsame
  case sorted =>
    rw [List.pairwise_map]
    refine Std.ExtTreeMap.ordered_keys_toList.imp_of_mem ?_
    intro a b ha hb hlt
    rw [h.token_of_mem_toList ha, h.token_of_mem_toList hb]
    exact compareOfLessAndEq_eq_lt.mp hlt
  case ask_eq =>
    intro start hstart
    have hvalid : ∀ k ∈ start, Address.fault? k = none := by
      intro k hk
      obtain ⟨b, hb, rfl⟩ := hstart k hk
      exact h.holdsValid.tokens b.token b ((h.mem_bindings_iff b).mp hb)
    have hshown : s.bindingsFrom start (pageSize limit) =
        (entriesAfter Binding.token (s.bindings.toList.map Prod.snd) start).take
          (pageSize limit) := by
      rw [Store.bindingsFrom, entriesAfter, List.filter_map, List.map_take]
      congr 2
      apply List.filter_congr
      intro entry hmem
      rw [Function.comp_apply, h.token_of_mem_toList hmem]
    rw [← hshown, ← Page.size_eq start, Question.answer, Page.after_eq_ok hvalid]
    rfl

/-- Asked for holders of a role after an account, the bridge shows the first of all that come after
it. -/
theorem showsFirst_members (h : Run g log s) (now : Timestamp) (role : Role)
    (hlimit : limit ≠ some 0) :
    ShowsFirst (fun start => (Question.members role ⟨start, limit⟩).answer now s) .members id
      (pageSize limit) (s.roster.holders role).toList := by
  constructor
  case size_pos => exact pageSize_pos hlimit
  case shown_inj =>
    intro page page' hsame
    exact Answer.members.inj hsame
  case sorted =>
    have hordered := Std.ExtTreeSet.ordered_toList (t := s.roster.holders role)
    exact hordered.imp compareOfLessAndEq_eq_lt.mp
  case ask_eq =>
    intro start hstart
    have hvalid : ∀ k ∈ start, Address.fault? k = none := by
      intro k hk
      obtain ⟨account, hmem, rfl⟩ := hstart k hk
      exact h.holdsValid.accounts role account
        (Std.ExtTreeSet.contains_iff_mem.mpr (Std.ExtTreeSet.mem_toList.mp hmem))
    rw [← Page.size_eq start, Question.answer, Page.after_eq_ok hvalid]
    rfl

/-- Whether an account holds a role is answered with yes exactly if it is listed. -/
theorem mem_holders_iff (h : Run g log s) (now : Timestamp) (role : Role) (account : Address) :
    account ∈ (s.roster.holders role).toList ↔
      (Question.holdsRole role account).answer now s = .ok (.holdsRole true) := by
  rw [Std.ExtTreeSet.mem_toList, ← Std.ExtTreeSet.contains_iff_mem]
  change s.holdsRole role account = true ↔ _
  constructor
  · intro hheld
    have hvalid := requireValid_eq_ok (h.holdsValid.accounts role account hheld)
    unfold Question.answer
    exact Except.bind_eq_ok_iff.mpr ⟨account, hvalid, Except.pure_eq_ok_iff.mpr (by rw [hheld])⟩
  · intro hanswer
    unfold Question.answer at hanswer
    obtain ⟨valid, hvalid, hanswer⟩ := Except.bind_eq_ok_iff.mp hanswer
    obtain rfl := eq_of_requireValid hvalid
    exact Answer.holdsRole.inj (Except.pure_eq_ok_iff.mp hanswer)

/-- In every run, and for every limit but zero, the bindings of all tokens are listed once in pages
of at most that many entries, fifty or, without a limit, ten. So are the accounts that hold a role.
-/
theorem listed_once (h : Run g log s) (now : Timestamp) (hlimit : limit ≠ some 0) :
    ListsOnce (fun start => (Question.bindings ⟨start, limit⟩).answer now s) .bindings
        Binding.token (pageSize limit) (fun b : Binding => s.bindings[b.token]? = some b) ∧
      (∀ (token : Address) (b : Binding), s.bindings[token]? = some b → b.token = token) ∧
      ∀ role, ListsOnce (fun start => (Question.members role ⟨start, limit⟩).answer now s) .members
        id (pageSize limit)
        (fun account : Address =>
          (Question.holdsRole role account).answer now s = .ok (.holdsRole true)) := by
  refine ⟨?_, h.boundBothWays.token_eq, ?_⟩
  · exact (h.showsFirst_bindings now hlimit).listsOnce h.mem_bindings_iff
  · intro role
    exact (h.showsFirst_members now role hlimit).listsOnce (h.mem_holders_iff now role)

end Run

/-- With one entry to a page, both of two bindings are listed, each on its own page, and so is the
one account that holds a role. -/
theorem Run.listed_once_sample :
    Run Sample.genesis Sample.rebound.1 Sample.rebound.2 ∧ (some 1 : Option UInt32) ≠ some 0 ∧
      (∃ pages, Paged
        (fun start => (Question.bindings ⟨start, some 1⟩).answer Sample.env.now Sample.rebound.2)
        .bindings Binding.token none pages ∧ (∀ page ∈ pages, page.length ≤ 1) ∧
        ⟨"cash", Sample.ones, 6, 9⟩ ∈ pages.flatten ∧
        ⟨"coin", Word256.zero, 6, 6⟩ ∈ pages.flatten) ∧
      ∃ pages, Paged (fun start =>
        (Question.members .committer ⟨start, some 1⟩).answer Sample.env.now Sample.rebound.2)
        .members id none pages ∧ "root" ∈ pages.flatten := by
  obtain ⟨hcash, hcoin, hrole⟩ :
      Sample.rebound.2.bindings["cash"]? = some ⟨"cash", Sample.ones, 6, 9⟩ ∧
        Sample.rebound.2.bindings["coin"]? = some ⟨"coin", Word256.zero, 6, 6⟩ ∧
        Sample.rebound.2.holdsRole .committer "root" = true := by
    decide +kernel
  have hlimit : (some 1 : Option UInt32) ≠ some 0 := by decide
  obtain ⟨hbindings, _, hmembers⟩ := listed_once Sample.run_rebound Sample.env.now hlimit
  obtain ⟨pages, hpages⟩ := hbindings.ends
  obtain ⟨pages', hpages'⟩ := (hmembers .committer).ends
  refine ⟨Sample.run_rebound, hlimit, ⟨pages, hpages, hbindings.bounded pages hpages, ?_, ?_⟩,
    pages', hpages', ?_⟩
  · exact (hbindings.mem_iff pages hpages _).mpr hcash
  · exact (hbindings.mem_iff pages hpages _).mpr hcoin
  · apply ((hmembers .committer).mem_iff pages' hpages' "root").mpr
    change Except.ok (Answer.holdsRole _) = _
    rw [hrole]

end TokenBridge

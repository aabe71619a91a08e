import Mathlib.Data.List.DropRight
import TokenBridge.Bridge
import TokenBridge.Proofs.Digits
import TokenBridge.Proofs.Movement

/-!
# The spellings of a word

A word is read from 64 hexadecimal digits of either case, with `0x`, `0X` or nothing in front, and
from no other text. All its spellings are alike up to what stands in front and the case of letters,
and the one in which it is written is the lower case of each of them. So it makes no difference to a
deposit how its recipient is spelled.
-/

namespace TokenBridge

namespace Hex

variable {cs : List Char} {bytes : Bytes}

/-- The characters are digits in pairs, one pair for each byte, the higher digit first. -/
inductive Spells : List Char → Bytes → Prop
  | nil : Spells [] []
  | pair {high low h l byte rest bytes} (hhigh : IsDigit high h) (hlow : IsDigit low l)
      (hbyte : byte.toNat = 16 * h + l) (hrest : Spells rest bytes) :
      Spells (high :: low :: rest) (byte :: bytes)

/-- Bytes are read from the texts that spell them. -/
theorem decode?_eq_some_iff : decode? cs = some bytes ↔ Spells cs bytes := by
  constructor
  · intro h
    induction cs using decode?.induct generalizing bytes with
    | case1 =>
      obtain rfl := Option.some.inj h
      exact .nil
    | case2 _ => cases h
    | case3 high low rest ih =>
      simp only [decode?, Option.bind_eq_bind, Option.bind_eq_some_iff, Option.some.injEq,
        value?_eq_some_iff] at h
      obtain ⟨h, hhigh, l, hlow, tail, htail, rfl⟩ := h
      have hh := lt_of_isDigit hhigh
      have hl := lt_of_isDigit hlow
      have hbyte : (UInt8.ofNat (16 * h + l)).toNat = 16 * h + l :=
        UInt8.toNat_ofNat_of_lt' (by change _ < 256; omega)
      exact .pair hhigh hlow hbyte (ih htail)
  · intro h
    induction h with
    | nil => rfl
    | pair hhigh hlow hbyte _ ih =>
      simp only [decode?, value?_eq_some_iff.mpr hhigh, value?_eq_some_iff.mpr hlow, ih, ← hbyte,
        UInt8.ofNat_toNat, Option.bind_eq_bind, Option.bind_some]

/-- The texts that spell bytes are those whose lower case is the writing of the bytes. -/
theorem spells_iff_toLower : Spells cs bytes ↔ cs.map Char.toLower = encode bytes := by
  constructor
  · intro h
    induction h with
    | nil => rfl
    | @pair high low h l byte rest bytes hhigh hlow hbyte _ ih =>
      have hh := lt_of_isDigit hhigh
      have hl := lt_of_isDigit hlow
      have hdiv : byte.toNat / 16 = h := by omega
      have hmod : byte.toNat % 16 = l := by omega
      rw [encode, List.flatMap_cons, hdiv, hmod, List.map_cons, List.map_cons, ih,
        (isDigit_iff_toLower hh).mp hhigh, (isDigit_iff_toLower hl).mp hlow]
      rfl
  · intro h
    induction bytes generalizing cs with
    | nil =>
      obtain rfl := List.map_eq_nil_iff.mp h
      exact .nil
    | cons byte bytes ih =>
      have hbound : byte.toNat < 256 := byte.toNat_lt
      obtain ⟨high, rest, rfl, hhigh, hrest⟩ := List.map_eq_cons_iff.mp h
      obtain ⟨low, rest, rfl, hlow, hrest⟩ := List.map_eq_cons_iff.mp hrest
      refine .pair ((isDigit_iff_toLower ?_).mpr hhigh) ((isDigit_iff_toLower ?_).mpr hlow) ?_
        (ih hrest)
      all_goals omega

theorem Spells.length_eq (h : Spells cs bytes) : cs.length = 2 * bytes.length := by
  rw [← length_encode bytes, ← spells_iff_toLower.mp h, List.length_map]

end Hex

namespace Word256

variable {w : Word256} {text other : String} {mark cs : List Char} {bytes : Bytes}

/-- What may stand in front of the digits of a word. -/
def marks : List (List Char) := [[], ['0', 'x'], ['0', 'X']]

/-- The text is made of a mark and of 64 digits, which spell the bytes of the word. -/
def SpelledBy (w : Word256) (text : String) : Prop :=
  ∃ mark ∈ marks, ∃ digits, text.toList = mark ++ digits ∧ digits.length = 64 ∧
    Hex.Spells digits w.bytes

/-- The texts are made of a mark and of 64 characters each, and these are the same up to the case of
letters. -/
def Alike (a b : String) : Prop :=
  ∃ mark ∈ marks, ∃ mark' ∈ marks, ∃ cs cs' : List Char,
    a.toList = mark ++ cs ∧ b.toList = mark' ++ cs' ∧ cs.length = 64 ∧
      cs.map Char.toLower = cs'.map Char.toLower

theorem exists_mark_append (cs : List Char) : ∃ mark ∈ marks, cs = mark ++ stripMark cs := by
  unfold stripMark
  split
  · exact ⟨['0', 'x'], by decide, rfl⟩
  · exact ⟨['0', 'X'], by decide, rfl⟩
  · exact ⟨[], by decide, rfl⟩

/-- In front of digits a mark is taken off, and nothing else is. -/
theorem stripMark_append (hmark : mark ∈ marks) (h : Hex.Spells cs bytes) :
    stripMark (mark ++ cs) = cs := by
  simp only [marks, List.mem_cons, List.not_mem_nil, or_false] at hmark
  obtain rfl | rfl | rfl := hmark
  · -- The digits themselves do not begin with a mark, since its letter is no digit.
    have hx : ∀ n, ¬Hex.IsDigit 'x' n ∧ ¬Hex.IsDigit 'X' n := by
      intro n
      rw [Hex.isDigit_iff, Hex.isDigit_iff]
      have hcodes : 'x'.toNat = 120 ∧ 'X'.toNat = 88 := by decide
      omega
    cases h with
    | nil => rfl
    | @pair high low _ l _ rest _ _ hlow _ _ =>
      obtain ⟨hsmall, hbig⟩ := hx l
      rw [List.nil_append]
      unfold stripMark
      split
      · next heq =>
        obtain ⟨_, rfl, _⟩ := heq
        exact absurd hlow hsmall
      · next heq =>
        obtain ⟨_, rfl, _⟩ := heq
        exact absurd hlow hbig
      · rfl
  · rfl
  · rfl

/-- A word is read from its spellings. -/
theorem ofHex?_eq_some_iff : ofHex? text = some w ↔ w.SpelledBy text := by
  constructor
  · intro h
    obtain ⟨bytes, hdecoded, hword⟩ := Option.bind_eq_some_iff.mp h
    obtain rfl := ofBytes?_eq_some_iff.mp hword
    have hspells := Hex.decode?_eq_some_iff.mp hdecoded
    obtain ⟨mark, hmark, htext⟩ := exists_mark_append text.toList
    refine ⟨mark, hmark, stripMark text.toList, htext, ?_, hspells⟩
    rw [hspells.length_eq, w.length_bytes]
  · rintro ⟨mark, hmark, digits, htext, _, hspells⟩
    rw [ofHex?, htext, stripMark_append hmark hspells, Hex.decode?_eq_some_iff.mpr hspells]
    exact ofBytes?_eq_some_iff.mpr rfl

/-- A word is written in the lower case of the last 64 characters of any spelling. -/
theorem SpelledBy.toHex_eq (h : w.SpelledBy text) :
    w.toHex = String.ofList ('0' :: 'x' :: (text.toList.rtake 64).map Char.toLower) := by
  obtain ⟨mark, _, digits, htext, hlength, hspells⟩ := h
  have hlast : text.toList.rtake 64 = digits := by
    rw [htext, List.rtake, List.length_append, hlength, Nat.add_sub_cancel, List.drop_left]
  rw [toHex, hlast, Hex.spells_iff_toLower.mp hspells]

/-- The other spellings of a word are the texts that are like one of them. -/
theorem SpelledBy.iff_alike (h : w.SpelledBy text) : w.SpelledBy other ↔ Alike text other := by
  obtain ⟨mark, hmark, digits, htext, hlength, hspells⟩ := h
  constructor
  · rintro ⟨mark', hmark', digits', hother, _, hspells'⟩
    refine ⟨mark, hmark, mark', hmark', digits, digits', htext, hother, hlength, ?_⟩
    rw [Hex.spells_iff_toLower.mp hspells, Hex.spells_iff_toLower.mp hspells']
  · rintro ⟨_, _, mark', hmark', cs, cs', htext', hother, hlength', hlower⟩
    obtain ⟨_, rfl⟩ := List.append_inj' (htext.symm.trans htext') (hlength.trans hlength'.symm)
    have hspells' : Hex.Spells cs' w.bytes := by
      rw [Hex.spells_iff_toLower, ← hlower]
      exact Hex.spells_iff_toLower.mp hspells
    refine ⟨mark', hmark', cs', hother, ?_, hspells'⟩
    rw [hspells'.length_eq, w.length_bytes]

/-- Words are read from their spellings and from nothing else, what is written is among them, and it
is the lower case of each of them. Two texts from which words are read give the same word exactly if
they are alike. -/
theorem read_from_spellings :
    (∀ text w, ofHex? text = some w ↔ w.SpelledBy text) ∧
      (∀ w : Word256, ofHex? w.toHex = some w) ∧
      (∀ text w, ofHex? text = some w →
        w.toHex = String.ofList ('0' :: 'x' :: (text.toList.rtake 64).map Char.toLower)) ∧
      ∀ text other w, ofHex? text = some w → (ofHex? other = some w ↔ Alike text other) := by
  refine ⟨fun text w => ofHex?_eq_some_iff, ofHex?_toHex, ?_, ?_⟩
  · intro text w h
    exact (ofHex?_eq_some_iff.mp h).toHex_eq
  · intro text other w h
    exact ofHex?_eq_some_iff.trans (ofHex?_eq_some_iff.mp h).iff_alike

end Word256

namespace Sample

/-- Two spellings of one account, with a letter in upper case in each. -/
def bareSpelling : String := String.ofList (List.replicate 16 ['0', 'a', 'F', '9']).flatten

def markedSpelling : String :=
  String.ofList ('0' :: 'X' :: (List.replicate 16 ['0', 'A', 'f', '9']).flatten)

/-- The account. -/
def spelled : Word256 := ⟨(List.replicate 16 [0x0a, 0xf9]).flatten, rfl⟩

theorem alike_spellings : Word256.Alike bareSpelling markedSpelling :=
  ⟨[], by decide, ['0', 'X'], by decide, _, _, String.toList_ofList, String.toList_ofList, rfl, rfl⟩

end Sample

/-- Both spellings are read as the account, and it is written in lower case. -/
theorem Word256.read_from_spellings_sample :
    ofHex? Sample.bareSpelling = some Sample.spelled ∧
      Alike Sample.bareSpelling Sample.markedSpelling ∧
      ofHex? Sample.markedSpelling = some Sample.spelled ∧
      Sample.spelled.toHex =
        String.ofList ('0' :: 'x' :: (List.replicate 16 ['0', 'a', 'f', '9']).flatten) := by
  obtain ⟨_, _, hwritten, hsame⟩ := read_from_spellings
  have htext : Sample.bareSpelling.toList = _ := String.toList_ofList
  have hread : ofHex? Sample.bareSpelling = some Sample.spelled := by
    rw [ofHex?, htext]
    rfl
  refine ⟨hread, Sample.alike_spellings, ?_, ?_⟩
  · exact (hsame _ _ _ hread).mpr Sample.alike_spellings
  · rw [hwritten _ _ hread, htext]
    rfl

/-! ### The recipient of a deposit -/

section Recipient

variable {recipient other : String} {account : Word256}

/-- What is announced of a recipient is its last 64 characters, in lower case behind a mark. -/
theorem DepositOrder.recipient_of_check {now : Timestamp} {token : Address} {amount : Amount}
    {s : Store} {order : DepositOrder} (h : check now token amount recipient s = .ok order)
    (sender : Address) (nonce homeChain : UInt64) :
    (order.message sender nonce homeChain).recipient =
      String.ofList ('0' :: 'x' :: (recipient.toList.rtake 64).map Char.toLower) := by
  obtain ⟨_, hrecipient, _⟩ := check_eq_ok_iff.mp h
  exact (Word256.ofHex?_eq_some_iff.mp hrecipient).toHex_eq

/-- It makes no difference to a deposit how its recipient is spelled. -/
theorem Command.run_deposit_of_alike [AddressRules] (h : Word256.ofHex? recipient = some account)
    (halike : Word256.Alike recipient other) (env : Env) (sender token : Address)
    (amount : Amount) :
    (Command.deposit token amount recipient).run env sender =
      (Command.deposit token amount other).run env sender := by
  have hspelled := Word256.ofHex?_eq_some_iff.mp h
  have hother := Word256.ofHex?_eq_some_iff.mpr (hspelled.iff_alike.mpr halike)
  have hcheck : ∀ token, DepositOrder.check env.now token amount recipient =
      DepositOrder.check env.now token amount other := by
    intro token
    funext s
    simp only [DepositOrder.check, h, hother]
  simp only [run, TokenBridge.deposit, hcheck]

end Recipient

end TokenBridge

import TokenBridge.Store.Basic

/-!
# Bindings

A binding ties a token on the first chain to its asset on the second, where it may be counted with
another number of decimals. Nothing is rounded: an amount with digits below the coarser precision is
refused, and so is one that does not fit the finer one.

A token has at most one binding and an asset at most one token. Quotas belong to the token and not
to its binding, so a new binding leaves them as they are.
-/

namespace TokenBridge

/-! ## Amounts in other decimals -/

/-- The widest gap between two precisions that any non-zero amount can bridge. -/
def maxDecimalGap : Nat := 38

/-- The distance between two precisions. -/
def decimalGap (source target : UInt8) : Nat :=
  (source.toNat - target.toNat) + (target.toNat - source.toNat)

namespace Amount

/-- Divides exactly by a power of ten. -/
def coarsen (a : Amount) (gap : Nat) : Option Amount :=
  if a.toNat % Nat.pow 10 gap = 0 then ofNat? (a.toNat / Nat.pow 10 gap) else none

/-- Multiplies by a power of ten. -/
def refine (a : Amount) (gap : Nat) : Option Amount :=
  ofNat? (a.toNat * Nat.pow 10 gap)

/-- An amount counted with `source` decimals, counted with `target` decimals. -/
def scale (a : Amount) (source target : UInt8) : Except AmountFault Amount :=
  let gap := decimalGap source target
  if source = target then .ok a
  else if maxDecimalGap < gap then .error (.gapTooWide gap)
  else if target < source then
    match a.coarsen gap with
    | some b => .ok b
    | none => .error (.tooPrecise a target)
  else
    match a.refine gap with
    | some b => .ok b
    | none => .error (.tooLarge a target)

end Amount

namespace Binding

/-- An amount of the token as an amount of the asset. -/
def toAsset (b : Binding) (amount : Amount) : Except AmountFault Amount :=
  amount.scale b.tokenDecimals b.assetDecimals

/-- An amount of the asset as an amount of the token. -/
def toToken (b : Binding) (amount : Amount) : Except AmountFault Amount :=
  amount.scale b.assetDecimals b.tokenDecimals

end Binding

/-! ## Bindings in the store -/

namespace Store

/-- The binding of a token; an unbound one is refused. -/
def resolve (token : Address) (s : Store) : Except Fault Binding :=
  match s.bindings[token]? with
  | some b => .ok b
  | none => .error (.rejected (.unbound token))

/-- The binding of an asset, if there is one. -/
def bindingOfAsset? (asset : Word256) (s : Store) : Option Binding := do
  let token ← s.assetTokens[asset]?
  s.bindings[token]?

/-- The binding of an asset; an unbound one is refused. -/
def resolveAsset (asset : Word256) (s : Store) : Except Fault Binding :=
  match s.bindingOfAsset? asset with
  | some b => .ok b
  | none => .error (.rejected (.unbound asset.toHex))

/-- Refuses an asset that stands for another token. -/
def requireFree (asset : Word256) (token : Address) (s : Store) : Except Fault Unit :=
  match s.assetTokens[asset]? with
  | none => .ok ()
  | some owner => demand (owner = token) (.assetTaken asset owner)

/-- At most `limit` bindings in ascending order of their tokens, those after `start` if one is
given. -/
def bindingsFrom (start : Option Address) (limit : Nat) (s : Store) : List Binding :=
  ((s.bindings.toList.filter fun (token, _) => start.all (· < token)).take limit).map Prod.snd

end Store

/-- Binds a token, giving up its earlier binding, which is the result. -/
def Call.bindAsset (b : Binding) : Call (Option Binding) := do
  check (·.requireFree b.asset b.token)
  let previous ← read (·.bindings[b.token]?)
  if let some old := previous then
    write fun s => { s with assetTokens := s.assetTokens.erase old.asset }
  write fun s => { s with assetTokens := s.assetTokens.insert b.asset b.token }
  write fun s => { s with bindings := s.bindings.insert b.token b }
  return previous

end TokenBridge

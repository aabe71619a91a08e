import TokenBridge.Error.Host
import TokenBridge.Settings

/-!
# Rejections

A rejection is the reason why a call is refused by a rule of the bridge or by its surroundings. All
wording stands in `message`. A call may also be aborted, without a reason: that is `Fault.aborted`,
and happens where a number would leave its range.
-/

namespace TokenBridge

/-- Why an amount cannot be moved. -/
inductive AmountFault where
  | zero
  | gapTooWide (gap : Nat)
  | tooPrecise (amount : Amount) (decimals : UInt8)
  | tooLarge (amount : Amount) (decimals : UInt8)
  deriving DecidableEq

/-- The wording of a fault. -/
def AmountFault.message : AmountFault → String
  | zero => "Amount must be greater than zero"
  | gapTooWide gap => s!"decimal gap {gap} too large"
  | tooPrecise amount decimals => s!"{amount.text} has precision below {decimals} decimals"
  | tooLarge amount decimals => s!"{amount.text} overflows when scaled to {decimals} decimals"

/-- Why the time of a commitment is refused; all times in seconds. -/
inductive CommitmentTimeFault where
  | ahead (time now : UInt64)
  | precedes (time : UInt64) (height : UInt64) (previous : UInt64)
  deriving DecidableEq

/-- The wording of a fault. -/
def CommitmentTimeFault.message : CommitmentTimeFault → String
  | ahead time now => s!"{time} is ahead of block time {now}"
  | precedes time height previous => s!"{time} precedes height {height} at {previous}"

/-- Why an account is refused. -/
inductive AccountFault where
  | noAdmins
  | notHex (recipient : String)
  | invalid (cause : HostError)
  deriving DecidableEq

/-- The wording of a fault. -/
def AccountFault.message : AccountFault → String
  | noAdmins => "At least one admin required"
  | notHex recipient => s!"{recipient} is not a 32-byte hex address"
  | invalid cause => cause.message

/-- Why a transfer of tokens cannot succeed. -/
inductive TransferFault where
  | unanswered (cause : HostError)
  | balanceBelow (balance amount : Amount)
  | allowanceBelow (allowance amount : Amount)
  | lockedBelow (locked amount : Amount)
  deriving DecidableEq

/-- The wording of a fault. -/
def TransferFault.message : TransferFault → String
  | unanswered cause => s!"token query failed: {cause.message}"
  | balanceBelow balance amount => s!"balance {balance.text} below {amount.text}"
  | allowanceBelow allowance amount => s!"allowance {allowance.text} below {amount.text}"
  | lockedBelow locked amount => s!"locked balance {locked.text} below {amount.text}"

/-- Why an upgrade is refused. -/
inductive UpgradeFault where
  | foreign (contract : String)
  | unreadable (version : String)
  | newer (stored current : String)
  deriving DecidableEq

/-- The wording of a fault. -/
def UpgradeFault.message : UpgradeFault → String
  | foreign contract => s!"cannot migrate from {contract}"
  | unreadable version => s!"invalid version {version}"
  | newer stored current => s!"stored version {stored} is newer than {current}"

/-- Why a call is refused. -/
inductive Rejection where
  | host (cause : HostError)
  | unauthorized (role : Role)
  | lastAdmin
  | paused (subsystem : Subsystem)
  | outOfOrder (expected got : UInt64)
  | badCommitmentTime (fault : CommitmentTimeFault)
  | notFinalized (height : UInt64)
  | notIncluded (height : UInt64)
  | delayTooLong (max : UInt64)
  | unbound (asset : String)
  | assetTaken (asset : Word256) (owner : Address)
  | overLimit (limit used requested : Amount)
  | badDuration (max : UInt64)
  | foreignChain (expected got : UInt64)
  | replayed (sourceChain nonce : UInt64)
  | transferFailed (fault : TransferFault)
  | badAmount (fault : AmountFault)
  | badAccount (fault : AccountFault)
  | badWord (size : Nat)
  | badUpgrade (fault : UpgradeFault)
  deriving DecidableEq

/-- The wording of a rejection. -/
def Rejection.message : Rejection → String
  | host cause => cause.message
  | unauthorized role => s!"Unauthorized: {role.tag} role required"
  | lastAdmin => "Cannot revoke the last admin"
  | paused subsystem => s!"{subsystem.tag} are paused"
  | outOfOrder expected got => s!"Out of order commitment: expected height {expected}, got {got}"
  | badCommitmentTime fault => s!"Invalid commitment timestamp: {fault.message}"
  | notFinalized height => s!"Height {height} not yet finalized"
  | notIncluded height => s!"Invalid inclusion proof at height {height}"
  | delayTooLong max => s!"Invalid finality delay: must be at most {max} seconds"
  | unbound asset => HostError.unboundText asset
  | assetTaken asset owner => s!"L2 asset {asset.toHex} already bound to {owner}"
  | overLimit limit used requested =>
    s!"Rate limit exceeded: limit {limit.text}, consumed {used.text}, requested {requested.text}"
  | badDuration max => s!"Invalid epoch duration: must be between 1 and {max} seconds"
  | foreignChain expected got => s!"Message from chain {got} rejected: expected chain {expected}"
  | replayed sourceChain nonce =>
    s!"Message already processed: source chain {sourceChain}, nonce {nonce}"
  | transferFailed fault => s!"Transfer failed: {fault.message}"
  | badAmount fault => s!"Invalid amount: {fault.message}"
  | badAccount fault => s!"Invalid address: {fault.message}"
  | badWord size => HostError.wordSizeText size
  | badUpgrade fault => s!"Invalid migration: {fault.message}"

/-- Why a call ends without a result. -/
inductive Fault where
  /-- A number would have left its range. -/
  | aborted
  /-- A rule refused the call. -/
  | rejected (why : Rejection)
  deriving DecidableEq

namespace Fault

/-- A fault of the surroundings. -/
def host (cause : HostError) : Fault := rejected (.host cause)

end Fault

end TokenBridge

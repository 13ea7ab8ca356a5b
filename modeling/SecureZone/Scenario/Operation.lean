import SecureZone.Interceptor.Operation
import SecureZone.Scenario.Image
import SecureZone.Scenario.Passthrough

/-!
# Operations on an interceptor in front of a memory

The operations of any interceptor, and the two scenarios, which look into the memory.
-/

namespace SecureZone.Scenario

inductive Op where
  | zone (op : Interceptor.Op)
  | image (base : Word) (words : Nat)
  | passthrough (address : Word)
  deriving DecidableEq, Repr

inductive Reply where
  | zone (reply : Interceptor.Reply)
  | image (report : Image.Report)
  | passthrough (report : Passthrough.Report)
  deriving DecidableEq, Repr

def step : Op → Action (Interceptor Ram) Interceptor.OpFailure Reply
  | .zone op => .zone <$> Interceptor.step op
  | .image base words => .image <$> (Image.run base words).mapError .bus
  | .passthrough address => .passthrough <$> (Passthrough.run address).mapError .bus

end SecureZone.Scenario

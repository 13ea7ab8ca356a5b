import SecureZone.Interceptor.Bus
import SecureZone.Region.Operation

/-!
# Operations on an interceptor

All that a core, a memory controller and the configuration side can do to an interceptor, and direct
access to the memory behind it.
-/

namespace SecureZone.Interceptor

inductive Op where
  | bus (op : Bus.Op)
  | issue (request : Request)
  | complete (data : Word)
  | abort
  | transact (request : Request)
  | region (op : Region.Op)
  | memory (op : Bus.Op)
  deriving DecidableEq, Repr

inductive Reply where
  | bus (reply : Bus.Reply)
  | forward (request : Request)
  | word (data : Word)
  | done
  | region (reply : Region.Reply)
  deriving DecidableEq, Repr

inductive OpFailure where
  | bus (fault : Fault)
  | access (failure : Failure)
  | region (failure : Region.Failure)
  deriving DecidableEq, Repr

variable {σ : Type} [Bus σ]

def step : Op → Action (Interceptor σ) OpFailure Reply
  | .bus op => .bus <$> (Bus.step op).mapError .bus
  | .issue request => .forward <$> (issue request).mapError .access
  | .complete data => .word <$> (complete data).mapError .access
  | .abort => (fun _ ↦ .done) <$> .perform abort
  | .transact request => .word <$> (transact request).mapError .access
  | .region op => .region <$> onRegion ((Region.step op).mapError .region)
  | .memory op => .bus <$> onMemory ((Bus.step op).mapError .bus)

end SecureZone.Interceptor

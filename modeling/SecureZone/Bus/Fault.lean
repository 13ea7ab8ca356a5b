/-!
# Bus faults

An access goes one of two ways and can fail for one of two causes. Misalignment concerns the
address alone; an access fault means that no device answers there, or that it is not ready.
-/

namespace SecureZone

inductive Direction where
  | load
  | store
  deriving DecidableEq, Repr

def Direction.text : Direction → String
  | load => "load"
  | store => "store"

inductive Fault.Cause where
  | misaligned
  | access
  deriving DecidableEq, Repr

structure Fault where
  direction : Direction
  cause : Fault.Cause
  deriving DecidableEq, Repr

def Fault.Cause.text : Fault.Cause → String
  | misaligned => "address misaligned"
  | access => "access fault"

def Fault.text (fault : Fault) : String := s!"{fault.direction.text} {fault.cause.text}"

end SecureZone

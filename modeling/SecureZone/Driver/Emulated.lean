import SecureZone.Driver.Basic
import SecureZone.Region.Csr

/-!
# The emulated register file

CSR instructions go to the configuration registers of a region, which check what is written. A
failure is reported and then told to the driver in its own terms. Waiting takes no time.
-/

namespace SecureZone

def Csr.Failure.toDriver : Csr.Failure → Driver.Failure
  | .notImplemented _ => .csrFault
  | .refused (.unalignedBase _) => .invalidAlignment
  | .refused (.badSize _) => .invalidSize

namespace Region

/-- Report a failure of the registers and hand it to the driver. -/
def forDriver {α : Type} (x : Action Region Csr.Failure α) : Action Region Driver.Failure α := do
  match ← x.attempt with
  | .ok a => pure a
  | .error failure =>
    .report (.csrFailed failure)
    .fail failure.toDriver

instance : CsrFile Region where
  read number := forDriver (readCsr number)
  write number value := forDriver (writeCsr number value)
  setBits number mask := forDriver (execCsr .readSet number mask)
  clearBits number mask := forDriver (execCsr .readClear number mask)
  settle cycles r := (r, [.settling cycles])

end Region

end SecureZone

import SecureZone.Driver.Emulated

/-!
# Operations on a region

All the ways in which a region is read or changed: its setters, CSR instructions and the driver.
-/

namespace SecureZone.Region

inductive Op where
  | setBase (base : Word)
  | setSize (size : Word)
  | setEnabled (enabled : Bool)
  | setKey (slot : KeySlot) (key : Word)
  | setKeys (keys : Keys)
  | reset
  | snapshot
  | readCsr (number : Word)
  | writeCsr (number value : Word)
  | execCsr (instruction : Csr.Instruction) (number operand : Word)
  | driver (op : Driver.Op)
  deriving DecidableEq, Repr

inductive Reply where
  | done
  | snapshot (region : Region)
  | word (value : Word)
  | driver (reply : Driver.Reply)
  deriving DecidableEq, Repr

inductive Failure where
  | refused (refusal : Refusal)
  | csr (failure : Csr.Failure)
  | driver (failure : Driver.Failure)
  deriving DecidableEq, Repr

def step : Op → Action Region Failure Reply
  | .setBase base => (fun _ ↦ .done) <$> (setBase base).mapError .refused
  | .setSize size => (fun _ ↦ .done) <$> (setSize size).mapError .refused
  | .setEnabled enabled => (fun _ ↦ .done) <$> .perform (setEnabled enabled)
  | .setKey slot key => (fun _ ↦ .done) <$> .perform (setKey slot key)
  | .setKeys keys => (fun _ ↦ .done) <$> .perform (setKeys keys)
  | .reset => (fun _ ↦ .done) <$> .perform reset
  | .snapshot => .snapshot <$> .get
  | .readCsr number => .word <$> (readCsr number).mapError .csr
  | .writeCsr number value => (fun _ ↦ .done) <$> (writeCsr number value).mapError .csr
  | .execCsr instruction number operand =>
    .word <$> (execCsr instruction number operand).mapError .csr
  | .driver op => .driver <$> (Driver.step op).mapError .driver

end SecureZone.Region

import SecureZone.Action

/-!
# The configuration registers

Each setter checks its value and leaves the region alone when it refuses it. A region may be changed
while it is enabled.
-/

namespace SecureZone.Region

def setBase (base : Word) : Action Region Refusal Unit
  | r =>
    if ValidBase base then ⟨.ok (), { r with base := base }, [.baseSet base]⟩
    else ⟨.error (.unalignedBase base), r, [.baseRefused base]⟩

def setSize (size : Word) : Action Region Refusal Unit
  | r =>
    if ValidSize size then ⟨.ok (), { r with size := size }, [.sizeSet size]⟩
    else ⟨.error (.badSize size), r, [.sizeRefused size]⟩

def setEnabled (enabled : Bool) : Update Region
  | r => ({ r with enabled := enabled }, [.enabledSet enabled])

def setKey (slot : KeySlot) (key : Word) : Update Region
  | r => ({ r with keys := r.keys.set slot key }, [.keySet slot])

def setKeys (keys : Keys) : Update Region
  | r => ({ r with keys := keys }, [.keysSet])

def reset : Update Region
  | _ => (initial, [.regionReset])

end SecureZone.Region

import Handheld.Bus

/-!
Runs of a single unit on its bus, the others standing still.
-/

namespace Handheld.Bus
variable {σ : Type} [ExternalMemory σ]

def runTimer (b : Bus σ) (cycles : Nat) : Bus σ := Nat.repeat stepTimer cycles b

def runSerial (b : Bus σ) (cycles : Nat) : Bus σ := Nat.repeat stepSerial cycles b

end Handheld.Bus

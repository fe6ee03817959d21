import InventoryGauges.Proofs.Simulation.Polling
import Mathlib.Data.Option.Basic

/-!
# The loop of the poller

Logins come first and then cycles, all until a cancellation.  Which logins and
cycles there are is told by when the cancellation comes.
-/

namespace InventoryGauges
namespace Simulation

section Loop

variable {retry debounce failures turns : Nat} {cancel? : Option Nat} {cycles : Cycles}
  {world : World}

end Loop

/-- Cycles that do nothing for some time. -/
def Cycles.idle (duration : Nat) : Cycles where
  run := fun _ world => world.setClock (world.elapsed + duration)
  forward := fun _ _ => Nat.le_max_left _ _

end Simulation
end InventoryGauges

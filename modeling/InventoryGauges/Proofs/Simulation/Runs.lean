import InventoryGauges.Simulation.Thread

/-!
# Runs of threads

What is said of the run of a thread from a state: which states it meets, in
which of them it pauses, and how it ends.
-/

namespace InventoryGauges
namespace Simulation
namespace Thread

variable {State Result Middle Final : Type} {setClock : Nat → State → State}
  {meets pauses : State → Prop} {ends : Result → State → Prop} {state : State}

/-- Whether the run of a thread from a state meets only such states, pauses only
in such ones and ends with such a result in such a state. -/
def Runs (setClock : Nat → State → State) (meets pauses : State → Prop)
    (ends : Result → State → Prop) : Thread State Result → State → Prop
  | .ended result, state => meets state ∧ ends result state
  | .act effect next, state =>
      meets state ∧ (next state).Runs setClock meets pauses ends (effect state)
  | .pause instant rest, state =>
      meets state ∧ pauses state ∧ rest.Runs setClock meets pauses ends (setClock instant state)

/-- Less may be said of a run. -/
theorem Runs.mono {thread : Thread State Result} {meetsMore pausesMore : State → Prop}
    {endsMore : Result → State → Prop} (runs : thread.Runs setClock meets pauses ends state)
    (met : ∀ state, meets state → meetsMore state)
    (paused : ∀ state, pauses state → pausesMore state)
    (ended : ∀ result state, ends result state → endsMore result state) :
    thread.Runs setClock meetsMore pausesMore endsMore state := by
  induction thread generalizing state with
  | ended result => exact ⟨met _ runs.1, ended _ _ runs.2⟩
  | act effect next hypothesis => exact ⟨met _ runs.1, hypothesis _ runs.2⟩
  | pause instant rest hypothesis =>
      exact ⟨met _ runs.1, paused _ runs.2.1, hypothesis runs.2.2⟩

/-- A thread goes on with what runs from where it ended. -/
theorem Runs.andThen {thread : Thread State Middle} {rest : Middle → Thread State Result}
    (runs : thread.Runs setClock meets pauses
      (fun middle state => (rest middle).Runs setClock meets pauses ends state) state) :
    (thread.andThen rest).Runs setClock meets pauses ends state := by
  induction thread generalizing state with
  | ended middle => exact runs.2
  | act effect next hypothesis => exact ⟨runs.1, hypothesis _ runs.2⟩
  | pause instant later hypothesis => exact ⟨runs.1, runs.2.1, hypothesis runs.2.2⟩

theorem andThen_assoc (thread : Thread State Middle) (rest : Middle → Thread State Result)
    (last : Result → Thread State Final) :
    (thread.andThen rest).andThen last = thread.andThen fun middle => (rest middle).andThen last := by
  induction thread with
  | ended middle => rfl
  | act effect next hypothesis => simp only [andThen, hypothesis]
  | pause instant later hypothesis => simp only [andThen, hypothesis]

end Thread
end Simulation
end InventoryGauges

/-!
# Programs over requests

A program computes a result and asks requests of its surroundings on the way.
What the surroundings are is left open: the same program runs against a store
in memory, against one that fails, or interleaved with other programs.
-/

namespace InventoryGauges

/-- A program with a result, whose requests each have a type of answers. -/
inductive Program (Request : Type) (Answer : Request → Type) (Result : Type)
  | done (result : Result)
  | ask (request : Request) (next : Answer request → Program Request Answer Result)

namespace Program

variable {Request : Type} {Answer : Request → Type} {Result Final : Type}

/-- Go on with another program. -/
def andThen :
    Program Request Answer Result → (Result → Program Request Answer Final) →
      Program Request Answer Final
  | .done result, rest => rest result
  | .ask request next, rest => .ask request fun answer => (next answer).andThen rest

instance : Monad (Program Request Answer) where
  pure := .done
  bind := andThen

/-- Ask one request. -/
def request (request : Request) : Program Request Answer (Answer request) :=
  .ask request .done

/-- Run against surroundings that answer from a state. -/
def run {State : Type} (answer : (request : Request) → State → Answer request × State) :
    Program Request Answer Result → State → Result × State
  | .done result, state => (result, state)
  | .ask request next, state =>
      (next (answer request state).1).run answer (answer request state).2

/-- Run in a monad that answers the requests. -/
def interpret {Effect : Type → Type} [Monad Effect]
    (answer : (request : Request) → Effect (Answer request)) :
    Program Request Answer Result → Effect Result
  | .done result => pure result
  | .ask request next => answer request >>= fun given => (next given).interpret answer

@[simp] theorem pure_eq (result : Result) :
    (pure result : Program Request Answer Result) = .done result := rfl

@[simp] theorem bind_done (result : Result)
    (rest : Result → Program Request Answer Final) :
    (Program.done result >>= rest) = rest result := rfl

@[simp] theorem bind_ask (request : Request)
    (next : Answer request → Program Request Answer Result)
    (rest : Result → Program Request Answer Final) :
    (Program.ask request next >>= rest) =
      .ask request fun answer => next answer >>= rest := rfl

theorem andThen_done (program : Program Request Answer Result) :
    program.andThen .done = program := by
  induction program with
  | done result => rfl
  | ask request next hypothesis => simp [andThen, hypothesis]

theorem andThen_assoc {Middle : Type} (program : Program Request Answer Result)
    (rest : Result → Program Request Answer Middle)
    (last : Middle → Program Request Answer Final) :
    (program.andThen rest).andThen last =
      program.andThen fun result => (rest result).andThen last := by
  induction program with
  | done result => rfl
  | ask request next hypothesis => simp [andThen, hypothesis]

/-- Programs one after another run one after another. -/
theorem run_andThen {State : Type}
    (answer : (request : Request) → State → Answer request × State)
    (program : Program Request Answer Result)
    (rest : Result → Program Request Answer Final) (state : State) :
    (program.andThen rest).run answer state =
      (rest (program.run answer state).1).run answer (program.run answer state).2 := by
  induction program generalizing state with
  | done result => rfl
  | ask request next hypothesis => simp [andThen, run, hypothesis]

end Program
end InventoryGauges

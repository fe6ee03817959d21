import InventoryGauges.Proofs.Execution.Event

/-!
# Programs that share a store

Programs call a store one call at a time, and their calls come in any order.  A
call may fail, and one that fails may have been carried out all the same.  What
each program keeps true of a key, as long as it finds it true, stays true.
-/

namespace InventoryGauges
namespace Store

variable {Result Final : Type}

/-- What a store may answer to a call, and what it then contains. -/
inductive Serves (contents : Contents) (call : Call) : call.Answer → Contents → Prop
  /-- The call succeeds. -/
  | succeeded : Serves contents call (.ok (perform call contents).1) (perform call contents).2
  /-- The call fails and changes nothing. -/
  | refused (error : Error) : Serves contents call (.error error) contents
  /-- The call is carried out, but its answer is lost. -/
  | unconfirmed (error : Error) : Serves contents call (.error error) (perform call contents).2

theorem Serves.eq_of_ok {contents left : Contents} {call : Call} {value : call.Value}
    (serves : Serves contents call (.ok value) left) :
    value = (perform call contents).1 ∧ left = (perform call contents).2 := by
  cases serves
  exact ⟨rfl, rfl⟩

/-- A call and its answer, and the place of the program that makes it. -/
structure Turn where
  /-- The place among the programs. -/
  index : Nat
  /-- The call. -/
  call : Call
  /-- The answer. -/
  answer : call.Answer

/-- A turn whose call fails. -/
def Turn.Fails (turn : Turn) : Prop :=
  ∃ error, turn.answer = .error error

/-- Programs under way at a store. -/
structure Sharing (Result : Type) where
  /-- The contents of the store. -/
  contents : Contents
  /-- What is left of each program. -/
  programs : List (Program Call Call.Answer Result)

namespace Sharing

/-- The programs may take some turns.  They may be left at any time. -/
inductive Runs : Sharing Result → List Turn → Sharing Result → Prop
  | stop (sharing : Sharing Result) : Runs sharing [] sharing
  | turn {sharing last : Sharing Result} {index : Nat} {call : Call} {answer : call.Answer}
      {next : call.Answer → Program Call Call.Answer Result} {contents : Contents}
      {turns : List Turn} (asks : sharing.programs[index]? = some (.ask call next))
      (serves : Serves sharing.contents call answer contents)
      (continues : Runs ⟨contents, sharing.programs.set index (next answer)⟩ turns last) :
      Runs sharing (⟨index, call, answer⟩ :: turns) last

/-- What each turn preserves, knowing the turns before it, holds at the end. -/
theorem Runs.preserves {sharing last : Sharing Result} {turns : List Turn}
    (runs : Runs sharing turns last) (holds : List Turn → Sharing Result → Prop)
    (start : holds [] sharing)
    (step : ∀ (earlier : List Turn) (before : Sharing Result) (index : Nat) (call : Call)
      (answer : call.Answer) (next : call.Answer → Program Call Call.Answer Result)
      (left : Contents), ⟨index, call, answer⟩ ∈ turns → holds earlier before →
        before.programs[index]? = some (.ask call next) →
        Serves before.contents call answer left →
        holds (earlier ++ [⟨index, call, answer⟩])
          ⟨left, before.programs.set index (next answer)⟩) :
    holds turns last := by
  suffices general : ∀ earlier, holds earlier sharing → holds (earlier ++ turns) last from
    general [] start
  clear start
  induction runs with
  | stop sharing =>
      intro earlier before
      rwa [List.append_nil]
  | turn asks serves _ hypothesis =>
      intro earlier before
      rw [List.append_cons]
      refine hypothesis (fun earlier before index call answer next left member => ?_) _
        (step earlier _ _ _ _ _ _ List.mem_cons_self before asks serves)
      exact step earlier before index call answer next left (List.mem_cons_of_mem _ member)

end Sharing

/-! ## Results seen from outside -/

theorem map_ask (respond : Result → Final) (call : Call)
    (next : call.Answer → Program Call Call.Answer Result) :
    (respond <$> (Program.ask call next : Program Call Call.Answer Result)) =
      .ask call fun answer => respond <$> next answer := rfl

theorem exists_of_map_eq_ask {respond : Result → Final} {call : Call}
    {program : Program Call Call.Answer Result}
    {next : call.Answer → Program Call Call.Answer Final}
    (shape : respond <$> program = .ask call next) :
    ∃ inner, program = .ask call inner ∧ next = fun answer => respond <$> inner answer := by
  cases program with
  | done result => cases shape
  | ask other inner =>
      cases shape
      exact ⟨inner, rfl, rfl⟩

theorem exists_of_map_eq_done {respond : Result → Final} {final : Final}
    {program : Program Call Call.Answer Result} (shape : respond <$> program = .done final) :
    ∃ result, program = .done result ∧ final = respond result := by
  cases program with
  | done result =>
      cases shape
      exact ⟨result, rfl, rfl⟩
  | ask call next => cases shape

/-- Programs take the same turns if more is made of their results. -/
theorem Sharing.Runs.exists_of_map {respond : Result → Final} {contents : Contents}
    {programs : List (Program Call Call.Answer Result)} {turns : List Turn} {last : Sharing Final}
    (runs : Runs ⟨contents, programs.map (respond <$> ·)⟩ turns last) :
    ∃ left, Runs ⟨contents, programs⟩ turns ⟨last.contents, left⟩ ∧
      last.programs = left.map (respond <$> ·) := by
  generalize shape : (⟨contents, programs.map (respond <$> ·)⟩ : Sharing Final) = sharing at runs
  induction runs generalizing contents programs with
  | stop sharing =>
      subst shape
      exact ⟨programs, .stop _, rfl⟩
  | turn asks serves _ hypothesis =>
      subst shape
      dsimp only at asks
      rw [List.getElem?_map] at asks
      obtain ⟨program, found, mapped⟩ := Option.map_eq_some_iff.mp asks
      obtain ⟨inner, rfl, rfl⟩ := exists_of_map_eq_ask mapped
      obtain ⟨left, continues, same⟩ := hypothesis (congrArg _ List.map_set)
      exact ⟨left, .turn found serves continues, same⟩

theorem Sharing.Runs.map {sharing last : Sharing Result} {turns : List Turn}
    (runs : Runs sharing turns last) (respond : Result → Final) :
    Runs ⟨sharing.contents, sharing.programs.map (respond <$> ·)⟩ turns
      ⟨last.contents, last.programs.map (respond <$> ·)⟩ := by
  induction runs with
  | stop sharing => exact .stop _
  | @turn sharing last index call answer next contents turns asks serves _ hypothesis =>
      have mapped : (sharing.programs.map (respond <$> ·))[index]? =
          some (.ask call fun answer => respond <$> next answer) := by
        rw [List.getElem?_map, asks, Option.map_some, map_ask]
      rw [List.map_set] at hypothesis
      exact .turn mapped serves hypothesis

/-! ## What stays true of a key -/

/-- A program that only gives a key values that are good, as long as it finds
good ones. -/
def Keeps (key : String) (good : Option String → Prop) :
    Program Call Call.Answer Result → Prop
  | .done _ => True
  | .ask call next =>
      (∀ value?, call.written? key = some value? → good value?) ∧
        ∀ contents answer left, good (contents.get? key) → Serves contents call answer left →
          Keeps key good (next answer)

theorem good_of_serves {key : String} {good : Option String → Prop} {call : Call}
    {answer : call.Answer} {contents left : Contents} (before : good (contents.get? key))
    (writes : ∀ value?, call.written? key = some value? → good value?)
    (serves : Serves contents call answer left) : good (left.get? key) := by
  have performed : good ((perform call contents).2.get? key) := by
    rw [get?_perform]
    cases written : call.written? key with
    | none => exact before
    | some value? => exact writes value? written
  cases serves with
  | succeeded => exact performed
  | refused error => exact before
  | unconfirmed error => exact performed

/-- What all programs keep true of a key stays true, in whatever order they
take their turns and whatever calls fail. -/
theorem Sharing.Runs.good {key : String} {good : Option String → Prop}
    {sharing last : Sharing Result} {turns : List Turn} (runs : Runs sharing turns last)
    (before : good (sharing.contents.get? key))
    (keeps : ∀ program ∈ sharing.programs, Keeps key good program) :
    good (last.contents.get? key) := by
  refine (runs.preserves (fun _ sharing => good (sharing.contents.get? key) ∧
    ∀ program ∈ sharing.programs, Keeps key good program) ⟨before, keeps⟩ ?_).1
  rintro earlier sharing index call answer next left - ⟨before, keeps⟩ asks serves
  obtain ⟨writes, goesOn⟩ := keeps _ (List.mem_of_getElem? asks)
  refine ⟨good_of_serves before writes serves, fun program member => ?_⟩
  rcases List.mem_or_eq_of_mem_set member with kept | rfl
  · exact keeps program kept
  · exact goesOn _ _ _ before serves

end Store
end InventoryGauges

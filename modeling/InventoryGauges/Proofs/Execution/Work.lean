import InventoryGauges.Proofs.Execution.Event

/-!
# Runs of programs

A program finishes with a result after some events when each of its requests
is answered by the next of them.  A piece of work may also be cut off anywhere,
or break down at a query that is never answered.
-/

namespace InventoryGauges
namespace Program

variable {Request : Type} {Answer : Request → Type} {Result Final Event : Type}
  {answered : (request : Request) → Answer request → List Event → Prop}

/-- A program may finish with these events and this result. -/
inductive Finishes (answered : (request : Request) → Answer request → List Event → Prop) :
    Program Request Answer Result → List Event → Result → Prop
  | done (result : Result) : Finishes answered (.done result) [] result
  | ask {request : Request} {next : Answer request → Program Request Answer Result}
      {answer : Answer request} {events rest : List Event} {result : Result}
      (answers : answered request answer events)
      (continues : Finishes answered (next answer) rest result) :
      Finishes answered (.ask request next) (events ++ rest) result

/-- Where more answers are possible, more runs are. -/
theorem Finishes.mono {other : (request : Request) → Answer request → List Event → Prop}
    {program : Program Request Answer Result} {events : List Event} {result : Result}
    (finishes : Finishes answered program events result)
    (implies : ∀ request answer events, answered request answer events →
      other request answer events) :
    Finishes other program events result := by
  induction finishes with
  | done result => exact .done result
  | ask answers continues hypothesis => exact .ask (implies _ _ _ answers) hypothesis

@[simp] theorem finishes_done_iff {result final : Result} {events : List Event} :
    Finishes answered (.done result) events final ↔ events = [] ∧ final = result := by
  constructor
  · intro finishes
    cases finishes
    exact ⟨rfl, rfl⟩
  · rintro ⟨rfl, rfl⟩
    exact .done _

@[simp] theorem finishes_pure_iff {result final : Result} {events : List Event} :
    Finishes answered (pure result : Program Request Answer Result) events final ↔
      events = [] ∧ final = result :=
  finishes_done_iff

theorem finishes_ask_iff {request : Request}
    {next : Answer request → Program Request Answer Result} {events : List Event}
    {result : Result} :
    Finishes answered (.ask request next) events result ↔
      ∃ answer first rest, answered request answer first ∧
        Finishes answered (next answer) rest result ∧ events = first ++ rest := by
  constructor
  · intro finishes
    cases finishes with
    | ask answers continues => exact ⟨_, _, _, answers, continues, rfl⟩
  · rintro ⟨answer, first, rest, answers, continues, rfl⟩
    exact .ask answers continues

@[simp] theorem finishes_request_iff {request : Request} {events : List Event}
    {answer : Answer request} :
    Finishes answered (Program.request request) events answer ↔
      answered request answer events := by
  rw [Program.request, finishes_ask_iff]
  simp only [finishes_done_iff]
  constructor
  · rintro ⟨_, first, _, answers, ⟨rfl, rfl⟩, rfl⟩
    simpa using answers
  · intro answers
    exact ⟨answer, events, [], answers, ⟨rfl, rfl⟩, (List.append_nil _).symm⟩

/-- Programs one after another finish one after another. -/
theorem finishes_bind_iff {program : Program Request Answer Result}
    {rest : Result → Program Request Answer Final} {events : List Event} {final : Final} :
    Finishes answered (program >>= rest) events final ↔
      ∃ first result last, Finishes answered program first result ∧
        Finishes answered (rest result) last final ∧ events = first ++ last := by
  induction program generalizing events with
  | done result =>
      rw [bind_done]
      constructor
      · intro finishes
        exact ⟨[], result, events, .done result, finishes, rfl⟩
      · rintro ⟨first, other, last, finishes, goesOn, rfl⟩
        obtain ⟨rfl, rfl⟩ := finishes_done_iff.mp finishes
        exact goesOn
  | ask request next hypothesis =>
      rw [bind_ask, finishes_ask_iff]
      constructor
      · rintro ⟨answer, asked, others, answers, continues, rfl⟩
        obtain ⟨first, result, last, finishes, goesOn, rfl⟩ := (hypothesis answer).mp continues
        exact ⟨asked ++ first, result, last, .ask answers finishes, goesOn,
          (List.append_assoc _ _ _).symm⟩
      · rintro ⟨_, result, last, finishes, goesOn, rfl⟩
        obtain ⟨answer, asked, others, answers, continues, rfl⟩ := finishes_ask_iff.mp finishes
        exact ⟨answer, asked, others ++ last, answers,
          (hypothesis answer).mpr ⟨others, result, last, continues, goesOn, rfl⟩,
          List.append_assoc _ _ _⟩

end Program

namespace Store

/-- The gauge identities in the value of a key; none if it is malformed. -/
def idsIn? : Option String → Option Text.Set
  | some text => ofIdsText? text
  | none => some Text.Set.empty

/-- The definitions in the value of a key; none if it is malformed. -/
def metricsIn? : Option String → Option (List Metric)
  | some text => Metric.ofListText? text
  | none => some []

/-- What is read from the answer of a call. -/
def reading {Value Result : Type} (key : String) (decode? : Value → Option Result) :
    Except Error Value → Except Error Result
  | .ok value =>
      match decode? value with
      | some result => .ok result
      | none => .error (.corrupt key "malformed value")
  | .error error => .error error

theorem reading_eq_ok_iff {Value Result : Type} {key : String} {decode? : Value → Option Result}
    {answer : Except Error Value} {result : Result} :
    reading key decode? answer = .ok result ↔
      ∃ value, answer = .ok value ∧ decode? value = some result := by
  cases answer with
  | error error => simp [reading]
  | ok value =>
      rw [reading]
      cases decoded : decode? value <;> simp [decoded]

theorem toOption_reading_ok {Value Result : Type} (key : String)
    (decode? : Value → Option Result) (value : Value) :
    (reading key decode? (.ok value)).toOption = decode? value := by
  rw [reading]
  cases decode? value <;> rfl

end Store

namespace Work

/-- Whether events answer a request.  Calls to the gateway that form one
request may end in any order. -/
def Answered : (request : Work.Request) → request.Answer → List Event → Prop
  | .store call, answer, events => events = [.store call answer]
  | .query className filter, answer, events => events = [.query className filter answer]
  | .gateway _ calls, ended, events =>
      (ended.map Prod.fst).Perm calls ∧ events = ended.map Event.ofEnded
  | .wipe, answer, events => events = [.wipe answer]
  | .clock, time, events => events = [.clock time]
  | .count counter amount, _, events => events = [.count counter amount]

variable {Result : Type}

/-- A piece of work may begin with these events, and be cut off then. -/
def Begins (work : Work Result) (events : List Event) : Prop :=
  ∃ rest result, Program.Finishes Answered work (events ++ rest) result

/-- A piece of work may come to a query that is never answered. -/
def Stalls (work : Work Result) (events : List Event) : Prop :=
  ∃ before className filter answer rest result,
    Program.Finishes Answered work
        (before ++ .query className filter answer :: rest) result ∧
      events = before ++ [.unanswered className filter]

theorem ofCalls_bind {Final : Type} (program : Program Store.Call Store.Call.Answer Result)
    (rest : Result → Program Store.Call Store.Call.Answer Final) :
    ofCalls (program >>= rest) = ofCalls program >>= fun result => ofCalls (rest result) := by
  induction program with
  | done result => rfl
  | ask call next hypothesis =>
      rw [Program.bind_ask, ofCalls, ofCalls, Program.bind_ask]
      congr 1
      funext answer
      exact hypothesis answer

/-- Calls that stop at the first failure go on only after a success. -/
theorem finishes_ofCalls_bind_iff {Failure Final : Type}
    {first : ExceptT Failure (Program Store.Call Store.Call.Answer) Result}
    {rest : Result → ExceptT Failure (Program Store.Call Store.Call.Answer) Final}
    {events : List Event} {result : Except Failure Final} :
    Program.Finishes Answered (ofCalls (first >>= rest).run) events result ↔
      ∃ early outcome, ∃ late : List Event,
        Program.Finishes Answered (ofCalls first.run) early outcome ∧
          (match outcome with
            | .error failure => late = [] ∧ result = .error failure
            | .ok value => Program.Finishes Answered (ofCalls (rest value).run) late result) ∧
          events = early ++ late := by
  have sequenced : (first >>= rest).run = first.run >>= ExceptT.bindCont rest := rfl
  have continues (outcome : Except Failure Result) (late : List Event) :
      Program.Finishes Answered (ofCalls (ExceptT.bindCont rest outcome)) late result ↔
        match outcome with
        | .error failure => late = [] ∧ result = .error failure
        | .ok value => Program.Finishes Answered (ofCalls (rest value).run) late result := by
    cases outcome with
    | error failure => exact Program.finishes_done_iff
    | ok value => exact Iff.rfl
  rw [sequenced, ofCalls_bind, Program.finishes_bind_iff]
  simp only [continues]

/-! ## Access to the store -/

section Access

variable {Final : Type} {name : String} {events : List Event}

theorem finishes_access_pure_iff {value : Result} {result : Except Store.Error Result} :
    Program.Finishes Answered (access (pure value)) events result ↔
      events = [] ∧ result = .ok value :=
  Program.finishes_done_iff

theorem finishes_access_call_iff {call : Store.Call} {answer : call.Answer} :
    Program.Finishes Answered (access (Store.call call)) events answer ↔
      events = [.store call answer] := by
  have lifted : access (Store.call call) =
      (Program.request (Request.store call) : Work call.Answer) := rfl
  rw [lifted]
  exact Program.finishes_request_iff

/-- Access that goes on after a call only does so when the call succeeds. -/
theorem finishes_access_bind_iff {call : Store.Call} {rest : call.Value → Store.Access Final}
    {result : Except Store.Error Final} :
    Program.Finishes Answered (access (Store.call call >>= rest)) events result ↔
      (∃ error, events = [.store call (.error error)] ∧ result = .error error) ∨
        ∃ value others, Program.Finishes Answered (access (rest value)) others result ∧
          events = .store call (.ok value) :: others := by
  rw [access, finishes_ofCalls_bind_iff]
  constructor
  · rintro ⟨_, answer, last, asks, continues, rfl⟩
    obtain rfl := finishes_access_call_iff.mp asks
    cases answer with
    | error error =>
        obtain ⟨rfl, rfl⟩ := continues
        exact Or.inl ⟨error, rfl, rfl⟩
    | ok value => exact Or.inr ⟨value, last, continues, rfl⟩
  · rintro (⟨error, rfl, rfl⟩ | ⟨value, others, continues, rfl⟩)
    · exact ⟨_, .error error, [], finishes_access_call_iff.mpr rfl, ⟨rfl, rfl⟩, rfl⟩
    · exact ⟨_, .ok value, others, finishes_access_call_iff.mpr rfl, continues, rfl⟩

theorem finishes_markProcessed_iff {time : Timestamp} {answer : Except Store.Error Unit} :
    Program.Finishes Answered (access (Store.markProcessed name time)) events answer ↔
      events = [.store (.set (Store.markerKey name) time.decimal) answer] :=
  finishes_access_call_iff

theorem finishes_saveRelatedIds_iff {ids : Text.Set} {answer : Except Store.Error Unit} :
    Program.Finishes Answered (access (Store.saveRelatedIds name ids)) events answer ↔
      events = [.store (.set (Store.relatedKey name) (Store.idsText ids)) answer] :=
  finishes_access_call_iff

theorem finishes_deleteBookkeeping_iff {answer : Except Store.Error Unit} :
    Program.Finishes Answered (access (Store.deleteBookkeeping name)) events answer ↔
      events = [.store (.delete [Store.markerKey name, Store.relatedKey name]) answer] :=
  finishes_access_call_iff

/-- Access that decodes what one call gives. -/
theorem finishes_access_decode_iff {call : Store.Call} {key : String}
    {decode? : call.Value → Option Result} {rest : call.Value → Store.Access Result}
    {result : Except Store.Error Result}
    (decodes : ∀ value, rest value = Store.decode key (decode? value)) :
    Program.Finishes Answered (access (Store.call call >>= rest)) events result ↔
      ∃ answer, events = [.store call answer] ∧ result = Store.reading key decode? answer := by
  have decoded (value : call.Value) (others : List Event) :
      Program.Finishes Answered (access (rest value)) others result ↔
        others = [] ∧ result = Store.reading key decode? (.ok value) := by
    rw [decodes, Store.reading]
    cases decode? value <;> exact Program.finishes_done_iff
  rw [finishes_access_bind_iff]
  constructor
  · rintro (⟨error, rfl, rfl⟩ | ⟨value, others, continues, rfl⟩)
    · exact ⟨.error error, rfl, rfl⟩
    · obtain ⟨rfl, rfl⟩ := (decoded value others).mp continues
      exact ⟨.ok value, rfl, rfl⟩
  · rintro ⟨answer, rfl, rfl⟩
    cases answer with
    | error error => exact Or.inl ⟨error, rfl, rfl⟩
    | ok value => exact Or.inr ⟨value, [], (decoded value []).mpr ⟨rfl, rfl⟩, rfl⟩

theorem finishes_relatedIds_iff {result : Except Store.Error Text.Set} :
    Program.Finishes Answered (access (Store.relatedIds name)) events result ↔
      ∃ answer, events = [.store (.get (Store.relatedKey name)) answer] ∧
        result = Store.reading (Store.relatedKey name) Store.idsIn? answer :=
  finishes_access_decode_iff fun value => by cases value <;> rfl

theorem finishes_listMetrics_iff {result : Except Store.Error (List Metric)} :
    Program.Finishes Answered (access Store.listMetrics) events result ↔
      ∃ answer, events = [.store (.get Store.metricsKey) answer] ∧
        result = Store.reading Store.metricsKey Store.metricsIn? answer :=
  finishes_access_decode_iff fun value => by cases value <;> rfl

/-- Access that only turns what one call gives into a result. -/
theorem finishes_access_read_iff {call : Store.Call} {read : call.Value → Result}
    {result : Except Store.Error Result} :
    Program.Finishes Answered (access (Store.call call >>= fun value => pure (read value)))
        events result ↔
      ∃ answer, events = [.store call answer] ∧ result = Except.map read answer := by
  rw [finishes_access_bind_iff]
  simp only [finishes_access_pure_iff]
  constructor
  · rintro (⟨error, rfl, rfl⟩ | ⟨value, _, ⟨rfl, rfl⟩, rfl⟩)
    · exact ⟨.error error, rfl, rfl⟩
    · exact ⟨.ok value, rfl, rfl⟩
  · rintro ⟨answer, rfl, rfl⟩
    cases answer with
    | error error => exact Or.inl ⟨error, rfl, rfl⟩
    | ok value => exact Or.inr ⟨value, [], ⟨rfl, rfl⟩, rfl⟩

theorem finishes_lastProcessedTimes_iff {names : List String}
    {result : Except Store.Error (Text.Map Timestamp)} :
    Program.Finishes Answered (access (Store.lastProcessedTimes names)) events result ↔
      ∃ answer : Except Store.Error (List (Option String)),
        events = [.store (.getMany (names.map Store.markerKey)) answer] ∧
          result = answer.map fun texts => Text.Map.ofList (Store.pairTimes names texts) :=
  finishes_access_read_iff

theorem finishes_processedNames_iff {result : Except Store.Error Text.Set} :
    Program.Finishes Answered (access Store.processedNames) events result ↔
      ∃ answer : Except Store.Error (List String),
        events = [.store (.scan Store.markerStart) answer] ∧
          result = answer.map fun keys => Text.Set.ofList (keys.filterMap Store.markerName?) :=
  finishes_access_read_iff

end Access

end Work
end InventoryGauges

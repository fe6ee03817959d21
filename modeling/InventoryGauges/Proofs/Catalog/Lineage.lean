import InventoryGauges.Proofs.Catalog.Request
import InventoryGauges.Proofs.Store.Lineage

/-!
# Whose changes are stored

Requests overlap at a store that never fails.  The stored list is what the
requests of its lineage made of the first list, one after another.  So a change
is in force, once it is made, exactly as long as it is not overwritten.
-/

namespace InventoryGauges
namespace Catalog

namespace Request

variable {request other : Request} {metrics left right : List Metric}

/-- The change that a request makes. -/
def effect : Request → List Metric → List Metric
  | add metric, metrics => metrics ++ [metric]
  | delete name, metrics => metrics.filter fun metric => metric.name != name

/-- The change of a request is in force: its definition is listed, or no
definition has its name. -/
def Holds : Request → List Metric → Prop
  | add metric, metrics => metric ∈ metrics
  | delete name, metrics => ∀ metric ∈ metrics, metric.name ≠ name

theorem mem_effect_of_ne {metric : Metric} (different : request.name ≠ metric.name) :
    metric ∈ request.effect metrics ↔ metric ∈ metrics := by
  cases request with
  | add own =>
      have unequal : metric ≠ own := fun same => different (congrArg Metric.name same.symm)
      simp [effect, unequal]
  | delete name =>
      have unequal : metric.name ≠ name := different.symm
      simp [effect, unequal]

theorem holds_effect (request : Request) (metrics : List Metric) :
    request.Holds (request.effect metrics) := by
  cases request with
  | add metric => exact List.mem_append_right _ List.mem_cons_self
  | delete name =>
      intro metric member
      simpa using (List.mem_filter.mp member).2

/-- Whether a change is in force depends on the definitions of its name. -/
theorem holds_congr (same : ∀ metric, metric.name = request.name →
    (metric ∈ left ↔ metric ∈ right)) : request.Holds left ↔ request.Holds right := by
  cases request with
  | add metric => exact same metric rfl
  | delete name =>
      constructor
      · exact fun holds metric member named => holds metric ((same metric named).mpr member) named
      · exact fun holds metric member named => holds metric ((same metric named).mp member) named

theorem holds_effect_of_ne (different : other.name ≠ request.name) :
    request.Holds (other.effect metrics) ↔ request.Holds metrics :=
  holds_congr fun _ named => mem_effect_of_ne (named ▸ different)

/-- A request that is not refused makes its change, and nothing is changed only
if the change was in force. -/
theorem eq_effect_of_revise {revised : List Metric}
    (revises : request.revise metrics = .ok revised) :
    revised = request.effect metrics ∧
      (revised.length = metrics.length ↔ request.Holds metrics) := by
  cases request with
  | add metric =>
      rw [revise] at revises
      split at revises
      · cases revises
      · rename_i fresh
        obtain rfl := Except.ok.inj revises
        refine ⟨rfl, by simp, fun member => (fresh ?_).elim⟩
        exact List.any_eq_true.mpr ⟨metric, member, beq_iff_eq.mpr rfl⟩
  | delete name =>
      obtain rfl := Except.ok.inj revises
      refine ⟨rfl, ?_⟩
      rw [List.length_filter_eq_length_iff]
      simp [Holds]

end Request

variable {requests : List Request} {request : Request} {initial : List Metric} {index : Nat}

/-- Make the change of the request at a place. -/
def carryOut (requests : List Request) (metrics : List Metric) (index : Nat) : List Metric :=
  match requests[index]? with
  | some request => request.effect metrics
  | none => metrics

/-- What the requests at some places make of a list, one after another. -/
def outcome (requests : List Request) (initial : List Metric) (indices : List Nat) : List Metric :=
  indices.foldl (carryOut requests) initial

theorem outcome_append (requests : List Request) (initial : List Metric) (indices : List Nat)
    (index : Nat) : outcome requests initial (indices ++ [index]) =
      carryOut requests (outcome requests initial indices) index :=
  List.foldl_append

theorem carryOut_of_found (found : requests[index]? = some request) (metrics : List Metric) :
    carryOut requests metrics index = request.effect metrics := by
  rw [carryOut, found]

theorem mem_carryOut_of_unnamed {metric : Metric}
    (unnamed : ∀ request ∈ requests, request.name ≠ metric.name) (metrics : List Metric)
    (index : Nat) : metric ∈ carryOut requests metrics index ↔ metric ∈ metrics := by
  rw [carryOut]
  split
  · rename_i request found
    exact Request.mem_effect_of_ne (unnamed request (List.mem_of_getElem? found))
  · rfl

/-- Definitions that no request names are kept. -/
theorem mem_outcome_of_unnamed {metric : Metric}
    (unnamed : ∀ request ∈ requests, request.name ≠ metric.name) (indices : List Nat) :
    metric ∈ outcome requests initial indices ↔ metric ∈ initial := by
  induction indices using List.reverseRecOn with
  | nil => rfl
  | append_singleton indices index hypothesis =>
      rw [outcome_append, mem_carryOut_of_unnamed unnamed]
      exact hypothesis

theorem name_ne_of_ne {other : Request} {otherIndex : Nat}
    (distinct : (requests.map Request.name).Nodup) (found : requests[index]? = some request)
    (foundOther : requests[otherIndex]? = some other) (different : otherIndex ≠ index) :
    other.name ≠ request.name := by
  intro same
  have bound : otherIndex < (requests.map Request.name).length := by
    rw [List.length_map]
    exact (List.getElem?_eq_some_iff.mp foundOther).1
  refine different ((List.getElem?_inj bound distinct).mp ?_)
  rw [List.getElem?_map, List.getElem?_map, found, foundOther, Option.map_some, Option.map_some,
    same]

theorem holds_carryOut_iff {other : Nat} (distinct : (requests.map Request.name).Nodup)
    (found : requests[index]? = some request) (metrics : List Metric) :
    request.Holds (carryOut requests metrics other) ↔ other = index ∨ request.Holds metrics := by
  by_cases same : other = index
  · subst same
    rw [carryOut_of_found found]
    exact iff_of_true (request.holds_effect metrics) (Or.inl rfl)
  · rw [or_iff_right same, carryOut]
    split
    · rename_i foundOther
      exact Request.holds_effect_of_ne (name_ne_of_ne distinct found foundOther same)
    · rfl

/-- Where names are distinct, a change is in force exactly if its request is
among those carried out, or if it was in force before. -/
theorem holds_outcome_iff (distinct : (requests.map Request.name).Nodup)
    (found : requests[index]? = some request) (indices : List Nat) :
    request.Holds (outcome requests initial indices) ↔
      index ∈ indices ∨ request.Holds initial := by
  induction indices using List.reverseRecOn with
  | nil => simp [outcome]
  | append_singleton indices other hypothesis =>
      rw [outcome_append, holds_carryOut_iff distinct found, hypothesis, List.mem_append,
        List.mem_singleton, eq_comm]
      tauto

/-! ## Stages of a request -/

/-- How far a request has come after some turns, which began with the list
`initial?`, and what it is about to do. -/
inductive Stage (requests : List Request) (initial? : Option (List Metric))
    (turns : List Store.Turn) (index : Nat) (request : Request) : Service → Prop
  /-- It has not begun. -/
  | waiting (unread : index ∉ Store.readers turns) (unwritten : index ∉ Store.writers turns) :
      Stage requests initial? turns index request request.program
  /-- It has read, and its change is not in force yet. -/
  | decided {initial revised : List Metric} (listed : initial? = some initial)
      (hasRead : index ∈ Store.readers turns) (unwritten : index ∉ Store.writers turns)
      (changes : ¬ request.Holds initial)
      (revises : revised =
        outcome requests initial ((Store.Lineage.ofTurns turns).read index ++ [index])) :
      Stage requests initial? turns index request
        (.ask (.set Store.metricsKey (Metric.listText revised)) fun answer =>
          .done ((answer.map fun _ => revised).mapError .store))
  /-- It is answered, with success only if its change was in force or is written. -/
  | answered {result : Except Error (List Metric)}
      (succeeds : ∀ metrics, result = .ok metrics → ∃ initial, initial? = some initial ∧
        (index ∈ Store.writers turns ↔ ¬ request.Holds initial)) :
      Stage requests initial? turns index request (.done result)

variable {initial? : Option (List Metric)} {turns : List Store.Turn}

/-- Turns of others leave the stage of a request. -/
theorem Stage.append {turn : Store.Turn} {program : Service}
    (stage : Stage requests initial? turns index request program) (different : turn.index ≠ index) :
    Stage requests initial? (turns ++ [turn]) index request program := by
  have notReader : turn.reader? ≠ some index := fun reads =>
    different (Store.Turn.index_of_reader? reads)
  have notWriter : turn.writer? ≠ some index := fun writes =>
    different (Store.Turn.index_of_writer? writes)
  have read : index ∈ Store.readers (turns ++ [turn]) ↔ index ∈ Store.readers turns := by
    rw [Store.mem_readers_append, or_iff_left notReader]
  have written : index ∈ Store.writers (turns ++ [turn]) ↔ index ∈ Store.writers turns := by
    rw [Store.mem_writers_append, or_iff_left notWriter]
  cases stage with
  | waiting unread unwritten =>
      exact .waiting (fun member => unread (read.mp member))
        fun member => unwritten (written.mp member)
  | decided listed hasRead unwritten changes revises =>
      refine .decided listed (read.mpr hasRead)
        (fun member => unwritten (written.mp member)) changes ?_
      rw [Store.Lineage.ofTurns_append, Store.Lineage.read_after_of_not_reader? _ notReader]
      exact revises
  | answered succeeds =>
      exact .answered fun metrics ok => by rw [written]; exact succeeds metrics ok

/-- What a request decides when it reads. -/
theorem stage_settle {turn : Store.Turn} (distinct : (requests.map Request.name).Nodup)
    (found : requests[index]? = some request) (listed : initial? = some initial)
    (unwritten : index ∉ Store.writers turns) (reads : turn.reader? = some index) :
    Stage requests initial? (turns ++ [turn]) index request
      (request.settle (outcome requests initial (Store.Lineage.ofTurns turns).stored)) := by
  have stillUnwritten : index ∉ Store.writers (turns ++ [turn]) := by
    rw [Store.mem_writers_append, Store.Turn.writer?_of_reader? reads]
    simpa using unwritten
  -- No other request has changed what is listed under this name.
  have before : request.Holds (outcome requests initial (Store.Lineage.ofTurns turns).stored) ↔
      request.Holds initial := by
    rw [holds_outcome_iff distinct found]
    exact or_iff_right fun member => unwritten ((Store.Lineage.wrote turns).stored index member)
  rw [Request.settle]
  split
  · exact .answered fun metrics ok => by cases ok
  · rename_i revised revises
    obtain ⟨rfl, same⟩ := Request.eq_effect_of_revise revises
    split
    · rename_i unchanged
      exact .answered fun metrics _ => ⟨initial, listed,
        iff_of_false stillUnwritten (not_not.mpr (before.mp (same.mp unchanged)))⟩
    · rename_i changed
      refine .decided listed (Store.mem_readers_append.mpr (Or.inr reads)) stillUnwritten
        (fun holds => changed (same.mpr (before.mpr holds))) ?_
      rw [Store.Lineage.ofTurns_append, Store.Lineage.read_after_of_reader? _ reads, outcome_append,
        carryOut_of_found found]

/-! ## Runs of requests -/

/-- The definitions in a store; none if what it holds is no list. -/
def listed? (contents : Store.Contents) : Option (List Metric) :=
  Store.metricsIn? (contents.get? Store.metricsKey)

/-- What is known of requests under way after some turns, which began with the
list `initial?`. -/
structure Follows (requests : List Request) (initial? : Option (List Metric))
    (turns : List Store.Turn) (sharing : Store.Sharing (Except Error (List Metric))) : Prop where
  listed : listed? sharing.contents =
    initial?.map (outcome requests · (Store.Lineage.ofTurns turns).stored)
  readFirst : Store.ReadFirst turns
  stages : ∀ (index : Nat) program, sharing.programs[index]? = some program →
    ∃ request, requests[index]? = some request ∧
      Stage requests initial? turns index request program

variable {sharing last : Store.Sharing (Except Error (List Metric))}

theorem follows_start (requests : List Request) (contents : Store.Contents) :
    Follows requests (listed? contents) [] ⟨contents, requests.map Request.program⟩ := by
  refine ⟨?_, Store.readFirst_nil, fun index program found => ?_⟩
  · exact Option.map_id'.symm
  · dsimp only at found
    rw [List.getElem?_map] at found
    obtain ⟨request, own, rfl⟩ := Option.map_eq_some_iff.mp found
    exact ⟨request, own, .waiting List.not_mem_nil List.not_mem_nil⟩

theorem Follows.stages_set {call : Store.Call} {answer : call.Answer} {next : Service}
    (follows : Follows requests initial? turns sharing) (found : requests[index]? = some request)
    (own : Stage requests initial? (turns ++ [⟨index, call, answer⟩]) index request next)
    (place : Nat) (program : Service)
    (left : (sharing.programs.set index next)[place]? = some program) :
    ∃ other, requests[place]? = some other ∧
      Stage requests initial? (turns ++ [⟨index, call, answer⟩]) place other program := by
  rw [List.getElem?_set] at left
  split at left
  · rename_i same
    subst same
    split at left
    · obtain rfl := Option.some.inj left
      exact ⟨request, found, own⟩
    · cases left
  · rename_i different
    obtain ⟨other, foundOther, stage⟩ := follows.stages place program left
    exact ⟨other, foundOther, stage.append different⟩

theorem Follows.read (distinct : (requests.map Request.name).Nodup)
    (follows : Follows requests initial? turns sharing) (found : requests[index]? = some request)
    (unwritten : index ∉ Store.writers turns) :
    Follows requests initial?
      (turns ++ [⟨index, .get Store.metricsKey, .ok (sharing.contents.get? Store.metricsKey)⟩])
      ⟨sharing.contents, sharing.programs.set index
        (request.afterReading (.ok (sharing.contents.get? Store.metricsKey)))⟩ := by
  have value := follows.listed
  refine ⟨?_, follows.readFirst.append fun writer writes => ?_, follows.stages_set found ?_⟩
  · rw [Store.Lineage.ofTurns_append, Store.Lineage.stored_after_of_not_writer? _ rfl]
    exact value
  · cases writes
  · cases initial? with
    | none =>
        rw [Request.afterReading, Store.reading, ← listed?, value]
        exact .answered fun metrics ok => by cases ok
    | some initial =>
        rw [Request.afterReading_of_decoded request value]
        exact stage_settle distinct found rfl unwritten rfl

theorem Follows.write {revised : List Metric}
    (follows : Follows requests (some initial) turns sharing)
    (found : requests[index]? = some request) (hasRead : index ∈ Store.readers turns)
    (changes : ¬ request.Holds initial)
    (revises : revised =
      outcome requests initial ((Store.Lineage.ofTurns turns).read index ++ [index])) :
    Follows requests (some initial)
      (turns ++ [⟨index, .set Store.metricsKey (Metric.listText revised), .ok ()⟩])
      ⟨sharing.contents.insert Store.metricsKey (Metric.listText revised),
        sharing.programs.set index (.done (.ok revised))⟩ := by
  refine ⟨?_, follows.readFirst.append fun writer writes => ?_, follows.stages_set found ?_⟩
  · rw [Store.Lineage.ofTurns_append, Store.Lineage.stored_after_of_writer? _ rfl, listed?,
      Text.Map.get?_insert, if_pos rfl, Store.metricsIn?, Metric.ofListText?_listText, revises]
    rfl
  · obtain rfl := Option.some.inj writes
    exact hasRead
  · exact .answered fun metrics _ =>
      ⟨initial, rfl, iff_of_true (Store.mem_writers_append.mpr (Or.inr rfl)) changes⟩

/-- A turn that succeeds leads from stage to stage. -/
theorem Follows.turn (distinct : (requests.map Request.name).Nodup)
    (follows : Follows requests initial? turns sharing) {call : Store.Call} {answer : call.Answer}
    {next : call.Answer → Service} {left : Store.Contents}
    (asks : sharing.programs[index]? = some (.ask call next))
    (serves : Store.Serves sharing.contents call answer left)
    (succeeds : ¬ Store.Turn.Fails ⟨index, call, answer⟩) :
    Follows requests initial? (turns ++ [⟨index, call, answer⟩])
      ⟨left, sharing.programs.set index (next answer)⟩ := by
  cases serves with
  | refused error => exact (succeeds ⟨error, rfl⟩).elim
  | unconfirmed error => exact (succeeds ⟨error, rfl⟩).elim
  | succeeded =>
      -- Its stage tells what the request may be asking.
      obtain ⟨request, found, stage⟩ := follows.stages index _ asks
      generalize shape : Program.ask call next = program at stage
      cases stage with
      | answered _ => cases shape
      | waiting unread unwritten =>
          rw [Request.program_eq] at shape
          split at shape
          · cases shape
          · cases shape
            exact follows.read distinct found unwritten
      | decided listed hasRead unwritten changes revises =>
          cases shape
          subst listed
          exact follows.write found hasRead changes revises

/-- Requests at a store that never fails go through their stages. -/
theorem follows_of_runs {contents : Store.Contents} (distinct : (requests.map Request.name).Nodup)
    (runs : Store.Sharing.Runs ⟨contents, requests.map Request.program⟩ turns last)
    (faultless : ∀ turn ∈ turns, ¬ turn.Fails) :
    Follows requests (listed? contents) turns last :=
  runs.preserves (Follows requests (listed? contents)) (follows_start requests contents)
    fun _ _ _ _ _ _ _ member follows asks serves =>
      follows.turn distinct asks serves (faultless _ member)

/-- A change that is answered with success is in force exactly unless it is
overwritten. -/
theorem Follows.holds_iff {metrics : List Metric} (distinct : (requests.map Request.name).Nodup)
    (follows : Follows requests initial? turns sharing) (found : requests[index]? = some request)
    (answered : sharing.programs[index]? = some (.done (.ok metrics))) :
    ∃ stored, listed? sharing.contents = some stored ∧
      (request.Holds stored ↔ ¬ Store.Overwritten turns index) := by
  obtain ⟨other, same, stage⟩ := follows.stages index _ answered
  obtain rfl := Option.some.inj (found.symm.trans same)
  generalize shape : Program.done (Except.ok metrics) = program at stage
  cases stage with
  | waiting _ _ =>
      rw [Request.program_eq] at shape
      split at shape <;> cases shape
  | decided _ _ _ _ _ => cases shape
  | answered succeeds =>
      cases shape
      obtain ⟨initial, rfl, wrote⟩ := succeeds metrics rfl
      refine ⟨_, follows.listed, ?_⟩
      rw [holds_outcome_iff distinct found, Store.Overwritten, wrote]
      tauto

end Catalog
end InventoryGauges

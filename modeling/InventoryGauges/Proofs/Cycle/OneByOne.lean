import InventoryGauges.Proofs.Cycle.SideBySide
import InventoryGauges.Proofs.Cycle.Stage
import InventoryGauges.Proofs.Sampling.Outcome

/-!
# Passes one by one

Passes that run side by side leave what they would leave one by one, in any
order, as long as no gauge concerns two of them and the surroundings answer
each of them alike at all times.
-/

namespace InventoryGauges

/-- Two sites hold the same identities for each name and something under the
same keys, and the same gauges are live there. -/
structure Site.Agrees (left right : Site) : Prop where
  /-- The same identities are stored for each name. -/
  related : ∀ name, left.contents.get? (Store.relatedKey name) =
    right.contents.get? (Store.relatedKey name)
  /-- There is something under the same keys. -/
  keys : ∀ key, (left.contents.get? key).isSome ↔ (right.contents.get? key).isSome
  /-- The same gauges are live. -/
  live : ∀ id, (left.published.get? id).isSome ↔ (right.published.get? id).isSome

/-- The pass that is one place further on. -/
def Actor.next : Actor → Actor
  | .main => .main
  | .pass index => .pass (index + 1)

/-- The moment when the passes are one place further on. -/
def Moment.next (moment : Moment) : Moment :=
  ⟨moment.actor.next, moment.event⟩

namespace Moment

theorem eventsOf_next (index : Nat) (moments : List Moment) :
    eventsOf (.pass (index + 1)) (moments.map next) = eventsOf (.pass index) moments := by
  induction moments with
  | nil => rfl
  | cons moment moments hypothesis =>
      have same : (moment.next.actor = .pass (index + 1)) ↔ moment.actor = .pass index := by
        obtain ⟨actor, event⟩ := moment
        cases actor <;> simp [next, Actor.next]
      rw [List.map_cons, eventsOf_cons, eventsOf_cons, hypothesis]
      simp only [same]
      rfl

theorem eventsOf_zero_next (moments : List Moment) :
    eventsOf (.pass 0) (moments.map next) = [] := by
  apply List.eq_nil_iff_forall_not_mem.mpr
  intro event member
  obtain ⟨⟨actor, other⟩, -, equal⟩ := List.mem_map.mp (mem_eventsOf.mp member)
  have first := congrArg Moment.actor equal
  cases actor <;> cases first

end Moment

namespace Cycle

/-- The passes of some metrics run one by one. -/
inductive OneByOne (schedule : Schedule) : List Metric → List Event → Prop
  | nil : OneByOne schedule [] []
  | cons {metric : Metric} {metrics : List Metric} {events others : List Event} {ending : Ending}
      (runs : PassRuns schedule metric events ending)
      (rest : OneByOne schedule metrics others) :
      OneByOne schedule (metric :: metrics) (events ++ others)

variable {schedule : Schedule} {metric : Metric} {metrics : List Metric} {endings : List Ending}
  {moments : List Moment} {surroundings : Surroundings} {site : Site}

/-- A pass may run before others that are side by side. -/
theorem SideBySide.cons {events : List Event} {ending : Ending}
    (runs : PassRuns schedule metric events ending)
    (aside : SideBySide schedule metrics endings moments) :
    SideBySide schedule (metric :: metrics) (ending :: endings)
      (events.map (Moment.mk (.pass 0)) ++ moments.map Moment.next) where
  lengths := congrArg (· + 1) aside.lengths
  actors := by
    intro moment member
    rcases List.mem_append.mp member with first | later
    · obtain ⟨event, -, rfl⟩ := List.mem_map.mp first
      exact ⟨0, Nat.zero_lt_succ _, rfl⟩
    · obtain ⟨other, inMoments, rfl⟩ := List.mem_map.mp later
      obtain ⟨index, bound, actor⟩ := aside.actors other inMoments
      exact ⟨index + 1, Nat.succ_lt_succ bound, congrArg Actor.next actor⟩
  passes := by
    intro index own ends found ended
    rw [Moment.eventsOf_append]
    cases index with
    | zero =>
        obtain rfl := Option.some.inj found
        obtain rfl := Option.some.inj ended
        rwa [Moment.eventsOf_map_mk, Moment.eventsOf_zero_next, List.append_nil]
    | succ index =>
        rw [Moment.eventsOf_map_mk_of_ne (by simp), Moment.eventsOf_next, List.nil_append]
        exact aside.passes index own ends found ended

namespace OneByOne

/-- To run one by one is a way to run side by side. -/
theorem exists_sideBySide {events : List Event} (inTurn : OneByOne schedule metrics events) :
    ∃ endings moments, SideBySide schedule metrics endings moments ∧
      moments.map Moment.event = events := by
  induction inTurn with
  | nil => exact ⟨[], [], ⟨rfl, nofun, nofun⟩, rfl⟩
  | @cons metric metrics events others ending runs rest hypothesis =>
      obtain ⟨endings, moments, aside, rfl⟩ := hypothesis
      refine ⟨_, _, .cons runs aside, ?_⟩
      simp [Moment.next, Function.comp_def]

/-- Passes can run one by one in each order. -/
theorem exists_answers (surroundings : Surroundings) (schedule : Schedule)
    (metrics : List Metric) (site : Site) :
    ∃ events, OneByOne schedule metrics events ∧ surroundings.Answers site events := by
  induction metrics generalizing site with
  | nil => exact ⟨[], .nil, trivial, nofun⟩
  | cons metric metrics hypothesis =>
      obtain ⟨first, ending, runs, answers⟩ := surroundings.exists_runs schedule metric site
      obtain ⟨rest, inTurn, later⟩ := hypothesis (site.afterAll first)
      exact ⟨first ++ rest, .cons runs inTurn, Surroundings.answers_append.mpr ⟨answers, later⟩⟩

end OneByOne
end Cycle

namespace Surroundings

variable {surroundings : Surroundings} {site : Site} {events : List Event}

/-- A call that was made and that the surroundings accept was accepted. -/
theorem Answers.accepted_mem (answers : surroundings.Answers site events) {call : Gateway.Call}
    (asked : call ∈ Event.asked events) (accepts : surroundings.accepts call = true) :
    .gateway call (.ok ()) ∈ events := by
  obtain ⟨answer, member⟩ := Event.mem_asked.mp asked
  cases answer with
  | error error => exact absurd ((answers.allowed _ member).trans accepts) nofun
  | ok accepted => exact member

/-- Where nothing is wiped and nothing is both published and withdrawn, the calls
tell which gauges are live in the end. -/
theorem Answers.live_iff (answers : surroundings.Answers site events)
    (unwiped : ∀ event ∈ events, ∀ answer, event ≠ .wipe answer)
    (apart : ∀ sample, .push sample ∈ Event.asked events →
      ¬ .delete sample.id ∈ Event.asked events) (id : String) :
    ((site.afterAll events).published.get? id).isSome ↔
      (∃ sample, .push sample ∈ Event.asked events ∧
          surroundings.accepts (.push sample) = true ∧ sample.id = id) ∨
        (site.published.get? id).isSome ∧
          ¬ (.delete id ∈ Event.asked events ∧ surroundings.accepts (.delete id) = true) := by
  have withdrawn {event : Event} {id : String} (member : event ∈ events)
      (withdraws : event.Withdraws id) :
      .delete id ∈ Event.asked events ∧ surroundings.accepts (.delete id) = true := by
    obtain rfl := event.eq_delete_of_withdraws (unwiped event member) withdraws
    exact ⟨Event.mem_asked.mpr ⟨_, member⟩, (answers.allowed _ member).symm⟩
  constructor
  · intro live
    obtain ⟨sample, found⟩ := Option.isSome_iff_exists.mp live
    rcases Site.published_of_afterAll found with ⟨accepted, same⟩ | ⟨before, kept⟩
    · exact Or.inl ⟨sample, Event.mem_asked.mpr ⟨_, accepted⟩,
        (answers.allowed _ accepted).symm, same⟩
    · refine Or.inr ⟨by rw [before]; rfl, fun ⟨asked, accepts⟩ => ?_⟩
      exact kept _ (answers.accepted_mem asked accepts) rfl
  · rintro (⟨sample, asked, accepts, rfl⟩ | ⟨before, kept⟩)
    · obtain ⟨other, live, -, -⟩ := Site.exists_published_of_pushed
        (answers.accepted_mem asked accepts)
        fun event member withdraws => apart sample asked (withdrawn member withdraws).1
      rw [live]
      rfl
    · exact Site.isSome_published_afterAll before
        fun event member withdraws => kept (withdrawn member withdraws)

end Surroundings

namespace Cycle.SideBySide

variable {schedule : Schedule} {metric : Metric} {metrics others : List Metric}
  {endings ends : List Ending} {moments meanwhile : List Moment} {surroundings : Surroundings}
  {site : Site}

section Outcome

variable (aside : SideBySide schedule metrics endings moments)
  (unique : (metrics.map Metric.name).Nodup)
  (answers : surroundings.Answers site (moments.map Moment.event))
include aside unique answers

/-- What passes side by side leave for a metric is what its pass would leave
alone. -/
theorem exists_alone {index : Nat} (found : metrics[index]? = some metric) :
    ∃ ending, PassRuns schedule metric (Moment.eventsOf (.pass index) moments) ending ∧
      surroundings.Answers site (Moment.eventsOf (.pass index) moments) ∧
      ∀ key, Store.IsKeyOf metric.name key →
        (site.afterAll (Moment.eventsOf (.pass index) moments)).contents.get? key =
          (site.afterAll (moments.map Moment.event)).contents.get? key := by
  have bound : index < endings.length :=
    aside.lengths ▸ (List.getElem?_eq_some_iff.mp found).1
  obtain ⟨alone, agree⟩ := aside.alone unique found (List.append_nil _).symm answers.lawful
  refine ⟨endings[index],
    aside.passes index metric _ found (List.getElem?_eq_getElem bound), ⟨alone, ?_⟩, agree⟩
  intro event own
  exact answers.allowed event (List.mem_map.mpr ⟨_, Moment.mem_eventsOf.mp own, rfl⟩)

theorem get?_relatedKey (member : metric ∈ metrics) :
    (site.afterAll (moments.map Moment.event)).contents.get? (Store.relatedKey metric.name) =
      surroundings.stored metric (site.contents.get? (Store.relatedKey metric.name)) := by
  obtain ⟨index, found⟩ := List.getElem?_of_mem member
  obtain ⟨ending, runs, alone, agree⟩ := aside.exists_alone unique answers found
  rw [← agree _ (Or.inr rfl)]
  exact (Surroundings.outcome_of_runs runs alone).2

theorem isSome_markerKey_iff (member : metric ∈ metrics) :
    ((site.afterAll (moments.map Moment.event)).contents.get?
        (Store.markerKey metric.name)).isSome ↔
      (surroundings.obtained metric).isSome ∨
        (site.contents.get? (Store.markerKey metric.name)).isSome := by
  obtain ⟨index, found⟩ := List.getElem?_of_mem member
  obtain ⟨ending, runs, alone, agree⟩ := aside.exists_alone unique answers found
  rw [← agree _ (Or.inl rfl)]
  exact Surroundings.marker_of_runs runs alone

/-- The calls to the gateway are those of all passes. -/
theorem mem_asked_iff {call : Gateway.Call} :
    call ∈ Event.asked (moments.map Moment.event) ↔
      ∃ metric ∈ metrics, call ∈ surroundings.calls metric
        (site.contents.get? (Store.relatedKey metric.name)) := by
  constructor
  · intro asked
    obtain ⟨answer, called⟩ := Event.mem_asked.mp asked
    obtain ⟨moment, member, event⟩ := List.mem_map.mp called
    obtain ⟨index, metric, _, -, found, -, own⟩ := aside.exists_pass member
    obtain ⟨ending, runs, alone, -⟩ := aside.exists_alone unique answers found
    refine ⟨metric, List.mem_of_getElem? found, ?_⟩
    exact (Surroundings.outcome_of_runs runs alone).1.mem_iff.mp
      (Event.mem_asked.mpr ⟨answer, event ▸ own⟩)
  · rintro ⟨metric, member, called⟩
    obtain ⟨index, found⟩ := List.getElem?_of_mem member
    obtain ⟨ending, runs, alone, -⟩ := aside.exists_alone unique answers found
    obtain ⟨answer, own⟩ := Event.mem_asked.mp
      ((Surroundings.outcome_of_runs runs alone).1.mem_iff.mpr called)
    exact Event.mem_asked.mpr
      ⟨answer, List.mem_map.mpr ⟨_, Moment.mem_eventsOf.mp own, rfl⟩⟩

/-- Where no gauge concerns two metrics, the calls of their passes tell which
gauges are live in the end. -/
theorem live_iff
    (apart : ∀ metric ∈ metrics, ∀ other ∈ metrics, metric ≠ other → ∀ id,
      surroundings.Concerns site metric id → ¬ surroundings.Concerns site other id)
    (id : String) :
    ((site.afterAll (moments.map Moment.event)).published.get? id).isSome ↔
      (∃ sample, (∃ metric ∈ metrics, .push sample ∈ surroundings.calls metric
          (site.contents.get? (Store.relatedKey metric.name))) ∧
            surroundings.accepts (.push sample) = true ∧ sample.id = id) ∨
        (site.published.get? id).isSome ∧
          ¬ ((∃ metric ∈ metrics, .delete id ∈ surroundings.calls metric
            (site.contents.get? (Store.relatedKey metric.name))) ∧
              surroundings.accepts (.delete id) = true) := by
  simp only [← aside.mem_asked_iff unique answers]
  refine answers.live_iff ?_ ?_ id
  · rintro event member answer rfl
    obtain ⟨moment, inMoments, wiped⟩ := List.mem_map.mp member
    obtain ⟨_, metric, -, -, does⟩ := aside.does inMoments
    rw [wiped] at does
    cases does with
    | acts acts =>
        cases acts with
        | tidies tidies => cases tidies
  · -- Only one metric is concerned, whose pass does not withdraw what it publishes.
    intro sample pushed deleted
    obtain ⟨metric, member, called⟩ := (aside.mem_asked_iff unique answers).mp pushed
    obtain ⟨other, inMetrics, calledToo⟩ := (aside.mem_asked_iff unique answers).mp deleted
    by_cases same : metric = other
    · subst same
      obtain ⟨samples, gives, current⟩ := Surroundings.push_mem_calls called
      exact (Surroundings.delete_mem_calls calledToo).2 samples gives current
    · exact apart metric member other inMetrics same sample.id
        (Surroundings.concerns_of_mem_calls called) (Surroundings.concerns_of_mem_calls calledToo)

end Outcome

/-- Passes leave the keys of other names alone. -/
theorem get?_of_foreign (aside : SideBySide schedule metrics endings moments) (site : Site)
    {key : String} (foreign : ∀ metric ∈ metrics, ¬ Store.IsKeyOf metric.name key) :
    (site.afterAll (moments.map Moment.event)).contents.get? key = site.contents.get? key := by
  apply Site.get?_contents_afterAll
  intro event member
  obtain ⟨moment, inMoments, rfl⟩ := List.mem_map.mp member
  obtain ⟨index, metric, -, found, does⟩ := aside.does inMoments
  exact Event.written?_of_within does.within (foreign metric (List.mem_of_getElem? found))

/-- However passes of the same metrics run side by side, they leave the same. -/
theorem agrees (aside : SideBySide schedule metrics endings moments)
    (along : SideBySide schedule others ends meanwhile) (same : others.Perm metrics)
    (unique : (metrics.map Metric.name).Nodup)
    (apart : ∀ metric ∈ metrics, ∀ other ∈ metrics, metric ≠ other → ∀ id,
      surroundings.Concerns site metric id → ¬ surroundings.Concerns site other id)
    (answers : surroundings.Answers site (moments.map Moment.event))
    (answersToo : surroundings.Answers site (meanwhile.map Moment.event)) :
    (site.afterAll (moments.map Moment.event)).Agrees
      (site.afterAll (meanwhile.map Moment.event)) := by
  have uniqueToo : (others.map Metric.name).Nodup := (same.map Metric.name).nodup_iff.mpr unique
  have foreign {key : String} (foreign : ∀ metric ∈ metrics, ¬ Store.IsKeyOf metric.name key) :
      (site.afterAll (moments.map Moment.event)).contents.get? key =
        (site.afterAll (meanwhile.map Moment.event)).contents.get? key := by
    rw [aside.get?_of_foreign site foreign,
      along.get?_of_foreign site fun metric member => foreign metric (same.mem_iff.mp member)]
  have related {metric : Metric} (member : metric ∈ metrics) :
      (site.afterAll (moments.map Moment.event)).contents.get? (Store.relatedKey metric.name) =
        (site.afterAll (meanwhile.map Moment.event)).contents.get?
          (Store.relatedKey metric.name) := by
    rw [aside.get?_relatedKey unique answers member,
      along.get?_relatedKey uniqueToo answersToo (same.mem_iff.mpr member)]
  -- What is left is told by the start and the metrics, whatever their order.
  refine ⟨fun name => ?_, fun key => ?_, fun id => ?_⟩
  · by_cases known : ∃ metric ∈ metrics, metric.name = name
    · obtain ⟨metric, member, rfl⟩ := known
      exact related member
    · refine foreign fun metric member own => known ⟨metric, member, ?_⟩
      exact Store.eq_of_isKeyOf own (Or.inr rfl)
  · by_cases known : ∃ metric ∈ metrics, Store.IsKeyOf metric.name key
    · obtain ⟨metric, member, rfl | rfl⟩ := known
      · rw [aside.isSome_markerKey_iff unique answers member,
          along.isSome_markerKey_iff uniqueToo answersToo (same.mem_iff.mpr member)]
      · rw [related member]
    · rw [foreign fun metric member own => known ⟨metric, member, own⟩]
  · rw [aside.live_iff unique answers apart,
      along.live_iff uniqueToo answersToo fun metric member other inOthers =>
        apart metric (same.mem_iff.mp member) other (same.mem_iff.mp inOthers)]
    simp only [same.mem_iff]

end Cycle.SideBySide

/-- Passes of metrics with unique names that run side by side leave what they
leave one by one in any order, if the store works, none of them is cut off, the
inventory and the gateway answer only by what they are asked, and no identity
is recorded for one of the metrics or among its samples that is for another. -/
theorem agrees_with_oneByOne {schedule : Schedule} {surroundings : Surroundings} {site : Site}
    {due order : List Metric} {endings : List Cycle.Ending} {moments : List Moment}
    (finishes : Program.Finishes (Cycle.Answered schedule) (Cycle.sampleAll due) moments endings)
    (answers : surroundings.Answers site (moments.map Moment.event))
    (unique : (due.map Metric.name).Nodup)
    (apart : ∀ metric ∈ due, ∀ other ∈ due, metric ≠ other → ∀ id,
      surroundings.Concerns site metric id → ¬ surroundings.Concerns site other id)
    (same : order.Perm due) :
    (∃ events, Cycle.OneByOne schedule order events ∧ surroundings.Answers site events) ∧
      ∀ events, Cycle.OneByOne schedule order events → surroundings.Answers site events →
        (site.afterAll (moments.map Moment.event)).Agrees (site.afterAll events) := by
  refine ⟨Cycle.OneByOne.exists_answers surroundings schedule order site, ?_⟩
  intro events inTurn answersToo
  obtain ⟨passed, counted, aside, counts, rfl⟩ := Cycle.finishes_sampleAll_iff.mp finishes
  obtain ⟨ends, meanwhile, along, rfl⟩ := inTurn.exists_sideBySide
  have counting : ∀ event ∈ counted, event.IsQuiet := by
    intro event member
    obtain ⟨counter, amount, rfl⟩ := Cycle.exists_count_of_finishes_countLost counts event member
    exact fun site => rfl
  rw [List.map_append, Moment.map_event_ofMain] at answers ⊢
  rw [Site.afterAll_append, Site.afterAll_of_isQuiet counting]
  exact aside.agrees along same unique apart (Surroundings.answers_append.mp answers).1 answersToo

namespace Cycle.Example

open Sampling (publication withdrawal)
open Sampling.Example (metric object firstPass givenUp)

/-- A metric of another class. -/
def other : Metric :=
  { name := "n", className := "d", attributes := ["a"], queryFilter := "", interval := 1000 }

/-- Surroundings where there is an object of one class only. -/
def halfEmpty : Surroundings where
  inventory className _ :=
    some (if className = "c" then .ok [object "o"] else .error (.transport ""))
  accepts _ := true

/-- What the pass of the other metric does after its query. -/
def failing : List Event :=
  givenUp Schedule.standard other Timestamp.epoch ++ [.count (.samples .failure) 1]

/-- The other metric queries before the first one is sampled, and gives up
after. -/
def interleaved : List Moment :=
  ⟨.pass 1, .query "d" "" (.error (.transport ""))⟩ ::
    ((firstPass (.ok ())).map (Moment.mk (.pass 0)) ++ failing.map (Moment.mk (.pass 1)))

theorem finishes_interleaved : ∃ endings,
    Program.Finishes (Answered Schedule.standard) (sampleAll [metric, other]) interleaved
      endings := by
  obtain ⟨report, finishes⟩ := Sampling.Example.finishes_firstPass Schedule.standard (.ok ())
  have fails : Program.Finishes Work.Answered (Sampling.pass Schedule.standard other)
      (.query "d" "" (.error (.transport "")) :: failing)
      (.error (.inventory (.transport ""))) :=
    Sampling.finishes_pass_iff.mpr ⟨.error (.transport ""), _, rfl, _,
      Sampling.Example.finishes_givenUp _ _ _, rfl, rfl⟩
  have first : Moment.eventsOf (.pass 0) interleaved = firstPass (.ok ()) := by
    rw [interleaved, Moment.eventsOf_cons, if_neg (by simp), Moment.eventsOf_append,
      Moment.eventsOf_map_mk, Moment.eventsOf_map_mk_of_ne (by simp), List.append_nil]
  have second : Moment.eventsOf (.pass 1) interleaved =
      .query "d" "" (.error (.transport "")) :: failing := by
    rw [interleaved, Moment.eventsOf_cons, if_pos rfl, Moment.eventsOf_append,
      Moment.eventsOf_map_mk, Moment.eventsOf_map_mk_of_ne (by simp), List.nil_append]
  have aside : SideBySide Schedule.standard [metric, other]
      [.finished (.ok report), .finished (.error (.inventory (.transport "")))] interleaved := by
    refine ⟨rfl, ?_, ?_⟩
    · intro moment member
      simp only [interleaved, List.mem_cons, List.mem_append, List.mem_map] at member
      rcases member with rfl | ⟨_, -, rfl⟩ | ⟨_, -, rfl⟩
      · exact ⟨1, by decide, rfl⟩
      · exact ⟨0, by decide, rfl⟩
      · exact ⟨1, by decide, rfl⟩
    · intro index own ending found ended
      match index with
      | 0 =>
          obtain rfl := Option.some.inj found
          obtain rfl := Option.some.inj ended
          exact first ▸ .finished finishes
      | 1 =>
          obtain rfl := Option.some.inj found
          obtain rfl := Option.some.inj ended
          exact second ▸ .finished fails
      | index + 2 => cases found
  exact ⟨_, finishes_sampleAll_iff.mpr ⟨interleaved, [], aside, .done (),
    (List.append_nil _).symm⟩⟩

theorem answers_interleaved :
    halfEmpty.Answers Site.empty (interleaved.map Moment.event) where
  lawful := by
    repeat (first | exact trivial | refine ⟨rfl, ?_⟩ | refine ⟨trivial, ?_⟩)
  allowed := by
    simp [interleaved, firstPass, failing, givenUp, publication, withdrawal, Event.ofEnded,
      Sampling.refusedIds, Surroundings.Allows, halfEmpty, Gateway.Answer.isAccepted]

/-- Nothing concerns the other metric. -/
theorem not_concerns_other (id : String) : ¬ halfEmpty.Concerns Site.empty other id := by
  rintro (⟨recorded, found, member⟩ | ⟨samples, gives, -⟩)
  · obtain rfl : Text.Set.empty = recorded := Option.some.inj found
    exact Text.Set.not_mem_empty id member
  · cases gives

end Cycle.Example

open Cycle.Example (other halfEmpty interleaved finishes_interleaved answers_interleaved
  not_concerns_other)
open Sampling.Example (metric)

/-- The two passes leave the same when the second one goes first. -/
theorem agrees_in_reverse : ∃ endings,
    Program.Finishes (Cycle.Answered Schedule.standard) (Cycle.sampleAll [metric, other])
      interleaved endings ∧
    (∃ events, Cycle.OneByOne Schedule.standard [other, metric] events ∧
      halfEmpty.Answers Site.empty events) ∧
    ∀ events, Cycle.OneByOne Schedule.standard [other, metric] events →
      halfEmpty.Answers Site.empty events →
        (Site.empty.afterAll (interleaved.map Moment.event)).Agrees
          (Site.empty.afterAll events) := by
  obtain ⟨endings, finishes⟩ := finishes_interleaved
  refine ⟨endings, finishes, ?_⟩
  refine agrees_with_oneByOne finishes answers_interleaved (by decide) ?_ (.swap _ _ _)
  intro first inFirst second inSecond different id concerns concernsToo
  simp only [List.mem_cons, List.not_mem_nil, or_false] at inFirst inSecond
  rcases inFirst with rfl | rfl
  · rcases inSecond with rfl | rfl
    · exact different rfl
    · exact not_concerns_other id concernsToo
  · exact not_concerns_other id concerns

end InventoryGauges

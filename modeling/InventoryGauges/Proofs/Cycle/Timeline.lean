import InventoryGauges.Proofs.Cycle.Stage
import InventoryGauges.Proofs.Gauges.Record

/-!
# Timelines

While the poller runs its operations one after another, definitions may be
changed at any time.  Only a cycle reads them, and only once, so that each
operation does what it could do if nothing were changed meanwhile.
-/

namespace InventoryGauges

/-- Something that happens while a poller runs. -/
inductive Step
  /-- The poller does it. -/
  | poller (moment : Moment)
  /-- It belongs to a change of the definitions, by its place among the changes. -/
  | change (index : Nat) (event : Event)

namespace Step

/-- What happens in a step. -/
def event : Step → Event
  | poller moment => moment.event
  | change _ event => event

/-- What the poller does in a step. -/
def moment? : Step → Option Moment
  | poller moment => some moment
  | change _ _ => none

/-- What belongs to a change in a step. -/
def changing? (index : Nat) : Step → Option Event
  | poller _ => none
  | change other event => if other = index then some event else none

/-- What the poller does, in its order. -/
def moments (steps : List Step) : List Moment :=
  steps.filterMap moment?

/-- What belongs to a change, in its order. -/
def changesOf (index : Nat) (steps : List Step) : List Event :=
  steps.filterMap (changing? index)

@[simp] theorem moments_poller (moment : Moment) (steps : List Step) :
    moments (poller moment :: steps) = moment :: moments steps := rfl

@[simp] theorem moments_append (left right : List Step) :
    moments (left ++ right) = moments left ++ moments right :=
  List.filterMap_append

@[simp] theorem changesOf_append (index : Nat) (left right : List Step) :
    changesOf index (left ++ right) = changesOf index left ++ changesOf index right :=
  List.filterMap_append

@[simp] theorem changesOf_map_poller (index : Nat) (moments : List Moment) :
    changesOf index (moments.map poller) = [] := by
  apply List.filterMap_eq_nil_iff.mpr
  intro step member
  obtain ⟨moment, -, rfl⟩ := List.mem_map.mp member
  rfl

theorem mem_moments {moment : Moment} {steps : List Step} :
    moment ∈ moments steps ↔ poller moment ∈ steps := by
  rw [moments, List.mem_filterMap]
  constructor
  · rintro ⟨step, member, found⟩
    cases step with
    | poller other =>
        obtain rfl := Option.some.inj found
        exact member
    | change _ _ => cases found
  · intro member
    exact ⟨_, member, rfl⟩

theorem mem_changesOf {index : Nat} {event : Event} {steps : List Step} :
    event ∈ changesOf index steps ↔ change index event ∈ steps := by
  rw [changesOf, List.mem_filterMap]
  constructor
  · rintro ⟨step, member, found⟩
    cases step with
    | poller _ => cases found
    | change other event =>
        rw [changing?] at found
        split at found
        · rename_i same
          obtain rfl := Option.some.inj found
          exact same ▸ member
        · cases found
  · intro member
    exact ⟨_, member, if_pos rfl⟩

end Step

/-- Sites that differ in the definitions at most. -/
structure Site.Alike (left right : Site) : Prop where
  /-- The same gauges are live. -/
  published : left.published = right.published
  /-- Everything else that is stored is the same. -/
  contents : ∀ key, key ≠ Store.metricsKey → left.contents.get? key = right.contents.get? key

namespace Event

/-- A call to the store about the definitions only. -/
def IsDefining (event : Event) : Prop :=
  ∃ call answer, event = .store call answer ∧ call.Within (· = Store.metricsKey)

/-- An event that has nothing to do with the definitions. -/
def IsBookkeeping (event : Event) : Prop :=
  event.Within (· ≠ Store.metricsKey) ∨
    ∃ answer, event = .store (.scan Store.markerStart) answer

theorem written?_of_isDefining {event : Event} (defining : event.IsDefining) {key : String}
    (other : key ≠ Store.metricsKey) : event.written? key = none := by
  obtain ⟨call, answer, rfl, within⟩ := defining
  have own : (store call answer).Within (· = Store.metricsKey) := within
  exact written?_of_within own other

theorem written?_metricsKey_of_isBookkeeping {event : Event} (bookkeeping : event.IsBookkeeping) :
    event.written? Store.metricsKey = none := by
  rcases bookkeeping with within | ⟨answer, rfl⟩
  · exact written?_of_within within fun other => other rfl
  · cases answer <;> rfl

theorem isBookkeeping_of_isKeyOf {event : Event} {name : String}
    (within : event.Within (Store.IsKeyOf name)) : event.IsBookkeeping := by
  have other {key : String} (own : Store.IsKeyOf name key) : key ≠ Store.metricsKey := by
    rintro rfl
    exact Store.not_isKeyOf_metricsKey name own
  left
  cases event with
  | store call answer =>
      cases call with
      | get key => exact other within
      | getMany keys => exact fun key member => other (within key member)
      | set key value => exact other within
      | delete keys => exact fun key member => other (within key member)
      | scan start => exact within
      | ping => trivial
  | query _ _ _ | unanswered _ _ | gateway _ _ | wipe _ | clock _ | count _ _ | deadline => trivial

end Event

namespace Site.Alike

variable {left right : Site} {event : Event}

theorem refl (site : Site) : site.Alike site :=
  ⟨rfl, fun _ _ => rfl⟩

theorem symm (alike : left.Alike right) : right.Alike left :=
  ⟨alike.published.symm, fun key other => (alike.contents key other).symm⟩

/-- Events keep sites alike. -/
theorem after (alike : left.Alike right) (event : Event) :
    (left.after event).Alike (right.after event) where
  published := by
    have published := alike.published
    unfold Site.after
    split <;> simp [published]
  contents := by
    intro key other
    rw [get?_contents_after, get?_contents_after, alike.contents key other]

theorem after_defining (alike : left.Alike right) (defining : event.IsDefining) :
    (left.after event).Alike right where
  published := by
    obtain ⟨call, answer, rfl, -⟩ := defining
    cases answer <;> exact alike.published
  contents := by
    intro key other
    rw [get?_contents_after, Event.written?_of_isDefining defining other]
    exact alike.contents key other

/-- The markers that are there do not depend on the definitions. -/
theorem scan (alike : left.Alike right) :
    (Store.perform (.scan Store.markerStart) left.contents).1 =
      (Store.perform (.scan Store.markerStart) right.contents).1 := by
  have increasing (contents : Store.Contents) :
      (contents.keys.filter fun key =>
        Store.markerStart.toList.isPrefixOf key.toList).Pairwise (· < ·) :=
    contents.increasing.filter _
  apply Text.Set.toList_ext (increasing left.contents) (increasing right.contents)
  intro key
  rw [List.mem_filter, List.mem_filter]
  apply and_congr_left
  intro marker
  have other : key ≠ Store.metricsKey := by
    rintro rfl
    exact absurd marker (by decide)
  rw [Text.Map.mem_keys, Text.Map.mem_keys, alike.contents key other]

/-- What has nothing to do with the definitions may happen at alike sites. -/
theorem admits (alike : left.Alike right) (bookkeeping : event.IsBookkeeping)
    (admitted : left.Admits event) : right.Admits event := by
  rcases bookkeeping with within | ⟨answer, rfl⟩
  · exact admits_of_within within alike.contents admitted
  · cases answer with
    | error error => trivial
    | ok keys => exact Eq.trans admitted alike.scan

end Site.Alike

section Operations

variable {schedule : Schedule} {moments : List Moment}

namespace Cycle

theorem isBookkeeping_of_sideBySide {metrics : List Metric} {endings : List Ending}
    (aside : SideBySide schedule metrics endings moments) :
    ∀ moment ∈ moments, moment.event.IsBookkeeping := by
  intro moment member
  obtain ⟨index, metric, -, -, does⟩ := aside.does member
  exact Event.isBookkeeping_of_isKeyOf does.within

theorem isBookkeeping_of_samples {metrics : List Metric} {report : Report}
    (samples : Samples schedule metrics moments report) :
    ∀ moment ∈ moments, moment.event.IsBookkeeping := by
  obtain ⟨answer, others, rfl, continues⟩ := samples
  intro moment member
  rcases List.mem_append.mp member with first | later
  · obtain rfl := List.mem_singleton.mp first
    left
    intro key asked
    obtain ⟨name, -, rfl⟩ := List.mem_map.mp asked
    exact Store.markerKey_ne_metricsKey name
  · cases answer with
    | error error => exact absurd (continues.1 ▸ later) List.not_mem_nil
    | ok texts =>
        obtain ⟨now, passed, endings, finishes, rfl, -⟩ := continues
        obtain ⟨passed, counted, aside, counts, rfl⟩ := finishes_sampleAll_iff.mp finishes
        rcases List.mem_append.mp later with clock | rest
        · obtain rfl := List.mem_singleton.mp clock
          exact Or.inl trivial
        · rcases List.mem_append.mp rest with passing | counting
          · exact isBookkeeping_of_sideBySide aside moment passing
          · obtain ⟨event, found, rfl⟩ := List.mem_map.mp counting
            obtain ⟨counter, amount, rfl⟩ := exists_count_of_finishes_countLost counts event found
            exact Or.inl trivial

theorem isBookkeeping_of_finishes_reapAll {names : List String} {events : List Event}
    {reaped : Nat}
    (finishes : Program.Finishes Work.Answered (reapAll schedule names) events reaped) :
    ∀ event ∈ events, event.IsBookkeeping := by
  induction names generalizing events reaped with
  | nil =>
      obtain ⟨rfl, -⟩ := Program.finishes_done_iff.mp finishes
      exact nofun
  | cons name names hypothesis =>
      obtain ⟨first, removed, last, others, reaps, reapsAll, rfl, -⟩ :=
        finishes_reapAll_cons_iff.mp finishes
      intro event member
      rcases List.mem_append.mp member with early | later
      · rcases List.mem_append.mp early with own | counted
        · exact Event.isBookkeeping_of_isKeyOf (within_of_finishes_reapMetric reaps event own)
        · cases removed with
          | true =>
              obtain rfl := List.mem_singleton.mp counted
              exact Or.inl trivial
          | false => exact absurd counted List.not_mem_nil
      · exact hypothesis reapsAll event later

theorem isBookkeeping_of_finishes_reap {active : Text.Set} {events : List Event} {reaped : Nat}
    (finishes : Program.Finishes Work.Answered (reap schedule active) events reaped) :
    ∀ event ∈ events, event.IsBookkeeping := by
  obtain ⟨answer, others, rfl, continues⟩ := finishes_reap_iff.mp finishes
  intro event member
  rcases List.mem_cons.mp member with rfl | later
  · exact Or.inr ⟨answer, rfl⟩
  · cases answer with
    | error error => exact absurd (continues.1 ▸ later) List.not_mem_nil
    | ok keys => exact isBookkeeping_of_finishes_reapAll continues event later

theorem isBookkeeping_of_finishes_purge {events : List Event} {result : Except PurgeError Nat}
    (finishes : Program.Finishes Work.Answered purge events result) :
    ∀ event ∈ events, event.IsBookkeeping := by
  obtain ⟨answer, others, rfl, continues⟩ := finishes_purge_iff.mp finishes
  intro event member
  rcases List.mem_cons.mp member with rfl | later
  · exact Or.inl trivial
  · cases answer with
    | error error => exact absurd (continues.1 ▸ later) List.not_mem_nil
    | ok accepted =>
        obtain ⟨forgotten, forgets, -⟩ := continues
        rcases cases_of_finishes_forget forgets event later with
          ⟨answer, rfl⟩ | ⟨name, answer, rfl⟩
        · exact Or.inr ⟨answer, rfl⟩
        · apply Event.isBookkeeping_of_isKeyOf
          intro key member
          simpa [Store.IsKeyOf] using member

end Cycle

/-- An operation of the poller itself. -/
def Operation.IsPolling : Operation → Prop
  | cycle | purge => True
  | add _ | delete _ => False

/-- The poller reads the definitions in the beginning, if at all. -/
theorem Operation.Runs.exists_opening {operation : Operation}
    (runs : operation.Runs schedule moments) (polling : operation.IsPolling) :
    ∃ opening others, moments = Moment.ofMain opening ++ others ∧
      (opening = [] ∨ ∃ answer, opening = [.store (.get Store.metricsKey) answer]) ∧
      ∀ moment ∈ others, moment.event.IsBookkeeping := by
  cases operation with
  | cycle =>
      obtain ⟨report, finishes⟩ := runs
      obtain ⟨done, does, rfl⟩ := Cycle.finishes_cycle_iff.mp finishes
      obtain ⟨answer, others, rfl, continues⟩ := Cycle.finishes_body_iff.mp does
      refine ⟨_, _, List.append_assoc _ _ _, Or.inr ⟨answer, rfl⟩, List.forall_mem_append.mpr
        ⟨?_, List.forall_mem_singleton.mpr (Or.inl trivial)⟩⟩
      cases read : Store.reading Store.metricsKey Store.metricsIn? answer with
      | error error =>
          rw [read] at continues
          obtain ⟨rfl, -⟩ := continues
          exact nofun
      | ok metrics =>
          rw [read] at continues
          obtain ⟨sampled, sampling, reaped, count, samples, reaps, rfl, -⟩ := continues
          intro moment member
          rcases List.mem_append.mp member with sampling | reaping
          · exact Cycle.isBookkeeping_of_samples samples moment sampling
          · obtain ⟨event, found, rfl⟩ := List.mem_map.mp reaping
            exact Cycle.isBookkeeping_of_finishes_reap reaps event found
  | purge =>
      obtain ⟨events, result, finishes, rfl⟩ := runs
      refine ⟨[], _, rfl, Or.inl rfl, ?_⟩
      intro moment member
      obtain ⟨event, found, rfl⟩ := List.mem_map.mp member
      exact Cycle.isBookkeeping_of_finishes_purge finishes event found
  | add metric => exact polling.elim
  | delete name => exact polling.elim

end Operations

namespace Site

variable {site other : Site} {steps : List Step}

/-- The site after some steps. -/
def afterSteps (site : Site) (steps : List Step) : Site :=
  site.afterAll (steps.map Step.event)

theorem afterSteps_append (site : Site) (left right : List Step) :
    site.afterSteps (left ++ right) = (site.afterSteps left).afterSteps right := by
  rw [afterSteps, List.map_append, afterAll_append]
  rfl

theorem lawful_steps_append {left right : List Step} :
    site.Lawful ((left ++ right).map Step.event) ↔
      site.Lawful (left.map Step.event) ∧
        (site.afterSteps left).Lawful (right.map Step.event) := by
  rw [List.map_append, lawful_append]
  rfl

/-- What the poller does apart from the definitions could also happen without
the changes. -/
theorem lawful_moments (alike : site.Alike other)
    (lawful : site.Lawful (steps.map Step.event))
    (changes : ∀ index event, .change index event ∈ steps → event.IsDefining)
    (bookkeeping : ∀ moment ∈ Step.moments steps, moment.event.IsBookkeeping) :
    other.Lawful ((Step.moments steps).map Moment.event) ∧
      (site.afterSteps steps).Alike
        (other.afterAll ((Step.moments steps).map Moment.event)) := by
  induction steps generalizing site other with
  | nil => exact ⟨trivial, alike⟩
  | cons step steps hypothesis =>
      obtain ⟨admitted, lawful⟩ := lawful
      have changesLater : ∀ index event, .change index event ∈ steps → event.IsDefining :=
        fun index event member => changes index event (List.mem_cons_of_mem step member)
      cases step with
      | poller moment =>
          rw [Step.moments_poller] at bookkeeping ⊢
          obtain ⟨later, same⟩ := hypothesis (alike.after moment.event) lawful changesLater
            fun next member => bookkeeping next (List.mem_cons_of_mem moment member)
          exact ⟨⟨alike.admits (bookkeeping moment List.mem_cons_self) admitted, later⟩, same⟩
      | change index event =>
          exact hypothesis (alike.after_defining (changes index event List.mem_cons_self)) lawful
            changesLater bookkeeping

end Site

/-- Operations of the poller go like this one after another, from a site on,
while definitions are changed at any time. -/
structure Timeline (schedule : Schedule) (site : Site) (operations : List (List Moment))
    (steps : List Step) : Prop where
  /-- What the poller does are its operations. -/
  moments : Step.moments steps = operations.flatten
  /-- Each of them is a cycle or a purge. -/
  operations : ∀ moments ∈ operations,
    ∃ operation : Operation, operation.IsPolling ∧ operation.Runs schedule moments
  /-- Everything else is about the definitions. -/
  changes : ∀ index event, .change index event ∈ steps → event.IsDefining
  /-- What the store says is what it holds. -/
  lawful : site.Lawful (steps.map Step.event)

/-- An operation during which definitions are changed could go the same at
once, from some moment before it did anything. -/
theorem Operation.Runs.exists_lawful {schedule : Schedule} {operation : Operation} {site : Site}
    {steps : List Step} (runs : operation.Runs schedule (Step.moments steps))
    (polling : operation.IsPolling) (lawful : site.Lawful (steps.map Step.event))
    (changes : ∀ index event, .change index event ∈ steps → event.IsDefining) :
    ∃ first last, steps = first ++ last ∧ Step.moments first = [] ∧
      (site.afterSteps first).Lawful ((Step.moments steps).map Moment.event) ∧
      ((site.afterSteps first).afterAll ((Step.moments steps).map Moment.event)).Alike
        (site.afterSteps steps) := by
  obtain ⟨opening, others, shape, opens, bookkeeping⟩ := runs.exists_opening polling
  rcases opens with rfl | ⟨answer, rfl⟩
  · obtain ⟨possible, alike⟩ := Site.lawful_moments (.refl site) lawful changes
      (by rw [shape]; exact bookkeeping)
    exact ⟨[], steps, rfl, rfl, possible, alike.symm⟩
  · obtain ⟨first, step, last, rfl, silent, reads, rest⟩ := List.filterMap_eq_cons_iff.mp shape
    have nothing : Step.moments first = [] := List.filterMap_eq_nil_iff.mpr silent
    cases step with
    | change index event => cases reads
    | poller moment =>
        obtain rfl := Option.some.inj reads
        obtain ⟨-, admitted, later⟩ := Site.lawful_steps_append.mp lawful
        have quiet := Event.isQuiet_get Store.metricsKey answer (site.afterSteps first)
        rw [Step.event, quiet] at later
        obtain ⟨possible, alike⟩ := Site.lawful_moments (.refl _) later
          (fun index event member => changes index event (by simp [member]))
          (by rw [Step.moments, rest]; exact bookkeeping)
        refine ⟨first, _, rfl, nothing, ?_, ?_⟩
        · rw [Step.moments_append, nothing, List.nil_append, Step.moments_poller, List.map_cons]
          exact ⟨admitted, by rw [quiet]; exact possible⟩
        · rw [Step.moments_append, nothing, List.nil_append, Step.moments_poller, List.map_cons,
            Site.afterSteps_append, Site.afterAll_cons, quiet]
          have same : (site.afterSteps first).afterSteps
                (.poller ⟨.main, .store (.get Store.metricsKey) answer⟩ :: last) =
              (site.afterSteps first).afterSteps last :=
            congrArg (Site.afterAll · (last.map Step.event)) quiet
          rw [same]
          exact alike.symm

namespace Timeline

variable {schedule : Schedule} {site : Site} {operations : List (List Moment)} {steps : List Step}

/-- What does not depend on the definitions, and what each operation carries
from the site at which it reads them to the site that it leaves, holds after a
timeline. -/
theorem induct {P : List (List Moment) → Site → Prop}
    (timeline : Timeline schedule site operations steps)
    (alike : ∀ past left right, Site.Alike left right → P past left → P past right)
    (start : P [] site)
    (operation : ∀ past moments future earlier later (operation : Operation),
      operations = past ++ moments :: future → steps = earlier ++ later →
      operation.Runs schedule moments → operation.IsPolling →
      (site.afterSteps earlier).Lawful (moments.map Moment.event) →
      P past (site.afterSteps earlier) →
        P (past ++ [moments]) ((site.afterSteps earlier).afterAll (moments.map Moment.event))) :
    P operations (site.afterSteps steps) := by
  have onward (future : List (List Moment)) : ∀ past earlier later,
      operations = past ++ future → steps = earlier ++ later →
      Step.moments later = future.flatten → P past (site.afterSteps earlier) →
        P operations (site.afterSteps steps) := by
    induction future with
    | nil =>
        rintro past earlier later rfl rfl none before
        obtain ⟨-, same⟩ := Site.lawful_moments (.refl _)
          (Site.lawful_steps_append.mp timeline.lawful).2
          (fun index event member => timeline.changes index event (by simp [member]))
          (by rw [none]; exact nofun)
        rw [none, List.flatten_nil, List.map_nil, Site.afterAll_nil,
          ← Site.afterSteps_append] at same
        rw [List.append_nil]
        exact alike past _ _ same.symm before
    | cons moments future hypothesis =>
        rintro past earlier later shape rfl own before
        obtain ⟨segment, rest, rfl, rfl, others⟩ := List.filterMap_eq_append_iff.mp own
        obtain ⟨kind, polling, runs⟩ :=
          timeline.operations (Step.moments segment) (by simp [shape, Step.moments])
        have changes : ∀ index event, .change index event ∈ segment → event.IsDefining :=
          fun index event member => timeline.changes index event (by simp [member])
        have lawful := (Site.lawful_steps_append.mp
          (Site.lawful_steps_append.mp timeline.lawful).2).1
        obtain ⟨first, last, rfl, none, possible, same⟩ :=
          runs.exists_lawful polling lawful changes
        have early := (Site.lawful_moments (.refl _) (Site.lawful_steps_append.mp lawful).1
          (fun index event member => changes index event (by simp [member]))
          (by rw [none]; exact nofun)).2
        rw [none, List.map_nil, Site.afterAll_nil] at early
        rw [← Site.afterSteps_append] at possible same early
        rw [← Site.afterSteps_append] at same
        have after := operation past _ future (earlier ++ first) (last ++ rest) kind shape
          (by simp) runs polling possible (alike past _ _ early.symm before)
        exact hypothesis (past ++ [Step.moments (first ++ last)]) (earlier ++ (first ++ last)) rest
          (by simp [shape, Step.moments]) (by simp) others (alike _ _ _ same after)
  exact onward operations [] [] steps rfl rfl timeline.moments start

/-- What was done up to some time is a timeline. -/
theorem initial {past future : List (List Moment)} {earlier later : List Step}
    (timeline : Timeline schedule site (past ++ future) (earlier ++ later))
    (before : Step.moments earlier = past.flatten) : Timeline schedule site past earlier where
  moments := before
  operations := fun moments member =>
    timeline.operations moments (List.mem_append_left future member)
  changes := fun index event member =>
    timeline.changes index event (List.mem_append_left later member)
  lawful := (Site.lawful_steps_append.mp timeline.lawful).1

/-- What is next after some operations could happen at a site that is alike. -/
theorem exists_alike {past future : List (List Moment)} {moments : List Moment}
    {earlier later : List Step}
    (timeline : Timeline schedule site (past ++ moments :: future) (earlier ++ later))
    (before : Step.moments earlier = past.flatten) :
    ∃ there, (site.afterSteps earlier).Alike there ∧ there.Lawful (moments.map Moment.event) := by
  have own : Step.moments later = moments ++ future.flatten := by
    have whole := timeline.moments
    rw [Step.moments_append, before, List.flatten_append] at whole
    exact List.append_cancel_left whole
  obtain ⟨segment, rest, rfl, rfl, -⟩ := List.filterMap_eq_append_iff.mp own
  obtain ⟨kind, polling, runs⟩ :=
    timeline.operations (Step.moments segment) (by simp [Step.moments])
  have lawful := (Site.lawful_steps_append.mp
    (Site.lawful_steps_append.mp timeline.lawful).2).1
  obtain ⟨first, last, rfl, none, possible, -⟩ := runs.exists_lawful polling lawful
    fun index event member => timeline.changes index event (by simp [member])
  have early := (Site.lawful_moments (.refl _) (Site.lawful_steps_append.mp lawful).1
    (fun index event member => timeline.changes index event (by simp [member]))
    (by rw [none]; exact nofun)).2
  rw [none, List.map_nil, Site.afterAll_nil] at early
  exact ⟨_, early.symm, possible⟩

end Timeline

end InventoryGauges

import InventoryGauges.Proofs.Execution.Event

/-!
# Actors side by side

The events of a cycle belong to actors, the cycle itself and its passes.  What
an actor does to keys that nobody else writes is what it would have done alone.
-/

namespace InventoryGauges

/-- Who does something in an operation. -/
inductive Actor
  /-- The operation itself. -/
  | main
  /-- The pass of a metric, by its place among the passes side by side. -/
  | pass (index : Nat)
  deriving DecidableEq, Repr

/-- An event and whose it is. -/
structure Moment where
  /-- The actor. -/
  actor : Actor
  /-- The event. -/
  event : Event

namespace Moment

/-- The events of one actor in their order. -/
def eventsOf (actor : Actor) (moments : List Moment) : List Event :=
  (moments.filter fun moment => moment.actor = actor).map event

/-- Events of the operation itself. -/
def ofMain (events : List Event) : List Moment :=
  events.map (Moment.mk .main)

@[simp] theorem eventsOf_nil (actor : Actor) : eventsOf actor [] = [] := rfl

theorem eventsOf_cons (actor : Actor) (moment : Moment) (moments : List Moment) :
    eventsOf actor (moment :: moments) =
      if moment.actor = actor then moment.event :: eventsOf actor moments
      else eventsOf actor moments := by
  by_cases same : moment.actor = actor <;> simp [eventsOf, same]

@[simp] theorem eventsOf_append (actor : Actor) (left right : List Moment) :
    eventsOf actor (left ++ right) = eventsOf actor left ++ eventsOf actor right := by
  simp [eventsOf]

theorem mem_eventsOf {actor : Actor} {event : Event} {moments : List Moment} :
    event ∈ eventsOf actor moments ↔ ⟨actor, event⟩ ∈ moments := by
  constructor
  · intro member
    obtain ⟨moment, kept, rfl⟩ := List.mem_map.mp member
    obtain ⟨found, same⟩ := List.mem_filter.mp kept
    obtain rfl := of_decide_eq_true same
    exact found
  · intro member
    exact List.mem_map.mpr ⟨_, List.mem_filter.mpr ⟨member, by simp⟩, rfl⟩

/-- A split of an actor's events is a split of the moments. -/
theorem exists_split_of_eventsOf {actor : Actor} {event : Event} {first last : List Event}
    {moments : List Moment} (split : eventsOf actor moments = first ++ event :: last) :
    ∃ earlier later, moments = earlier ++ ⟨actor, event⟩ :: later ∧
      eventsOf actor earlier = first ∧ eventsOf actor later = last := by
  induction moments generalizing first with
  | nil => exact absurd split (by simp)
  | cons moment moments hypothesis =>
      rw [eventsOf_cons] at split
      by_cases same : moment.actor = actor
      · rw [if_pos same] at split
        cases first with
        | nil =>
            obtain ⟨rfl, rfl⟩ := List.cons.inj split
            exact ⟨[], moments, by rw [← same]; rfl, rfl, rfl⟩
        | cons head first =>
            obtain ⟨rfl, rest⟩ := List.cons.inj split
            obtain ⟨earlier, later, rfl, rfl, rfl⟩ := hypothesis rest
            refine ⟨moment :: earlier, later, rfl, ?_, rfl⟩
            rw [eventsOf_cons, if_pos same]
      · rw [if_neg same] at split
        obtain ⟨earlier, later, rfl, rfl, rfl⟩ := hypothesis split
        refine ⟨moment :: earlier, later, rfl, ?_, rfl⟩
        rw [eventsOf_cons, if_neg same]

theorem eventsOf_map_mk (actor : Actor) (events : List Event) :
    eventsOf actor (events.map (Moment.mk actor)) = events := by
  induction events with
  | nil => rfl
  | cons event events hypothesis =>
      rw [List.map_cons, eventsOf_cons, if_pos rfl]
      exact congrArg _ hypothesis

theorem eventsOf_map_mk_of_ne {actor other : Actor} (different : other ≠ actor)
    (events : List Event) : eventsOf actor (events.map (Moment.mk other)) = [] := by
  apply List.eq_nil_iff_forall_not_mem.mpr
  intro event member
  obtain ⟨_, -, equal⟩ := List.mem_map.mp (mem_eventsOf.mp member)
  exact different (congrArg Moment.actor equal)

theorem eventsOf_ofMain (events : List Event) : eventsOf .main (ofMain events) = events :=
  eventsOf_map_mk .main events

theorem eventsOf_pass_ofMain (index : Nat) (events : List Event) :
    eventsOf (.pass index) (ofMain events) = [] :=
  eventsOf_map_mk_of_ne (nofun : Actor.main ≠ .pass index) events

@[simp] theorem map_event_ofMain (events : List Event) : (ofMain events).map event = events := by
  simp [ofMain, Function.comp_def]

@[simp] theorem ofMain_append (left right : List Event) :
    ofMain (left ++ right) = ofMain left ++ ofMain right :=
  List.map_append

end Moment

namespace Site

/-- What may happen at a site may also happen at one that agrees on the keys
that are used. -/
theorem admits_of_within {keys : String → Prop} {event : Event} {site other : Site}
    (within : event.Within keys)
    (agree : ∀ key, keys key → site.contents.get? key = other.contents.get? key)
    (admitted : site.Admits event) : other.Admits event := by
  cases event with
  | store call answer =>
      cases answer with
      | error error => trivial
      | ok value => exact admitted.trans (Store.perform_eq_of_within within agree)
  | query _ _ _ | unanswered _ _ | gateway _ _ | wipe _ | clock _ | count _ _ | deadline =>
      trivial

/-- A key that only one actor writes holds what this actor leaves. -/
theorem get?_contents_eventsOf {actor : Actor} {moments : List Moment} {site lone : Site}
    {key : String}
    (others : ∀ moment ∈ moments, moment.actor ≠ actor → moment.event.written? key = none)
    (agree : lone.contents.get? key = site.contents.get? key) :
    (lone.afterAll (Moment.eventsOf actor moments)).contents.get? key =
      (site.afterAll (moments.map Moment.event)).contents.get? key := by
  induction moments generalizing site lone with
  | nil => exact agree
  | cons moment moments hypothesis =>
      have othersLater : ∀ other ∈ moments, other.actor ≠ actor →
          other.event.written? key = none :=
        fun other member => others other (List.mem_cons_of_mem moment member)
      by_cases same : moment.actor = actor
      · rw [Moment.eventsOf_cons, if_pos same]
        refine hypothesis othersLater ?_
        rw [get?_contents_after, get?_contents_after, agree]
      · rw [Moment.eventsOf_cons, if_neg same]
        refine hypothesis othersLater ?_
        rw [get?_contents_after, others moment List.mem_cons_self same, agree]
        rfl

/-- What an actor does to keys that nobody else writes could also happen
without the others, and leaves the same under these keys. -/
theorem lawful_eventsOf {keys : String → Prop} {actor : Actor} {moments : List Moment}
    {site lone : Site}
    (within : ∀ event ∈ Moment.eventsOf actor moments, event.Within keys)
    (others : ∀ moment ∈ moments, moment.actor ≠ actor →
      ∀ key, keys key → moment.event.written? key = none)
    (agree : ∀ key, keys key → lone.contents.get? key = site.contents.get? key)
    (lawful : site.Lawful (moments.map Moment.event)) :
    lone.Lawful (Moment.eventsOf actor moments) ∧
      ∀ key, keys key →
        (lone.afterAll (Moment.eventsOf actor moments)).contents.get? key =
          (site.afterAll (moments.map Moment.event)).contents.get? key := by
  induction moments generalizing site lone with
  | nil => exact ⟨trivial, agree⟩
  | cons moment moments hypothesis =>
      obtain ⟨admitted, lawful⟩ := lawful
      have othersLater : ∀ other ∈ moments, other.actor ≠ actor →
          ∀ key, keys key → other.event.written? key = none :=
        fun other member => others other (List.mem_cons_of_mem moment member)
      by_cases same : moment.actor = actor
      · rw [Moment.eventsOf_cons, if_pos same] at within ⊢
        have withinNow := within moment.event List.mem_cons_self
        have agreeAfter : ∀ key, keys key →
            (lone.after moment.event).contents.get? key =
              (site.after moment.event).contents.get? key := by
          intro key inKeys
          rw [get?_contents_after, get?_contents_after, agree key inKeys]
        obtain ⟨laterLawful, laterAgree⟩ := hypothesis
          (fun event member => within event (List.mem_cons_of_mem moment.event member))
          othersLater agreeAfter lawful
        refine ⟨⟨?_, laterLawful⟩, laterAgree⟩
        exact admits_of_within withinNow (fun key inKeys => (agree key inKeys).symm) admitted
      · rw [Moment.eventsOf_cons, if_neg same] at within ⊢
        have agreeAfter : ∀ key, keys key →
            lone.contents.get? key = (site.after moment.event).contents.get? key := by
          intro key inKeys
          rw [get?_contents_after, others moment List.mem_cons_self same key inKeys,
            agree key inKeys]
          rfl
        exact hypothesis within othersLater agreeAfter lawful

end Site
end InventoryGauges

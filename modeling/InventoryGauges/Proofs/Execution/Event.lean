import InventoryGauges.Store.Bookkeeping
import InventoryGauges.Store.Memory
import InventoryGauges.Work

/-!
# Events and the site they happen at

What a poller does is told as a list of events: each call to the store, the
inventory or the gateway with its answer, and each reading of the clock.  The
site is what these calls act upon, the contents of the store and the gauges
that are live at the gateway.
-/

namespace InventoryGauges

/-- Something that happens between a poller and its surroundings. -/
inductive Event
  /-- A call to the store. -/
  | store (call : Store.Call) (answer : call.Answer)
  /-- A class query. -/
  | query (className filter : String)
      (answer : Except Inventory.Error (List Inventory.Object))
  /-- A class query that is never answered. -/
  | unanswered (className filter : String)
  /-- A call to the gateway. -/
  | gateway (call : Gateway.Call) (answer : Gateway.Answer)
  /-- A wipe of the gateway. -/
  | wipe (answer : Gateway.Answer)
  /-- A reading of the wall clock. -/
  | clock (time : Timestamp)
  /-- A counter that is raised. -/
  | count (counter : Counter) (amount : Nat)
  /-- The longest time that a pass may take is over. -/
  | deadline

namespace Store

/-- The value that a call gives to a key when it succeeds; none if it leaves
the key alone. -/
def Call.written? (key : String) : Call → Option (Option String)
  | .set other value => if key = other then some (some value) else none
  | .delete keys => if key ∈ keys then some none else none
  | _ => none

/-- A call that reads and writes only some keys. -/
def Call.Within (keys : String → Prop) : Call → Prop
  | .get key => keys key
  | .getMany others => ∀ key ∈ others, keys key
  | .set key _ => keys key
  | .delete others => ∀ key ∈ others, keys key
  | .scan _ => False
  | .ping => True

theorem Call.written?_of_within {call : Call} {keys : String → Prop} {key : String}
    (within : call.Within keys) (outside : ¬ keys key) : call.written? key = none := by
  cases call with
  | set other text =>
      have different : key ≠ other := fun equal => outside (equal ▸ within)
      exact if_neg different
  | delete others =>
      have absent : ¬ key ∈ others := fun member => outside (within key member)
      exact if_neg absent
  | get _ | getMany _ | scan _ | ping => rfl

theorem get?_perform (call : Call) (contents : Contents) (key : String) :
    (perform call contents).2.get? key = (call.written? key).getD (contents.get? key) := by
  cases call with
  | set other value =>
      rw [perform, Text.Map.get?_insert, Call.written?]
      split <;> rfl
  | delete keys =>
      rw [perform, Text.Map.get?_eraseAll, Call.written?]
      split <;> rfl
  | get _ | getMany _ | scan _ | ping => rfl

/-- A call gives the same on contents that agree on the keys it uses. -/
theorem perform_eq_of_within {call : Call} {keys : String → Prop} {left right : Contents}
    (within : call.Within keys) (agree : ∀ key, keys key → left.get? key = right.get? key) :
    (perform call left).1 = (perform call right).1 := by
  cases call with
  | get key => exact agree key within
  | getMany others => exact List.map_congr_left fun key member => agree key (within key member)
  | scan start => exact False.elim within
  | set _ _ | delete _ | ping => rfl

end Store

namespace Event

/-- A call to the gateway that ended, as an event. -/
def ofEnded (ended : Gateway.Ended) : Event :=
  .gateway ended.1 ended.2

/-- The value that an event gives to a key of the store; none if it leaves the
key alone. -/
def written? (key : String) : Event → Option (Option String)
  | .store call (.ok _) => call.written? key
  | _ => none

/-- An event whose call to the store, if it is one, uses only some keys. -/
def Within (keys : String → Prop) : Event → Prop
  | .store call _ => call.Within keys
  | _ => True

/-- A call to the store that failed. -/
def IsStoreFailure : Event → Prop
  | .store _ (.error _) => True
  | _ => False

/-- A call to the store about a key that failed. -/
def IsFailureAt (key : String) : Event → Prop
  | .store call (.error _) => key ∈ call.keys
  | _ => False

/-- A call to the store that failed because of what is stored. -/
def IsCorruption : Event → Prop
  | .store _ (.error (.corrupt _ _)) => True
  | _ => False

/-- A call to the store that failed to mark a name. -/
def FailsToMark (name : String) : Event → Prop
  | .store (.set key _) (.error _) => key = Store.markerKey name
  | _ => False

/-- If a list of definitions is read, its names are unique. -/
def LoadsUnique : Event → Prop
  | .store (.get key) (.ok (some text)) =>
      key = Store.metricsKey → ∀ metrics, Metric.ofListText? text = some metrics →
        (metrics.map Metric.name).Nodup
  | _ => True

/-- What an event leaves at the gateway under an identity; none if it leaves
the gauge alone. -/
def left? (id : String) : Event → Option (Option Gauge.Sample)
  | .gateway (.push sample) (.ok ()) => if id = sample.id then some (some sample) else none
  | .gateway (.delete other) (.ok ()) => if id = other then some none else none
  | .wipe (.ok ()) => some none
  | _ => none

/-- A call to the gateway that failed. -/
def IsGatewayFailure : Event → Prop
  | .gateway _ (.error _) => True
  | .wipe (.error _) => True
  | _ => False

/-- The gateway accepted to withdraw the gauge of an identity, or all of them. -/
def Withdraws (id : String) : Event → Prop
  | .gateway (.delete other) (.ok ()) => id = other
  | .wipe (.ok ()) => True
  | _ => False

theorem written?_of_call {call : Store.Call} {key : String} (untouched : call.written? key = none)
    (answer : call.Answer) : (store call answer).written? key = none := by
  cases answer with
  | error error => rfl
  | ok value => exact untouched

theorem written?_of_within {event : Event} {keys : String → Prop} {key : String}
    (within : event.Within keys) (outside : ¬ keys key) : event.written? key = none := by
  cases event with
  | store call answer =>
      exact written?_of_call (Store.Call.written?_of_within within outside) answer
  | query _ _ _ | unanswered _ _ | gateway _ _ | wipe _ | clock _ | count _ _ | deadline => rfl

theorem written?_get (key other : String) (answer : Except Store.Error (Option String)) :
    (store (.get other) answer).written? key = none := by
  cases answer <;> rfl

theorem written?_set_self (key value : String) :
    (store (.set key value) (.ok ())).written? key = some (some value) :=
  if_pos rfl

theorem written?_set_of_ne {key other : String} (different : key ≠ other) (value : String)
    (answer : Except Store.Error Unit) :
    (store (.set other value) answer).written? key = none := by
  have untouched : (Store.Call.set other value).written? key = none := if_neg different
  exact written?_of_call untouched answer

theorem eq_of_written?_set {key other value : String} {value? : Option String}
    {answer : Except Store.Error Unit}
    (written : (store (.set other value) answer).written? key = some value?) :
    key = other ∧ value? = some value := by
  by_cases same : key = other
  · subst same
    cases answer with
    | error error => cases written
    | ok done => exact ⟨rfl, Option.some.inj (written.symm.trans (written?_set_self _ _))⟩
  · rw [written?_set_of_ne same] at written
    cases written

theorem written?_delete_of_not_mem {key : String} {keys : List String} (absent : ¬ key ∈ keys)
    (answer : Except Store.Error Unit) : (store (.delete keys) answer).written? key = none := by
  have untouched : (Store.Call.delete keys).written? key = none := if_neg absent
  exact written?_of_call untouched answer

theorem isStoreFailure_of_isFailureAt {event : Event} {key : String}
    (fails : event.IsFailureAt key) : event.IsStoreFailure := by
  cases event with
  | store call answer =>
      cases answer with
      | error error => trivial
      | ok value => exact fails.elim
  | query _ _ _ | unanswered _ _ | gateway _ _ | wipe _ | clock _ | count _ _ | deadline =>
      exact fails.elim

theorem IsCorruption.isStoreFailure {event : Event} (corrupt : event.IsCorruption) :
    event.IsStoreFailure := by
  unfold IsCorruption at corrupt
  split at corrupt
  · trivial
  · exact corrupt.elim

theorem FailsToMark.isStoreFailure {event : Event} {name : String}
    (fails : event.FailsToMark name) : event.IsStoreFailure := by
  unfold FailsToMark at fails
  split at fails
  · trivial
  · exact fails.elim

theorem isCorruption_of_not_isRecoverable {call : Store.Call} {error : Store.Error}
    (lasting : ¬ error.isRecoverable) : (store call (.error error)).IsCorruption := by
  cases error with
  | corrupt key message => trivial
  | backend _ | timeout _ _ => exact absurd rfl lasting

theorem exists_ok_of_works {call : Store.Call} {answer : call.Answer} {key : String}
    (works : ¬ (store call answer).IsFailureAt key) (member : key ∈ call.keys) :
    ∃ value, answer = .ok value := by
  cases answer with
  | error error => exact absurd member works
  | ok value => exact ⟨value, rfl⟩

theorem eq_ok_of_works {key value : String} {answer : Except Store.Error Unit}
    (works : ¬ (store (.set key value) answer).IsFailureAt key) : answer = .ok () := by
  obtain ⟨done, rfl⟩ := exists_ok_of_works works List.mem_cons_self
  rfl

theorem eq_delete_of_withdraws {event : Event} {id : String}
    (unwiped : ∀ answer, event ≠ .wipe answer) (withdraws : event.Withdraws id) :
    event = .gateway (.delete id) (.ok ()) := by
  unfold Withdraws at withdraws
  split at withdraws
  · rw [withdraws]
  · exact absurd rfl (unwiped _)
  · exact withdraws.elim

theorem left?_eq_some_none {id : String} {event : Event} :
    event.left? id = some none ↔ event.Withdraws id := by
  unfold left? Withdraws
  split <;> simp

end Event

/-- What the calls of a poller act upon. -/
structure Site where
  /-- The contents of the store. -/
  contents : Store.Contents
  /-- The gauges that are live at the gateway, by their identities. -/
  published : Text.Map Gauge.Sample

namespace Site

/-- The site where nothing is stored and nothing is live. -/
def empty : Site := ⟨Text.Map.empty, Text.Map.empty⟩

/-- The site after an event.  What is refused or fails changes nothing. -/
def after (site : Site) : Event → Site
  | .store call (.ok _) => { site with contents := (Store.perform call site.contents).2 }
  | .gateway (.push sample) (.ok ()) =>
      { site with published := site.published.insert sample.id sample }
  | .gateway (.delete id) (.ok ()) =>
      { site with published := site.published.eraseAll [id] }
  | .wipe (.ok ()) => { site with published := Text.Map.empty }
  | _ => site

/-- The site after some events. -/
def afterAll (site : Site) (events : List Event) : Site :=
  events.foldl after site

/-- What a call to the store gives when it succeeds is what the contents say. -/
def Admits (site : Site) : Event → Prop
  | .store call (.ok value) => value = (Store.perform call site.contents).1
  | _ => True

/-- Events that may happen at a site one after another. -/
def Lawful : Site → List Event → Prop
  | _, [] => True
  | site, event :: events => site.Admits event ∧ (site.after event).Lawful events

@[simp] theorem afterAll_nil (site : Site) : site.afterAll [] = site := rfl

@[simp] theorem afterAll_cons (site : Site) (event : Event) (events : List Event) :
    site.afterAll (event :: events) = (site.after event).afterAll events := rfl

@[simp] theorem afterAll_append (site : Site) (left right : List Event) :
    site.afterAll (left ++ right) = (site.afterAll left).afterAll right :=
  List.foldl_append

@[simp] theorem lawful_nil (site : Site) : site.Lawful [] := trivial

@[simp] theorem lawful_cons {site : Site} {event : Event} {events : List Event} :
    site.Lawful (event :: events) ↔ site.Admits event ∧ (site.after event).Lawful events :=
  Iff.rfl

theorem lawful_append {site : Site} {left right : List Event} :
    site.Lawful (left ++ right) ↔ site.Lawful left ∧ (site.afterAll left).Lawful right := by
  induction left generalizing site with
  | nil => simp
  | cons event left hypothesis => simp [hypothesis, and_assoc]

theorem get?_contents_after (site : Site) (event : Event) (key : String) :
    (site.after event).contents.get? key =
      (event.written? key).getD (site.contents.get? key) := by
  unfold after Event.written?
  split <;> simp_all [Store.get?_perform]

/-- A key that no event writes keeps its value. -/
theorem get?_contents_afterAll {site : Site} {events : List Event} {key : String}
    (untouched : ∀ event ∈ events, event.written? key = none) :
    (site.afterAll events).contents.get? key = site.contents.get? key := by
  induction events generalizing site with
  | nil => rfl
  | cons event events hypothesis =>
      rw [afterAll_cons, hypothesis fun other member => untouched other (by simp [member]),
        get?_contents_after, untouched event (by simp)]
      rfl

/-- What is true of a key's value, and of each value that is written for it,
is true after some events. -/
theorem get?_contents_afterAll_induct {P : Option String → Prop} {site : Site}
    {events : List Event} {key : String} (start : P (site.contents.get? key))
    (writes : ∀ event ∈ events, ∀ value?, event.written? key = some value? → P value?) :
    P ((site.afterAll events).contents.get? key) := by
  induction events generalizing site with
  | nil => exact start
  | cons event events hypothesis =>
      refine hypothesis ?_ fun other member => writes other (List.mem_cons_of_mem event member)
      rw [get?_contents_after]
      cases written : event.written? key with
      | none => exact start
      | some value? => exact writes event List.mem_cons_self value? written

/-- What is true of each value that is written for a key is true after some
events, if one of them writes the key. -/
theorem get?_contents_afterAll_of_written {P : Option String → Prop} {site : Site}
    {events : List Event} {key : String} (written : ∃ event ∈ events, event.written? key ≠ none)
    (writes : ∀ event ∈ events, ∀ value?, event.written? key = some value? → P value?) :
    P ((site.afterAll events).contents.get? key) := by
  obtain ⟨event, member, some⟩ := written
  obtain ⟨value?, written⟩ := Option.ne_none_iff_exists'.mp some
  obtain ⟨first, last, rfl⟩ := List.append_of_mem member
  rw [afterAll_append, afterAll_cons]
  apply get?_contents_afterAll_induct
  · rw [get?_contents_after, written]
    exact writes event member value? written
  · exact fun other later => writes other (by simp [later])

theorem get?_published_after (site : Site) (event : Event) (id : String) :
    (site.after event).published.get? id =
      (event.left? id).getD (site.published.get? id) := by
  cases event with
  | gateway call answer =>
      cases answer with
      | error error => cases call <;> rfl
      | ok accepted =>
          cases call with
          | push sample =>
              simp only [after, Event.left?, Text.Map.get?_insert]
              split <;> rfl
          | delete other =>
              simp only [after, Event.left?, Text.Map.get?_eraseAll, List.mem_singleton]
              split <;> rfl
  | wipe answer => cases answer <;> rfl
  | store call answer => cases answer <;> rfl
  | query _ _ _ | unanswered _ _ | clock _ | count _ _ | deadline => rfl

/-- A gauge that is live after an event was accepted in it, or was live before
and not withdrawn. -/
theorem published_of_after {site : Site} {event : Event} {id : String}
    {sample : Gauge.Sample} (live : (site.after event).published.get? id = some sample) :
    event = .gateway (.push sample) (.ok ()) ∧ sample.id = id ∨
      site.published.get? id = some sample ∧ ¬ event.Withdraws id := by
  rw [get?_published_after] at live
  cases left : event.left? id with
  | none =>
      rw [left] at live
      refine Or.inr ⟨live, fun withdraws => ?_⟩
      rw [Event.left?_eq_some_none.mpr withdraws] at left
      exact absurd left (by simp)
  | some sample? =>
      rw [left, Option.getD_some] at live
      subst live
      unfold Event.left? at left
      split at left
      · split at left
        · rename_i equal
          simp only [Option.some.injEq] at left
          subst left
          exact Or.inl ⟨rfl, equal.symm⟩
        · exact absurd left (by simp)
      · split at left <;> simp at left
      · simp at left
      · simp at left

/-- A gauge that is live after some events was accepted in one of them, or was
live before and never withdrawn. -/
theorem published_of_afterAll {site : Site} {events : List Event} {id : String}
    {sample : Gauge.Sample} (live : (site.afterAll events).published.get? id = some sample) :
    .gateway (.push sample) (.ok ()) ∈ events ∧ sample.id = id ∨
      site.published.get? id = some sample ∧ ∀ event ∈ events, ¬ event.Withdraws id := by
  induction events generalizing site with
  | nil => exact Or.inr ⟨live, by simp⟩
  | cons event events hypothesis =>
      rcases hypothesis live with ⟨accepted, same⟩ | ⟨before, kept⟩
      · exact Or.inl ⟨List.mem_cons_of_mem event accepted, same⟩
      · rcases published_of_after before with ⟨rfl, same⟩ | ⟨first, notWithdrawn⟩
        · exact Or.inl ⟨List.mem_cons_self, same⟩
        · refine Or.inr ⟨first, ?_⟩
          intro other member
          rcases List.mem_cons.mp member with rfl | member
          · exact notWithdrawn
          · exact kept other member

/-- What is live and not withdrawn stays live. -/
theorem isSome_published_afterAll {site : Site} {events : List Event} {id : String}
    (live : (site.published.get? id).isSome) (kept : ∀ event ∈ events, ¬ event.Withdraws id) :
    ((site.afterAll events).published.get? id).isSome := by
  induction events generalizing site with
  | nil => exact live
  | cons event events hypothesis =>
      refine hypothesis ?_ fun other member => kept other (List.mem_cons_of_mem event member)
      rw [get?_published_after]
      cases left : event.left? id with
      | none => exact live
      | some sample? =>
          cases sample? with
          | some sample => rfl
          | none =>
              exact absurd (Event.left?_eq_some_none.mp left) (kept event List.mem_cons_self)

/-- A gauge that was accepted and not withdrawn is live in the end. -/
theorem exists_published_of_pushed {site : Site} {events : List Event} {sample : Gauge.Sample}
    (pushed : .gateway (.push sample) (.ok ()) ∈ events)
    (kept : ∀ event ∈ events, ¬ event.Withdraws sample.id) :
    ∃ other, (site.afterAll events).published.get? sample.id = some other ∧
      other.id = sample.id ∧ .gateway (.push other) (.ok ()) ∈ events := by
  obtain ⟨first, last, rfl⟩ := List.append_of_mem pushed
  rw [afterAll_append, afterAll_cons]
  have now : ((site.afterAll first).after (.gateway (.push sample) (.ok ()))).published.get?
      sample.id = some sample := by
    rw [get?_published_after, Event.left?, if_pos rfl]
    rfl
  have live := isSome_published_afterAll (by rw [now]; rfl)
    fun event member => kept event (List.mem_append_right first (List.mem_cons_of_mem _ member))
  obtain ⟨other, found⟩ := Option.isSome_iff_exists.mp live
  refine ⟨other, found, ?_⟩
  rcases published_of_afterAll found with ⟨accepted, same⟩ | ⟨before, -⟩
  · exact ⟨same, List.mem_append_right first (List.mem_cons_of_mem _ accepted)⟩
  · obtain rfl := Option.some.inj (now.symm.trans before)
    exact ⟨rfl, pushed⟩

/-- A gauge that no event concerns stays as it is. -/
theorem get?_published_afterAll {site : Site} {events : List Event} {id : String}
    (untouched : ∀ event ∈ events, event.left? id = none) :
    (site.afterAll events).published.get? id = site.published.get? id := by
  induction events generalizing site with
  | nil => rfl
  | cons event events hypothesis =>
      rw [afterAll_cons, hypothesis fun other member => untouched other (by simp [member]),
        get?_published_after, untouched event (by simp)]
      rfl

end Site
end InventoryGauges

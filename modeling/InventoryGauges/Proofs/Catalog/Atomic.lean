import InventoryGauges.Proofs.Catalog.Path
import InventoryGauges.Proofs.Metric.Document

/-!
# Changes that are made as a whole

A request to change the catalog meets a store any of whose calls may fail.  It
is answered with the definitions that are stored from then on, or else it tells
what is wrong, and the store is as it was.
-/

namespace InventoryGauges

namespace Store

/-- A store with the calls that it was asked for. -/
structure Faulty where
  /-- The contents. -/
  contents : Contents
  /-- The calls in their order, those that failed among them. -/
  calls : List Call

namespace Faulty

/-- The store after calls that change nothing. -/
def asked (store : Faulty) (calls : List Call) : Faulty :=
  ⟨store.contents, store.calls ++ calls⟩

theorem asked_asked (store : Faulty) (earlier later : List Call) :
    (store.asked earlier).asked later = store.asked (earlier ++ later) := by
  rw [asked, asked, asked, List.append_assoc]

/-- The answer to a call.  The call fails, and changes nothing, if there is an error for
its number. -/
def serve (errors : Nat → Option Error) (call : Call) (store : Faulty) :
    call.Answer × Faulty :=
  match errors store.calls.length with
  | some error => (.error error, store.asked [call])
  | none =>
      (.ok (perform call store.contents).1,
        ⟨(perform call store.contents).2, store.calls ++ [call]⟩)

variable {errors : Nat → Option Error} {call : Call} {store : Faulty}

theorem serve_of_error {error : Error} (fails : errors store.calls.length = some error) :
    serve errors call store = (.error error, store.asked [call]) := by
  rw [serve, fails]

theorem serve_of_none (works : errors store.calls.length = none) :
    serve errors call store = (.ok (perform call store.contents).1,
      ⟨(perform call store.contents).2, store.calls ++ [call]⟩) := by
  rw [serve, works]

end Faulty
end Store

namespace Catalog

open Store (Faulty)

variable {errors : Nat → Option Store.Error} {request : Request} {before after : Faulty}

/-- What may become of a request that passes its check, by the calls that fail and the
definitions that are stored. -/
inductive Request.Settles (errors : Nat → Option Store.Error) (request : Request)
    (before : Faulty) : Except Error (List Metric) → Faulty → Prop
  | unread {error : Store.Error} (fails : errors before.calls.length = some error) :
      Settles errors request before (.error (.store error))
        (before.asked [.get Store.metricsKey])
  | unlisted (reads : errors before.calls.length = none)
      (malformed : listed? before.contents = none) :
      Settles errors request before
        (.error (.store (.corrupt Store.metricsKey "malformed value")))
        (before.asked [.get Store.metricsKey])
  | declined {metrics : List Metric} {error : Error}
      (reads : errors before.calls.length = none)
      (lists : listed? before.contents = some metrics)
      (declines : request.revise metrics = .error error) :
      Settles errors request before (.error error) (before.asked [.get Store.metricsKey])
  | idle {metrics revised : List Metric} (reads : errors before.calls.length = none)
      (lists : listed? before.contents = some metrics)
      (revises : request.revise metrics = .ok revised)
      (same : revised.length = metrics.length) :
      Settles errors request before (.ok revised) (before.asked [.get Store.metricsKey])
  | unwritten {metrics revised : List Metric} {error : Store.Error}
      (reads : errors before.calls.length = none)
      (lists : listed? before.contents = some metrics)
      (revises : request.revise metrics = .ok revised)
      (changes : revised.length ≠ metrics.length)
      (fails : errors (before.calls.length + 1) = some error) :
      Settles errors request before (.error (.store error))
        (before.asked [.get Store.metricsKey, .set Store.metricsKey (Metric.listText revised)])
  | written {metrics revised : List Metric} (reads : errors before.calls.length = none)
      (lists : listed? before.contents = some metrics)
      (revises : request.revise metrics = .ok revised)
      (changes : revised.length ≠ metrics.length)
      (writes : errors (before.calls.length + 1) = none) :
      Settles errors request before (.ok revised)
        ⟨before.contents.insert Store.metricsKey (Metric.listText revised),
          before.calls ++ [.get Store.metricsKey,
            .set Store.metricsKey (Metric.listText revised)]⟩

theorem Request.afterReading_of_malformed {text? : Option String} (request : Request)
    (malformed : Store.metricsIn? text? = none) :
    request.afterReading (.ok text?) =
      .done (.error (.store (.corrupt Store.metricsKey "malformed value"))) := by
  rw [afterReading, Store.reading, malformed]

theorem Request.settles_settle {metrics : List Metric}
    (reads : errors before.calls.length = none)
    (lists : listed? before.contents = some metrics) :
    request.Settles errors before
      ((request.settle metrics).run (Faulty.serve errors)
        (before.asked [.get Store.metricsKey])).1
      ((request.settle metrics).run (Faulty.serve errors)
        (before.asked [.get Store.metricsKey])).2 := by
  cases revises : request.revise metrics with
  | error error =>
      rw [settle, revises]
      exact .declined reads lists revises
  | ok revised =>
      by_cases same : revised.length = metrics.length
      · rw [settle, revises]
        dsimp only
        rw [if_pos same]
        exact .idle reads lists revises same
      · have number : (before.asked [.get Store.metricsKey]).calls.length =
            before.calls.length + 1 := List.length_append
        rw [settle_of_revise revises same, Program.run]
        cases writes : errors (before.calls.length + 1) with
        | some error =>
            rw [Faulty.serve_of_error (number ▸ writes), Faulty.asked_asked]
            exact .unwritten reads lists revises same writes
        | none =>
            rw [Faulty.serve_of_none (number ▸ writes), Faulty.asked, List.append_assoc]
            exact .written reads lists revises same writes

/-- A request that passes its check settles. -/
theorem Request.settles (vetted : request.vet = .ok ()) :
    request.Settles errors before (request.program.run (Faulty.serve errors) before).1
      (request.program.run (Faulty.serve errors) before).2 := by
  rw [program_of_vetted vetted, Program.run]
  cases reads : errors before.calls.length with
  | some error =>
      rw [Faulty.serve_of_error reads]
      exact .unread reads
  | none =>
      rw [Faulty.serve_of_none reads, Store.perform]
      cases lists : listed? before.contents with
      | none =>
          rw [afterReading_of_malformed request lists]
          exact .unlisted reads lists
      | some metrics =>
          rw [afterReading_of_decoded request lists]
          exact settles_settle reads lists

theorem Request.revise_of_fresh {metric : Metric} {metrics : List Metric}
    (fresh : metric.name ∉ metrics.map Metric.name) :
    (Request.add metric).revise metrics = .ok (metrics ++ [metric]) := by
  rw [revise, if_neg]
  simpa using fresh

theorem Request.revise_of_taken {metric : Metric} {metrics : List Metric}
    (taken : metric.name ∈ metrics.map Metric.name) :
    (Request.add metric).revise metrics = .error (.duplicate metric.name) := by
  rw [revise, if_pos]
  simpa using taken

theorem Request.ne_store_of_revise {metrics : List Metric} {error : Error}
    (declines : request.revise metrics = .error error) (cause : Store.Error) :
    error ≠ .store cause := by
  rintro rfl
  cases request with
  | add metric =>
      rw [revise] at declines
      split at declines <;> cases declines
  | delete name => cases declines

theorem filter_of_absent {metrics : List Metric} {name : String}
    (absent : name ∉ metrics.map Metric.name) :
    (metrics.filter fun metric => metric.name != name) = metrics := by
  rw [List.filter_eq_self]
  intro metric member
  exact bne_iff_ne.mpr fun same => absent (List.mem_map.mpr ⟨metric, member, same⟩)

theorem not_mem_names_filter (metrics : List Metric) (name : String) :
    name ∉ (metrics.filter fun metric => metric.name != name).map Metric.name := by
  simp

/-- A request for which there is nothing to change leaves the definitions as they are. -/
theorem Request.eq_of_revise_of_length {metrics revised : List Metric}
    (revises : request.revise metrics = .ok revised)
    (same : revised.length = metrics.length) : revised = metrics := by
  cases request with
  | add metric =>
      rw [revise] at revises
      split at revises
      · cases revises
      · obtain rfl := Except.ok.inj revises
        simp at same
  | delete name =>
      obtain rfl := Except.ok.inj revises
      exact List.filter_eq_self.mpr (List.length_filter_eq_length_iff.mp same)

/-- The definitions that a request succeeds with are those that are stored then. -/
theorem Request.Settles.listed_of_ok {revised : List Metric}
    (settles : request.Settles errors before (.ok revised) after) :
    ∃ metrics, listed? before.contents = some metrics ∧
      request.revise metrics = .ok revised ∧ listed? after.contents = some revised := by
  cases settles with
  | idle reads lists revises same =>
      exact ⟨_, lists, revises, eq_of_revise_of_length revises same ▸ lists⟩
  | written reads lists revises changes writes =>
      refine ⟨_, lists, revises, ?_⟩
      rw [listed?, Text.Map.get?_insert, if_pos rfl]
      exact Metric.ofListText?_listText revised

/-- A request that does not succeed leaves the store as it is. -/
theorem Request.Settles.contents_of_error {error : Error}
    (settles : request.Settles errors before (.error error) after) :
    after.contents = before.contents := by
  cases settles <;> rfl

theorem Request.Settles.get?_of_ne {outcome : Except Error (List Metric)} {key : String}
    (settles : request.Settles errors before outcome after) (other : key ≠ Store.metricsKey) :
    after.contents.get? key = before.contents.get? key := by
  cases settles with
  | written => rw [Text.Map.get?_insert, if_neg other]
  | _ => rfl

/-- The store keeps a request from success: a call that it makes fails, or what is
stored is no list. -/
def Request.IsHindered (errors : Nat → Option Store.Error) (request : Request)
    (before : Faulty) : Prop :=
  errors before.calls.length ≠ none ∨ listed? before.contents = none ∨
    ∃ metrics revised, listed? before.contents = some metrics ∧
      request.revise metrics = .ok revised ∧ revised.length ≠ metrics.length ∧
      errors (before.calls.length + 1) ≠ none

theorem Request.Settles.isHindered_iff {outcome : Except Error (List Metric)}
    (settles : request.Settles errors before outcome after) :
    (∃ error, outcome = .error (.store error)) ↔ request.IsHindered errors before := by
  cases settles with
  | unread fails => simp [IsHindered, fails]
  | unlisted reads malformed => simp [IsHindered, malformed]
  | @declined metrics error reads lists declines =>
      have refused := ne_store_of_revise declines
      simp [IsHindered, reads, lists, declines, refused]
  | idle reads lists revises same => simp [IsHindered, reads, lists, revises, same]
  | unwritten reads lists revises changes fails =>
      simp [IsHindered, lists, revises, changes, fails]
  | written reads lists revises changes writes => simp [IsHindered, reads, lists, writes]

/-- A request is declined for what it would make of the definitions. -/
theorem Request.Settles.declined_iff {outcome : Except Error (List Metric)}
    (settles : request.Settles errors before outcome after) :
    (∃ error, outcome = .error error ∧ ∀ cause, error ≠ .store cause) ↔
      errors before.calls.length = none ∧ ∃ metrics error,
        listed? before.contents = some metrics ∧ request.revise metrics = .error error := by
  cases settles with
  | unread fails => simp [fails]
  | unlisted reads malformed => simp [malformed]
  | @declined metrics error reads lists declines =>
      have refused := ne_store_of_revise declines
      simp [reads, lists, declines, refused]
  | idle reads lists revises same => simp [lists, revises]
  | unwritten reads lists revises changes fails => simp [lists, revises]
  | written reads lists revises changes writes => simp [lists, revises]

theorem Request.isHindered_add_iff {metric : Metric} :
    (Request.add metric).IsHindered errors before ↔
      errors before.calls.length ≠ none ∨ listed? before.contents = none ∨
        ∃ metrics, listed? before.contents = some metrics ∧
          metric.name ∉ metrics.map Metric.name ∧ errors (before.calls.length + 1) ≠ none := by
  refine or_congr_right (or_congr_right (exists_congr fun metrics => ?_))
  by_cases taken : metric.name ∈ metrics.map Metric.name
  · simp [revise_of_taken taken, taken]
  · simp [revise_of_fresh taken, taken]

theorem Request.isHindered_delete_iff {name : String} :
    (Request.delete name).IsHindered errors before ↔
      errors before.calls.length ≠ none ∨ listed? before.contents = none ∨
        ∃ metrics, listed? before.contents = some metrics ∧
          name ∈ metrics.map Metric.name ∧ errors (before.calls.length + 1) ≠ none := by
  refine or_congr_right (or_congr_right (exists_congr fun metrics => ?_))
  simp [revise, List.length_filter_eq_length_iff]

end Catalog

namespace Api

open Catalog (listed?)
open Store (Faulty)

/-- A request to add a definition, with a body within the limit. -/
structure Request.Posts (request : Request) : Prop where
  isPost : request.method = "POST"
  leads : Resource.ofPath? request.path = some .catalog
  bounded : request.body.size ≤ bodyLimit

/-- The body of a request is a document that is accepted as a definition. -/
def Request.Offers (request : Request) (metric : Metric) : Prop :=
  ∃ document, (String.fromUTF8? request.body).bind Json.ofString? = some document ∧
    Metric.ofDocument document = .ok metric

/-- A request to remove the definition of a name. -/
structure Request.Removes (request : Request) (name : String) : Prop where
  isDelete : request.method = "DELETE"
  leads : ∃ encodedName, Resource.ofPath? request.path = some (.metric encodedName) ∧
    Url.decodedText? encodedName = some name

/-- The response to a request, and what it leaves of a store. -/
def served (statistics : Statistics) (errors : Nat → Option Store.Error) (request : Request)
    (store : Faulty) : Response × Faulty :=
  (handle statistics request).run (Faulty.serve errors) store

variable {errors : Nat → Option Store.Error} {statistics : Statistics} {request : Request}
  {before : Faulty} {metric : Metric} {name : String}

theorem Request.Posts.change?_eq (posts : request.Posts) (offers : request.Offers metric) :
    request.change? = some (.add metric) := by
  obtain ⟨document, reads, decodes⟩ := offers
  rw [change?, posts.leads]
  dsimp only
  rw [if_pos ⟨posts.isPost, posts.bounded⟩, reads]
  dsimp only
  rw [decodes]

theorem Request.Removes.change?_eq (removes : request.Removes name) :
    request.change? = some (.delete name) := by
  obtain ⟨encodedName, leads, decodes⟩ := removes.leads
  rw [change?, leads]
  dsimp only
  rw [if_pos removes.isDelete, decodes]
  rfl

/-- A request for a change is answered with what the change settles to. -/
theorem exists_settles_of_served {change : Catalog.Request} {response : Response}
    {after : Faulty} (asks : request.change? = some change) (vetted : change.vet = .ok ())
    (serves : served statistics errors request before = (response, after)) :
    ∃ outcome, change.Settles errors before outcome after ∧ response = respond outcome := by
  have run : served statistics errors request before =
      (respond (change.program.run (Faulty.serve errors) before).1,
        (change.program.run (Faulty.serve errors) before).2) := by
    rw [served, handle_of_change? asks]
    exact Program.run_andThen _ _ _ _
  obtain ⟨rfl, rfl⟩ := Prod.mk.inj (run.symm.trans serves)
  exact ⟨_, Catalog.Request.settles vetted, rfl⟩

theorem status_respond_eq_500_iff {outcome : Except Catalog.Error (List Metric)} :
    (respond outcome).status = 500 ↔ ∃ error, outcome = .error (.store error) := by
  match outcome with
  | .ok metrics => simp [respond, Response.metrics]
  | .error (.store error) => simp [respond, Response.storeFailure, Response.failure, Response.json]
  | .error (.rejected rejection) => simp [respond, Response.failure, Response.json]
  | .error (.duplicate name) => simp [respond, Response.failure, Response.json]

theorem status_respond_eq_400_iff {outcome : Except Catalog.Error (List Metric)} :
    (respond outcome).status = 400 ↔
      ∃ error, outcome = .error error ∧ ∀ cause, error ≠ .store cause := by
  match outcome with
  | .ok metrics => simp [respond, Response.metrics]
  | .error (.store error) => simp [respond, Response.storeFailure, Response.failure, Response.json]
  | .error (.rejected rejection) => simp [respond, Response.failure, Response.json]
  | .error (.duplicate name) => simp [respond, Response.failure, Response.json]

/-- The response to a change tells whether it was made, was declined or was hindered. -/
theorem status_respond (outcome : Except Catalog.Error (List Metric)) :
    (respond outcome).status = 200 ∨ (respond outcome).status = 400 ∨
      (respond outcome).status = 500 := by
  match outcome with
  | .ok metrics => exact Or.inl rfl
  | .error (.store error) => exact Or.inr (Or.inr rfl)
  | .error (.rejected rejection) => exact Or.inr (Or.inl rfl)
  | .error (.duplicate name) => exact Or.inr (Or.inl rfl)

/-- What becomes of a request to add a definition, if that is accepted. -/
structure Added (errors : Nat → Option Store.Error) (metric : Metric) (before : Faulty)
    (response : Response) (after : Faulty) : Prop where
  answered : response.status = 200 ∨ response.status = 400 ∨ response.status = 500
  /-- Success means that the name was fresh, and that the answered list is stored. -/
  stored : response.status = 200 → ∃ metrics, listed? before.contents = some metrics ∧
    metric.name ∉ metrics.map Metric.name ∧
    listed? after.contents = some (metrics ++ [metric]) ∧
    response = .metrics (metrics ++ [metric])
  /-- Only a name that is taken is declined. -/
  declined : response.status = 400 ↔ errors before.calls.length = none ∧
    ∃ metrics, listed? before.contents = some metrics ∧
      metric.name ∈ metrics.map Metric.name
  /-- A call failed, or the stored list cannot be read. -/
  hindered : response.status = 500 ↔ errors before.calls.length ≠ none ∨
    listed? before.contents = none ∨
    ∃ metrics, listed? before.contents = some metrics ∧
      metric.name ∉ metrics.map Metric.name ∧ errors (before.calls.length + 1) ≠ none
  kept : response.status ≠ 200 → after.contents = before.contents
  /-- Nothing else is ever changed. -/
  besides : ∀ key, key ≠ Store.metricsKey →
    after.contents.get? key = before.contents.get? key

/-- What becomes of a request to remove the definition of a name. -/
structure Removed (errors : Nat → Option Store.Error) (name : String) (before : Faulty)
    (response : Response) (after : Faulty) : Prop where
  answered : response.status = 200 ∨ response.status = 500
  /-- Success means that the answered list is stored, which is without the name. -/
  stored : response.status = 200 → ∃ metrics, listed? before.contents = some metrics ∧
    listed? after.contents = some (metrics.filter fun metric => metric.name != name) ∧
    response = .metrics (metrics.filter fun metric => metric.name != name)
  /-- A name that is not there is a reason to read only. -/
  absent : (∀ metrics, listed? before.contents = some metrics →
    name ∉ metrics.map Metric.name) → after = before.asked [.get Store.metricsKey]
  /-- A call failed, or the stored list cannot be read. -/
  hindered : response.status = 500 ↔ errors before.calls.length ≠ none ∨
    listed? before.contents = none ∨
    ∃ metrics, listed? before.contents = some metrics ∧
      name ∈ metrics.map Metric.name ∧ errors (before.calls.length + 1) ≠ none
  kept : response.status ≠ 200 → after.contents = before.contents
  /-- Nothing else is ever changed. -/
  besides : ∀ key, key ≠ Store.metricsKey →
    after.contents.get? key = before.contents.get? key

section Settled

variable {change : Catalog.Request} {outcome : Except Catalog.Error (List Metric)}
  {after : Faulty} (settles : change.Settles errors before outcome after)
include settles

theorem contents_of_status (failed : (respond outcome).status ≠ 200) :
    after.contents = before.contents := by
  cases outcome with
  | ok metrics => exact absurd rfl failed
  | error error => exact settles.contents_of_error

theorem hindered_iff :
    (respond outcome).status = 500 ↔ change.IsHindered errors before :=
  status_respond_eq_500_iff.trans settles.isHindered_iff

theorem declined_iff : (respond outcome).status = 400 ↔ errors before.calls.length = none ∧
    ∃ metrics error, listed? before.contents = some metrics ∧
      change.revise metrics = .error error :=
  status_respond_eq_400_iff.trans settles.declined_iff

end Settled

theorem added_of_settles {outcome : Except Catalog.Error (List Metric)} {after : Faulty}
    (settles : (Catalog.Request.add metric).Settles errors before outcome after) :
    Added errors metric before (respond outcome) after where
  answered := status_respond outcome
  stored := by
    intro success
    obtain ⟨revised, rfl⟩ := exists_of_status_respond success
    obtain ⟨metrics, lists, revises, stored⟩ := settles.listed_of_ok
    by_cases taken : metric.name ∈ metrics.map Metric.name
    · rw [Catalog.Request.revise_of_taken taken] at revises
      cases revises
    · rw [Catalog.Request.revise_of_fresh taken] at revises
      obtain rfl := Except.ok.inj revises
      exact ⟨metrics, lists, taken, stored, rfl⟩
  declined := by
    rw [declined_iff settles]
    refine and_congr_right fun _ => exists_congr fun metrics => ?_
    by_cases taken : metric.name ∈ metrics.map Metric.name
    · simp [Catalog.Request.revise_of_taken taken, taken]
    · simp [Catalog.Request.revise_of_fresh taken, taken]
  hindered := (hindered_iff settles).trans Catalog.Request.isHindered_add_iff
  kept := contents_of_status settles
  besides := fun _ => settles.get?_of_ne

theorem removed_of_settles {outcome : Except Catalog.Error (List Metric)} {after : Faulty}
    (settles : (Catalog.Request.delete name).Settles errors before outcome after) :
    Removed errors name before (respond outcome) after where
  answered := by
    have declines : (respond outcome).status ≠ 400 := by
      rw [ne_eq, declined_iff settles]
      rintro ⟨-, metrics, error, -, revises⟩
      cases revises
    exact (status_respond outcome).imp_right fun failed => failed.resolve_left declines
  stored := by
    intro success
    obtain ⟨revised, rfl⟩ := exists_of_status_respond success
    obtain ⟨metrics, lists, revises, stored⟩ := settles.listed_of_ok
    obtain rfl := Except.ok.inj revises
    exact ⟨metrics, lists, stored, rfl⟩
  absent := by
    intro absent
    have unchanged {metrics revised : List Metric}
        (lists : listed? before.contents = some metrics)
        (revises : (Catalog.Request.delete name).revise metrics = .ok revised) :
        revised.length = metrics.length := by
      obtain rfl := Except.ok.inj revises
      exact congrArg List.length (Catalog.filter_of_absent (absent metrics lists))
    cases settles with
    | unwritten reads lists revises changes => exact absurd (unchanged lists revises) changes
    | written reads lists revises changes => exact absurd (unchanged lists revises) changes
    | _ => rfl
  hindered := (hindered_iff settles).trans Catalog.Request.isHindered_delete_iff
  kept := contents_of_status settles
  besides := fun _ => settles.get?_of_ne

/-- A fresh name is added if no call fails. -/
theorem Added.succeeds {response : Response} {after : Faulty} {metrics : List Metric}
    (added : Added errors metric before response after)
    (reads : errors before.calls.length = none)
    (writes : errors (before.calls.length + 1) = none)
    (lists : listed? before.contents = some metrics)
    (fresh : metric.name ∉ metrics.map Metric.name) : response.status = 200 := by
  rcases added.answered with success | declined | hindered
  · exact success
  · obtain ⟨-, others, listsToo, taken⟩ := added.declined.mp declined
    obtain rfl := Option.some.inj (lists.symm.trans listsToo)
    exact absurd taken fresh
  · rcases added.hindered.mp hindered with fails | unlisted | ⟨_, -, -, fails⟩
    · exact absurd reads fails
    · cases lists.symm.trans unlisted
    · exact absurd writes fails

/-- A name is removed if no call fails that this takes. -/
theorem Removed.succeeds {response : Response} {after : Faulty} {metrics : List Metric}
    (removed : Removed errors name before response after)
    (reads : errors before.calls.length = none)
    (writes : name ∈ metrics.map Metric.name → errors (before.calls.length + 1) = none)
    (lists : listed? before.contents = some metrics) : response.status = 200 := by
  refine removed.answered.resolve_right fun hindered => ?_
  rcases removed.hindered.mp hindered with fails | unlisted | ⟨others, listsToo, taken, fails⟩
  · exact fails reads
  · cases lists.symm.trans unlisted
  · obtain rfl := Option.some.inj (lists.symm.trans listsToo)
    exact fails (writes taken)

section Served

variable {after : Faulty} {response : Response}

theorem Request.Posts.added (posts : request.Posts) (offers : request.Offers metric)
    (serves : served statistics errors request before = (response, after)) :
    Added errors metric before response after := by
  obtain ⟨document, reads, decodes⟩ := offers
  have vetted : (Catalog.Request.add metric).vet = .ok () := by
    rw [Catalog.Request.vet, (Metric.ofDocument_eq_ok_iff.mp decodes).2]
    rfl
  obtain ⟨outcome, settles, rfl⟩ :=
    exists_settles_of_served (posts.change?_eq ⟨document, reads, decodes⟩) vetted serves
  exact added_of_settles settles

theorem Request.Removes.removed (removes : request.Removes name)
    (serves : served statistics errors request before = (response, after)) :
    Removed errors name before response after := by
  obtain ⟨outcome, settles, rfl⟩ := exists_settles_of_served removes.change?_eq rfl serves
  exact removed_of_settles settles

end Served

variable {first second : Response} {between after : Faulty} {again : Request}

/-- A removal that is repeated finds nothing to remove. -/
theorem Request.Removes.repeated (removes : request.Removes name)
    (repeats : again.Removes name)
    (serves : served statistics errors request before = (first, between))
    (success : first.status = 200)
    (servesAgain : served statistics errors again between = (second, after)) :
    after = between.asked [.get Store.metricsKey] ∧
      (errors between.calls.length = none → second = first) := by
  obtain ⟨metrics, -, stored, rfl⟩ := (removes.removed serves).stored success
  have removed := repeats.removed servesAgain
  have absent := Catalog.not_mem_names_filter metrics name
  constructor
  · apply removed.absent
    intro others lists
    obtain rfl := Option.some.inj (stored.symm.trans lists)
    exact absent
  · intro reads
    have successAgain := removed.succeeds reads (fun taken => absurd taken absent) stored
    obtain ⟨others, lists, -, rfl⟩ := removed.stored successAgain
    obtain rfl := Option.some.inj (stored.symm.trans lists)
    rw [Catalog.filter_of_absent absent]

/-- A definition that a body offers is removed under its name. -/
theorem Request.Offers.removes (offers : request.Offers metric) (body : ByteArray) :
    Request.Removes ⟨"DELETE", "/metrics/" ++ metric.name, body⟩ metric.name := by
  obtain ⟨document, -, decodes⟩ := offers
  have valid := Metric.keepsRule_of_check (Metric.ofDocument_eq_ok_iff.mp decodes).2 .name
  exact ⟨rfl, _, ofPath?_of_nameIsValid valid,
    Url.decodedText?_of_plain (Metric.plain_of_nameIsValid valid)⟩

end Api
end InventoryGauges

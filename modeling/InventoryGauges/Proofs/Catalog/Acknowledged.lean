import InventoryGauges.Api
import InventoryGauges.Proofs.Catalog.Lineage

/-!
# Acknowledged changes

Requests over HTTP that change the catalog are served side by side.  Of the
changes that are answered with success, those are in force that no overlapping
request has overwritten, and definitions that no request names are kept.
-/

namespace InventoryGauges
namespace Api

/-- The change that a request asks for, if it asks for one in due form. -/
def Request.change? (request : Request) : Option Catalog.Request :=
  match Resource.ofPath? request.path with
  | some .catalog =>
      if request.method = "POST" ∧ request.body.size ≤ bodyLimit then
        match (String.fromUTF8? request.body).bind Json.ofString? with
        | some document =>
            match Metric.ofDocument document with
            | .ok metric => some (.add metric)
            | .error _ => none
        | none => none
      else none
  | some (.metric encodedName) =>
      if request.method = "DELETE" then (Url.decodedText? encodedName).map .delete else none
  | _ => none

/-- The response to what became of a change. -/
def respond : Except Catalog.Error (List Metric) → Response
  | .ok metrics => .metrics metrics
  | .error (.store error) => .storeFailure error
  | .error error => .failure 400 error.message

/-- Only a change that was made is answered with success. -/
theorem exists_of_status_respond {outcome : Except Catalog.Error (List Metric)}
    (success : (respond outcome).status = 200) : ∃ metrics, outcome = .ok metrics := by
  match outcome with
  | .ok metrics => exact ⟨metrics, rfl⟩
  | .error (.store error) => cases success
  | .error (.rejected rejection) => cases success
  | .error (.duplicate name) => cases success

variable {statistics : Statistics} {request : Request} {change : Catalog.Request}

theorem add_eq {body : ByteArray} {document : Json} {metric : Metric}
    (bounded : body.size ≤ bodyLimit)
    (reads : (String.fromUTF8? body).bind Json.ofString? = some document)
    (decodes : Metric.ofDocument document = .ok metric) :
    add body = respond <$> (Catalog.Request.add metric).program := by
  rw [add, if_neg (Nat.not_lt.mpr bounded), reads]
  dsimp only
  rw [decodes]
  refine congrArg (_ >>= ·) (funext fun outcome => ?_)
  match outcome with
  | .ok metrics => rfl
  | .error (.store error) => rfl
  | .error (.rejected rejection) => rfl
  | .error (.duplicate name) => rfl

theorem delete_eq {encodedName name : String} (decodes : Url.decodedText? encodedName = some name) :
    delete encodedName = respond <$> (Catalog.Request.delete name).program := by
  have adapted : respond <$> (Catalog.Request.delete name).program =
      (Catalog.delete name).run >>= fun outcome => .done (respond (outcome.mapError .store)) :=
    Program.andThen_assoc _ _ _
  rw [adapted, delete, decodes]
  refine congrArg (_ >>= ·) (funext fun outcome => ?_)
  cases outcome with
  | ok metrics => rfl
  | error error => rfl

theorem handle_eq_answer {resource : Resource}
    (leads : Resource.ofPath? request.path = some resource)
    (allowed : resource.methods.contains request.method) (notHead : request.method ≠ "HEAD") :
    handle statistics request = answer statistics request resource := by
  rw [handle, leads]
  dsimp only
  rw [if_pos allowed]
  simp only [if_neg notHead]
  exact Program.andThen_done _

/-- A request that asks for a change is answered with what becomes of it. -/
theorem handle_of_change? (asks : request.change? = some change) :
    handle statistics request = respond <$> change.program := by
  rw [Request.change?] at asks
  split at asks
  · rename_i leads
    split at asks
    · rename_i post
      split at asks
      · rename_i document reads
        split at asks
        · rename_i metric decodes
          obtain rfl := Option.some.inj asks
          rw [handle_eq_answer leads (by rw [post.1]; rfl) (by rw [post.1]; decide), answer,
            if_pos post.1]
          exact add_eq post.2 reads decodes
        · cases asks
      · cases asks
    · cases asks
  · rename_i encodedName leads
    split at asks
    · rename_i deletes
      obtain ⟨name, decodes, rfl⟩ := Option.map_eq_some_iff.mp asks
      rw [handle_eq_answer leads (by rw [deletes]; rfl) (by rw [deletes]; decide), answer]
      exact delete_eq decodes
    · cases asks
  · cases asks

theorem map_handle_eq {requests : List Request} {changes : List Catalog.Request}
    (asked : requests.map Request.change? = changes.map some) :
    requests.map (handle statistics) =
      (changes.map Catalog.Request.program).map (respond <$> ·) := by
  induction requests generalizing changes with
  | nil =>
      cases changes with
      | nil => rfl
      | cons change changes => cases asked
  | cons request requests hypothesis =>
      cases changes with
      | nil => cases asked
      | cons change changes =>
          obtain ⟨asks, others⟩ := List.cons.inj asked
          exact congrArg₂ List.cons (handle_of_change? asks) (hypothesis others)

/-! ## Side by side -/

namespace Example

open Catalog.Example (metric)

/-- A definition is added while another is removed. -/
def requests : List Request :=
  [⟨"POST", "/metrics", (metric "m").toJson.compact.toUTF8⟩, ⟨"DELETE", "/metrics/n", .empty⟩]

def changes : List Catalog.Request :=
  [.add (metric "m"), .delete "n"]

/-- Only the definition to be removed is listed at first. -/
def contents : Store.Contents :=
  Text.Map.empty.insert Store.metricsKey (Metric.listText [metric "n"])

/-- The removal reads before the addition is served, and writes after that. -/
def turns : List Store.Turn :=
  [⟨1, .get Store.metricsKey, .ok (some (Metric.listText [metric "n"]))⟩,
    ⟨0, .get Store.metricsKey, .ok (some (Metric.listText [metric "n"]))⟩,
    ⟨0, .set Store.metricsKey (Metric.listText [metric "n", metric "m"]), .ok ()⟩,
    ⟨1, .set Store.metricsKey (Metric.listText []), .ok ()⟩]

/-- What is stored in the end. -/
def left : Store.Contents :=
  (contents.insert Store.metricsKey (Metric.listText [metric "n", metric "m"])).insert
    Store.metricsKey (Metric.listText [])

def responses : List Response :=
  [.metrics [metric "n", metric "m"], .metrics []]

theorem fromUTF8?_toUTF8 (text : String) : String.fromUTF8? text.toUTF8 = some text := by
  rw [String.fromUTF8?]
  exact dif_pos text.isValidUTF8

theorem asked : requests.map Request.change? = changes.map some := by
  have bounded : (metric "m").toJson.compact.toUTF8.size ≤ bodyLimit := by decide +kernel
  have decoded : Metric.ofDocument (metric "m").toJson = .ok (metric "m") := rfl
  have addition : Request.change? ⟨"POST", "/metrics", (metric "m").toJson.compact.toUTF8⟩ =
      some (.add (metric "m")) := by
    have leads : Resource.ofPath? "/metrics" = some .catalog := by decide
    rw [Request.change?, leads]
    dsimp only
    rw [if_pos ⟨rfl, bounded⟩, fromUTF8?_toUTF8, Option.bind_some,
      Json.ofString?_compact ((metric "m").fits_toJson 125)]
    dsimp only
    rw [decoded]
  have removal : Request.change? ⟨"DELETE", "/metrics/n", .empty⟩ = some (.delete "n") := rfl
  rw [requests, List.map_cons, List.map_cons, addition, removal]
  rfl

theorem runs (statistics : Statistics) :
    Store.Sharing.Runs ⟨contents, requests.map (handle statistics)⟩ turns
      ⟨left, responses.map .done⟩ := by
  have decoded : Store.metricsIn? (some (Metric.listText [metric "n"])) = some [metric "n"] :=
    Metric.ofListText?_listText _
  have adds := (Catalog.Request.afterReading_of_decoded (.add (metric "m")) decoded).trans
    (Catalog.Request.settle_of_revise rfl (by decide))
  have deletes := (Catalog.Request.afterReading_of_decoded (.delete "n") decoded).trans
    (Catalog.Request.settle_of_revise rfl (by decide))
  have changed : Store.Sharing.Runs ⟨contents, changes.map Catalog.Request.program⟩ turns
      ⟨left, [.done (.ok [metric "n", metric "m"]), .done (.ok [])]⟩ := by
    refine .turn (congrArg some (Catalog.Request.program_of_vetted rfl)) .succeeded ?_
    refine .turn (congrArg some (Catalog.Request.program_of_vetted rfl)) .succeeded ?_
    refine .turn (congrArg some adds) .succeeded ?_
    exact .turn (congrArg some deletes) .succeeded (.stop _)
  rw [map_handle_eq asked]
  exact changed.map respond

theorem faultless : ∀ turn ∈ turns, ¬ turn.Fails := by
  simp [turns, Store.Turn.Fails]

end Example

/-- However requests overlap at a store that never fails, definitions that none
of them names are kept, and a change that is answered with success is in force
exactly unless it is overwritten, which takes a request that overlaps it. -/
theorem holds_iff_not_overwritten {requests : List Request} {changes : List Catalog.Request}
    {contents : Store.Contents} {turns : List Store.Turn} {last : Store.Sharing Response}
    (asked : requests.map Request.change? = changes.map some)
    (distinct : (changes.map Catalog.Request.name).Nodup)
    (runs : Store.Sharing.Runs ⟨contents, requests.map (handle statistics)⟩ turns last)
    (faultless : ∀ turn ∈ turns, ¬ turn.Fails) :
    (∀ initial, Catalog.listed? contents = some initial →
      ∃ stored, Catalog.listed? last.contents = some stored ∧
        ∀ metric ∈ initial, (∀ change ∈ changes, change.name ≠ metric.name) → metric ∈ stored) ∧
    ∀ (index : Nat) change response, changes[index]? = some change →
      last.programs[index]? = some (.done response) → response.status = 200 →
        ∃ stored, Catalog.listed? last.contents = some stored ∧
          (change.Holds stored ↔ ¬ Store.Overwritten turns index) ∧
          (Store.Overwritten turns index → ∃ other, Store.Overlaps turns index other) := by
  rw [map_handle_eq asked] at runs
  obtain ⟨left, changed, programs⟩ := runs.exists_of_map
  have follows := Catalog.follows_of_runs distinct changed faultless
  constructor
  · intro initial listed
    have stored := follows.listed
    rw [listed] at stored
    exact ⟨_, stored, fun metric member unnamed =>
      (Catalog.mem_outcome_of_unnamed unnamed _).mpr member⟩
  · intro index change response found answered success
    rw [programs, List.getElem?_map] at answered
    obtain ⟨program, own, ended⟩ := Option.map_eq_some_iff.mp answered
    obtain ⟨outcome, rfl, rfl⟩ := Store.exists_of_map_eq_done ended
    obtain ⟨metrics, rfl⟩ := exists_of_status_respond success
    obtain ⟨stored, listed, holds⟩ := follows.holds_iff distinct found own
    exact ⟨stored, listed, holds, fun overwritten => overwritten.exists_overlaps follows.readFirst⟩

/-- The removal overwrites the addition, and is in force. -/
theorem overwritten_by_removal :
    Example.requests.map Request.change? = Example.changes.map some ∧
      (Example.changes.map Catalog.Request.name).Nodup ∧
      Store.Sharing.Runs ⟨Example.contents, Example.requests.map (handle .initial)⟩ Example.turns
        ⟨Example.left, Example.responses.map .done⟩ ∧
      (∀ turn ∈ Example.turns, ¬ turn.Fails) ∧
      (∃ stored, Catalog.listed? Example.left = some stored ∧
        ¬ (Catalog.Request.add (Catalog.Example.metric "m")).Holds stored ∧
        ∃ other, Store.Overlaps Example.turns 0 other) ∧
      ∃ stored, Catalog.listed? Example.left = some stored ∧
        (Catalog.Request.delete "n").Holds stored := by
  have distinct : (Example.changes.map Catalog.Request.name).Nodup := by decide
  have added : Store.Overwritten Example.turns 0 := by decide
  have removed : ¬ Store.Overwritten Example.turns 1 := by decide
  obtain ⟨-, holds⟩ :=
    holds_iff_not_overwritten Example.asked distinct (Example.runs .initial) Example.faultless
  obtain ⟨stored, listed, lost, overlaps⟩ := holds 0 _ _ rfl rfl rfl
  obtain ⟨others, listedOthers, kept, -⟩ := holds 1 _ _ rfl rfl rfl
  exact ⟨Example.asked, distinct, Example.runs .initial, Example.faultless,
    ⟨stored, listed, fun inForce => lost.mp inForce added, overlaps added⟩,
    others, listedOthers, kept.mpr removed⟩

/-- An addition is answered with success, and yet it is lost. -/
theorem acknowledged_addition_lost :
    Example.requests.map Request.change? = Example.changes.map some ∧
      (Example.changes.map Catalog.Request.name).Nodup ∧
      Store.Sharing.Runs ⟨Example.contents, Example.requests.map (handle .initial)⟩ Example.turns
        ⟨Example.left, Example.responses.map .done⟩ ∧
      (∀ turn ∈ Example.turns, ¬ turn.Fails) ∧
      (∀ response ∈ Example.responses, response.status = 200) ∧
      Example.changes[0]? = some (.add (Catalog.Example.metric "m")) ∧
      ∃ stored, Catalog.listed? Example.left = some stored ∧
        Catalog.Example.metric "m" ∉ stored := by
  have listed : Catalog.listed? Example.left = some [] := by
    rw [Catalog.listed?, Example.left, Text.Map.get?_insert, if_pos rfl]
    exact Metric.ofListText?_listText []
  have succeed : ∀ response ∈ Example.responses, response.status = 200 := by
    simp [Example.responses, Response.metrics]
  exact ⟨Example.asked, by decide, Example.runs .initial, Example.faultless, succeed, rfl,
    [], listed, List.not_mem_nil⟩

end Api
end InventoryGauges

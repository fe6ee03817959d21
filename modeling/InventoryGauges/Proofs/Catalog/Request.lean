import InventoryGauges.Proofs.Catalog.Trace
import InventoryGauges.Proofs.Store.Encoding
import InventoryGauges.Proofs.Store.Sharing

/-!
# Requests to change the catalog

A request reads the definitions, decides what to make of them, and writes the
result, while other requests may do the same.
-/

namespace InventoryGauges
namespace Catalog

/-- Programs that change the catalog. -/
abbrev Service : Type :=
  Program Store.Call Store.Call.Answer (Except Error (List Metric))

/-- A request to change the catalog. -/
inductive Request
  /-- Add a definition. -/
  | add (metric : Metric)
  /-- Remove the definition of a name. -/
  | delete (name : String)

namespace Request

/-- The name that a request is about. -/
def name : Request → String
  | add metric => metric.name
  | delete name => name

/-- How a request is served. -/
def program : Request → Service
  | add metric => (Catalog.add metric).run
  | delete name => (access (Catalog.delete name)).run

/-- What is checked before the definitions are read. -/
def vet : Request → Except Error Unit
  | add metric => metric.check.mapError .rejected
  | delete _ => .ok ()

/-- What a request makes of the definitions. -/
def revise : Request → List Metric → Except Error (List Metric)
  | add metric, metrics =>
      if metrics.any fun other => other.name == metric.name then .error (.duplicate metric.name)
      else .ok (metrics ++ [metric])
  | delete name, metrics => .ok (metrics.filter fun metric => metric.name != name)

/-- What is left to do when the definitions are known: they are written if
there is anything to change. -/
def settle (request : Request) (metrics : List Metric) : Service :=
  match request.revise metrics with
  | .error error => .done (.error error)
  | .ok revised =>
      if revised.length = metrics.length then .done (.ok revised)
      else .ask (.set Store.metricsKey (Metric.listText revised)) fun answer =>
        .done ((answer.map fun _ => revised).mapError .store)

/-- What is left to do after reading. -/
def afterReading (request : Request) (answer : Except Store.Error (Option String)) : Service :=
  match Store.reading Store.metricsKey Store.metricsIn? answer with
  | .error error => .done (.error (.store error))
  | .ok metrics => request.settle metrics

theorem run_listMetrics :
    Store.listMetrics.run = .ask (.get Store.metricsKey) fun answer =>
      .done (Store.reading Store.metricsKey Store.metricsIn? answer) := by
  refine congrArg (Program.ask (Store.Call.get Store.metricsKey)) (funext fun answer => ?_)
  match answer with
  | .error error => rfl
  | .ok none => rfl
  | .ok (some text) =>
      show (Store.decode Store.metricsKey (Metric.ofListText? text)).run = _
      rw [Store.reading, Store.metricsIn?]
      cases Metric.ofListText? text <;> rfl

theorem run_add (metric : Metric) :
    (Catalog.add metric).run =
      match metric.check with
      | .error rejection => .done (.error (.rejected rejection))
      | .ok () => .ask (.get Store.metricsKey) (Request.add metric).afterReading := by
  have sequenced (rest : List Metric → Change (List Metric)) :
      (access Store.listMetrics >>= rest).run =
        (Store.listMetrics.run >>= fun outcome => .done (outcome.mapError .store)) >>=
          ExceptT.bindCont rest := rfl
  rw [Catalog.add]
  cases metric.check with
  | error rejection => rfl
  | ok kept =>
      dsimp only
      rw [sequenced, run_listMetrics, Program.bind_ask, Program.bind_ask]
      refine congrArg (Program.ask _) (funext fun answer => ?_)
      rw [Program.bind_done, Program.bind_done, afterReading]
      cases Store.reading Store.metricsKey Store.metricsIn? answer with
      | error error => rfl
      | ok metrics =>
          dsimp only [Except.mapError, ExceptT.bindCont]
          rw [settle, revise]
          split
          · rfl
          · dsimp only
            rw [if_neg (by simp)]
            refine congrArg (Program.ask _) (funext fun answer => ?_)
            cases answer <;> rfl

theorem run_delete (name : String) :
    (access (Catalog.delete name)).run =
      .ask (.get Store.metricsKey) (Request.delete name).afterReading := by
  have sequenced (rest : List Metric → Store.Access (List Metric)) :
      (access (Store.listMetrics >>= rest)).run =
        (Store.listMetrics.run >>= ExceptT.bindCont rest) >>=
          fun outcome => .done (outcome.mapError .store) := rfl
  rw [Catalog.delete, sequenced, run_listMetrics, Program.bind_ask, Program.bind_ask]
  refine congrArg (Program.ask _) (funext fun answer => ?_)
  rw [Program.bind_done, afterReading]
  cases Store.reading Store.metricsKey Store.metricsIn? answer with
  | error error => rfl
  | ok metrics =>
      dsimp only [ExceptT.bindCont]
      rw [settle, revise]
      dsimp only
      split
      · refine congrArg (Program.ask _) (funext fun answer => ?_)
        cases answer <;> rfl
      · rw [if_pos (Decidable.not_not.mp ‹_›)]
        rfl

/-- A request that passes its check reads the definitions first. -/
theorem program_eq (request : Request) :
    request.program =
      match request.vet with
      | .error error => .done (.error error)
      | .ok () => .ask (.get Store.metricsKey) request.afterReading := by
  cases request with
  | add metric =>
      rw [program, run_add, vet]
      cases metric.check <;> rfl
  | delete name => exact run_delete name

theorem program_of_vetted {request : Request} (vetted : request.vet = .ok ()) :
    request.program = .ask (.get Store.metricsKey) request.afterReading := by
  rw [program_eq, vetted]

theorem afterReading_of_decoded {text? : Option String} {metrics : List Metric}
    (request : Request) (decoded : Store.metricsIn? text? = some metrics) :
    request.afterReading (.ok text?) = request.settle metrics := by
  rw [afterReading, Store.reading, decoded]

theorem settle_of_revise {request : Request} {metrics revised : List Metric}
    (revises : request.revise metrics = .ok revised) (changes : revised.length ≠ metrics.length) :
    request.settle metrics =
      .ask (.set Store.metricsKey (Metric.listText revised)) fun answer =>
        .done ((answer.map fun _ => revised).mapError .store) := by
  rw [settle, revises]
  exact if_neg changes

end Request

/-! ## Sound lists -/

/-- Definitions that keep their rules and have names of their own. -/
structure IsSound (metrics : List Metric) : Prop where
  checked : ∀ metric ∈ metrics, metric.check = .ok ()
  unique : (metrics.map Metric.name).Nodup

/-- The value is a sound list of definitions. -/
def SoundIn (value? : Option String) : Prop :=
  ∃ metrics, Store.metricsIn? value? = some metrics ∧ IsSound metrics

theorem soundIn_none : SoundIn none :=
  ⟨[], rfl, nofun, List.nodup_nil⟩

theorem soundIn_listText {metrics : List Metric} (sound : IsSound metrics) :
    SoundIn (some (Metric.listText metrics)) :=
  ⟨metrics, Metric.ofListText?_listText metrics, sound⟩

theorem check_of_vetted {metric : Metric} (vetted : (Request.add metric).vet = .ok ()) :
    metric.check = .ok () := by
  rw [Request.vet] at vetted
  cases checked : metric.check with
  | ok kept => rfl
  | error rejection => rw [checked] at vetted; cases vetted

/-- What a request that passes its check makes of a sound list is sound. -/
theorem IsSound.revise {request : Request} {metrics revised : List Metric}
    (sound : IsSound metrics) (vetted : request.vet = .ok ())
    (revises : request.revise metrics = .ok revised) : IsSound revised := by
  cases request with
  | add metric =>
      rw [Request.revise] at revises
      split at revises
      · cases revises
      · rename_i fresh
        obtain rfl := Except.ok.inj revises
        refine ⟨fun other member => ?_, unique_append_of_fresh sound.unique fresh⟩
        rcases List.mem_append.mp member with old | new
        · exact sound.checked other old
        · obtain rfl := List.mem_singleton.mp new
          exact check_of_vetted vetted
  | delete name =>
      obtain rfl := Except.ok.inj revises
      exact ⟨fun metric member => sound.checked metric (List.mem_filter.mp member).1,
        sound.unique.sublist (List.filter_sublist.map Metric.name)⟩

/-- A request that knows sound definitions writes nothing else. -/
theorem Request.keeps_settle {request : Request} {metrics : List Metric}
    (vetted : request.vet = .ok ()) (sound : IsSound metrics) :
    Store.Keeps Store.metricsKey SoundIn (request.settle metrics) := by
  rw [settle]
  split
  · trivial
  · rename_i revised revises
    split
    · trivial
    · refine ⟨fun value? written => ?_, fun _ _ _ _ _ => trivial⟩
      rw [Store.Call.written?, if_pos rfl] at written
      obtain rfl := Option.some.inj written
      exact soundIn_listText (sound.revise vetted revises)

/-- A request keeps the stored list sound. -/
theorem Request.keeps (request : Request) :
    Store.Keeps Store.metricsKey SoundIn request.program := by
  rw [program_eq]
  split
  · trivial
  · rename_i vetted
    refine ⟨nofun, fun contents answer left found serves => ?_⟩
    rw [afterReading]
    split
    · trivial
    · rename_i metrics read
      obtain ⟨text?, rfl, decoded⟩ := Store.reading_eq_ok_iff.mp read
      obtain ⟨others, decodes, sound⟩ := found
      obtain ⟨rfl, -⟩ := serves.eq_of_ok
      obtain rfl := Option.some.inj (decodes.symm.trans decoded)
      exact request.keeps_settle vetted sound

/-! ## Side by side -/

namespace Example

/-- A definition that keeps its rules. -/
def metric (name : String) : Metric :=
  { name, className := "c", attributes := ["a"], queryFilter := "", interval := 1000 }

/-- Two additions side by side.  The answer to the first that is written is
lost, and the second is written over it. -/
def lostAnswer : List Store.Turn :=
  [⟨0, .get Store.metricsKey, .ok none⟩, ⟨1, .get Store.metricsKey, .ok none⟩,
    ⟨0, .set Store.metricsKey (Metric.listText [metric "m"]), .error (.timeout "set" 2000)⟩,
    ⟨1, .set Store.metricsKey (Metric.listText [metric "n"]), .ok ()⟩]

theorem runs_lostAnswer :
    Store.Sharing.Runs
      ⟨Text.Map.empty, [Request.add (metric "m"), .add (metric "n")].map Request.program⟩
      lostAnswer
      ⟨(Text.Map.empty.insert Store.metricsKey (Metric.listText [metric "m"])).insert
          Store.metricsKey (Metric.listText [metric "n"]),
        [.done (.error (.store (.timeout "set" 2000))), .done (.ok [metric "n"])]⟩ := by
  have settles (name : String) :
      (Request.add (metric name)).afterReading (.ok none) =
        .ask (.set Store.metricsKey (Metric.listText [metric name])) fun answer =>
          .done ((answer.map fun _ => [metric name]).mapError .store) :=
    (Request.afterReading_of_decoded _ rfl).trans (Request.settle_of_revise rfl (by simp))
  refine .turn (congrArg some (Request.program_of_vetted rfl)) .succeeded ?_
  refine .turn (congrArg some (Request.program_of_vetted rfl)) .succeeded ?_
  refine .turn (congrArg some (settles "m")) (.unconfirmed _) ?_
  exact .turn (congrArg some (settles "n")) .succeeded (.stop _)

end Example

/-- However requests overlap and whatever calls fail, what is stored is a sound
list at any time.  Those that decided on an older list are no exception. -/
theorem isSound_of_overlapping {requests : List Request} {contents : Store.Contents}
    {turns : List Store.Turn} {last : Store.Sharing (Except Error (List Metric))} {text : String}
    (absent : contents.get? Store.metricsKey = none)
    (runs : Store.Sharing.Runs ⟨contents, requests.map Request.program⟩ turns last)
    (held : last.contents.get? Store.metricsKey = some text) :
    ∃ metrics, Metric.ofListText? text = some metrics ∧ IsSound metrics := by
  have start : SoundIn (contents.get? Store.metricsKey) := by
    rw [absent]
    exact soundIn_none
  have sound := runs.good start fun program member => by
    obtain ⟨request, -, rfl⟩ := List.mem_map.mp member
    exact request.keeps
  rwa [held] at sound

theorem isSound_after_lostAnswer :
    (Text.Map.empty : Store.Contents).get? Store.metricsKey = none ∧
      (∃ last, Store.Sharing.Runs
        ⟨Text.Map.empty, [Request.add (Example.metric "m"), .add (Example.metric "n")].map
          Request.program⟩
        Example.lostAnswer last ∧
        last.contents.get? Store.metricsKey = some (Metric.listText [Example.metric "n"])) ∧
      ∃ metrics, Metric.ofListText? (Metric.listText [Example.metric "n"]) = some metrics ∧
        IsSound metrics := by
  have held : ((Text.Map.empty.insert Store.metricsKey
      (Metric.listText [Example.metric "m"])).insert Store.metricsKey
        (Metric.listText [Example.metric "n"])).get? Store.metricsKey =
          some (Metric.listText [Example.metric "n"]) := by
    simp
  exact ⟨rfl, ⟨_, Example.runs_lostAnswer, held⟩,
    isSound_of_overlapping rfl Example.runs_lostAnswer held⟩

end Catalog
end InventoryGauges

import InventoryGauges.Inventory.Session
import InventoryGauges.Proofs.Sampling.Footprint
import Mathlib.Data.List.Forall2

/-!
# Rows of an answer

A class query is answered with a body, and a metric reads a row of it for each
item: the name of the object and a number for each attribute.  The body gives
the samples of all rows or none at all, and then the reason is the first one in
the order of reading.
-/

namespace InventoryGauges

namespace Http

/-- The exchanges that are told of a request and how it ended. -/
def Answered (request : Request) (answer : Answer request)
    (exchanges : List (Request × Except String Response)) : Prop :=
  exchanges = [(request, answer)]

/-- To send a request and conclude from the answer. -/
theorem finishes_send_bind_iff {Result : Type} {request : Request}
    {next : Except String Response → Exchange Result}
    {conclusion : Except String Response → Result}
    (concludes : ∀ answer, next answer = pure (conclusion answer))
    {exchanges : List (Request × Except String Response)} {result : Result} :
    Program.Finishes Answered (send request >>= next) exchanges result ↔
      ∃ answer, exchanges = [(request, answer)] ∧ result = conclusion answer := by
  rw [send, Program.finishes_bind_iff]
  constructor
  · rintro ⟨_, answer, rest, sends, ends, rfl⟩
    rw [concludes] at ends
    obtain ⟨rfl, rfl⟩ := Program.finishes_pure_iff.mp ends
    obtain rfl := Program.finishes_request_iff.mp sends
    exact ⟨answer, rfl, rfl⟩
  · rintro ⟨answer, rfl, rfl⟩
    exact ⟨_, answer, [], Program.finishes_request_iff.mpr rfl,
      concludes answer ▸ Program.finishes_pure_iff.mpr ⟨rfl, rfl⟩, rfl⟩

end Http

namespace Inventory

open Json (member?)

/-! ## Traversals that stop at a failure -/

section Traversal

variable {Value Result Failure : Type} {f : Value → Except Failure Result} {values : List Value}

/-- A value comes first, in a list, of those for which something does not hold. -/
def FirstWithout (holds : Value → Prop) (values : List Value) (value : Value) : Prop :=
  ∃ earlier later, values = earlier ++ value :: later ∧ (∀ other ∈ earlier, holds other) ∧
    ¬ holds value

theorem FirstWithout.not_holds {holds : Value → Prop} {value : Value}
    (first : FirstWithout holds values value) : ¬ holds value := by
  obtain ⟨-, -, -, -, not⟩ := first
  exact not

theorem mapM_eq_ok_iff {results : List Result} :
    values.mapM f = .ok results ↔
      List.Forall₂ (fun value result => f value = .ok result) values results := by
  induction values generalizing results with
  | nil =>
      rw [List.forall₂_nil_left_iff]
      exact ⟨fun succeeds => (Except.ok.inj succeeds).symm, fun none => none ▸ rfl⟩
  | cons value values hypothesis =>
      rw [mapM_cons_eq_ok_iff, List.forall₂_cons_left_iff]
      simp only [hypothesis]

theorem mapM_cons_eq_error_iff {value : Value} {failure : Failure} :
    (value :: values).mapM f = .error failure ↔
      f value = .error failure ∨ (∃ result, f value = .ok result) ∧
        values.mapM f = .error failure := by
  rw [List.mapM_cons]
  cases f value with
  | error other => simp [bind, Except.bind]
  | ok result => cases values.mapM f <;> simp [bind, Except.bind, pure, Except.pure]

theorem mapM_eq_ok_of_forall {g : Value → Result}
    (each : ∀ value ∈ values, f value = .ok (g value)) :
    values.mapM f = .ok (values.map g) := by
  induction values with
  | nil => rfl
  | cons value values hypothesis =>
      obtain ⟨own, others⟩ := List.forall_mem_cons.mp each
      exact mapM_cons_eq_ok_iff.mpr ⟨_, _, own, hypothesis others, rfl⟩

theorem exists_of_mapM_eq_ok {results : List Result} (succeeds : values.mapM f = .ok results) :
    ∀ value ∈ values, ∃ result, f value = .ok result := by
  induction values generalizing results with
  | nil => exact List.forall_mem_nil _
  | cons value values hypothesis =>
      obtain ⟨first, rest, own, others, -⟩ := mapM_cons_eq_ok_iff.mp succeeds
      exact List.forall_mem_cons.mpr ⟨⟨first, own⟩, hypothesis others⟩

/-- A traversal fails with the failure of the first value that has one. -/
theorem mapM_eq_error_iff {failure : Failure} :
    values.mapM f = .error failure ↔
      ∃ value, FirstWithout (fun other => ∃ result, f other = .ok result) values value ∧
        f value = .error failure := by
  induction values with
  | nil =>
      refine iff_of_false nofun ?_
      rintro ⟨value, ⟨earlier, later, split, -⟩, -⟩
      cases earlier <;> cases split
  | cons first values hypothesis =>
      rw [mapM_cons_eq_error_iff, hypothesis]
      constructor
      · rintro (fails | ⟨succeeds, value, ⟨earlier, later, rfl, before, not⟩, fails⟩)
        · refine ⟨first, ⟨[], values, rfl, List.forall_mem_nil _, ?_⟩, fails⟩
          rintro ⟨result, succeeds⟩
          cases fails.symm.trans succeeds
        · exact ⟨value, ⟨first :: earlier, later, rfl,
            List.forall_mem_cons.mpr ⟨succeeds, before⟩, not⟩, fails⟩
      · rintro ⟨value, ⟨earlier, later, split, before, not⟩, fails⟩
        cases earlier with
        | nil =>
            obtain ⟨rfl, rfl⟩ := List.cons.inj split
            exact Or.inl fails
        | cons other earlier =>
            obtain ⟨rfl, rfl⟩ := List.cons.inj split
            obtain ⟨succeeds, before⟩ := List.forall_mem_cons.mp before
            exact Or.inr ⟨succeeds, value, ⟨earlier, later, rfl, before, not⟩, fails⟩

end Traversal

/-! ## Rows of objects -/

/-- A JSON value stands for a number: it is one, or a text of one. -/
inductive StandsFor : Json → Binary64 → Prop
  | number (value : JsonNumber) : StandsFor (.number value) value.toBinary64
  | text {content : String} {value : Binary64}
      (reads : Decimal.real? (Text.trim content.toList) = some value) :
      StandsFor (.string content) value

/-- An object has a distinguished name. -/
def Object.HasName (object : Object) (dn : String) : Prop :=
  object.value? Object.identifierAttribute = some (.string dn)

/-- An object has a number in an attribute. -/
def Object.HasNumber (object : Object) (attributeName : String) (number : Binary64) : Prop :=
  ∃ value, object.value? attributeName = some value ∧ StandsFor value number

/-- What a metric reads of an object. -/
structure Row where
  /-- The distinguished name of the object. -/
  dn : String
  /-- The numbers in its attributes. -/
  number : String → Binary64

/-- An object has the name of a row, and its numbers in the attributes of a metric. -/
structure Row.IsOf (row : Row) (metric : Metric) (object : Object) : Prop where
  named : object.HasName row.dn
  numbered : ∀ attributeName ∈ metric.attributes,
    object.HasNumber attributeName (row.number attributeName)

/-- The samples of a row: one for each attribute of a metric, in their order. -/
def Row.samples (row : Row) (metric : Metric) : List Gauge.Sample :=
  metric.attributes.map fun attributeName =>
    { id := Gauge.identity metric.name row.dn attributeName
      metric := metric.name
      className := metric.className
      dn := row.dn
      attributeName
      value := row.number attributeName }

/-- Why a metric reads no row of an object: it has no name, or else its first attribute
without a number is the reason. -/
inductive Object.Offends (object : Object) (metric : Metric) : ExtractionError → Prop
  | unnamed (unnamed : ∀ dn, ¬ object.HasName dn) :
      Offends object metric (.missingIdentifier metric.className)
  | missing {dn attributeName : String} (named : object.HasName dn)
      (first : FirstWithout (fun other => ∃ number, object.HasNumber other number)
        metric.attributes attributeName)
      (missing : object.value? attributeName = none) :
      Offends object metric (.missingAttribute dn attributeName)
  | notNumeric {dn attributeName : String} {value : Json} (named : object.HasName dn)
      (first : FirstWithout (fun other => ∃ number, object.HasNumber other number)
        metric.attributes attributeName)
      (found : object.value? attributeName = some value) :
      Offends object metric (.notNumeric dn attributeName value.canonical.compact)

theorem numeric?_eq_some_iff {value : Json} {number : Binary64} :
    numeric? value = some number ↔ StandsFor value number := by
  constructor
  · intro reads
    cases value with
    | number own =>
        obtain rfl := Option.some.inj reads
        exact .number own
    | string content => exact .text reads
    | null | boolean _ | array _ | object _ => cases reads
  · rintro (_ | reads)
    · rfl
    · exact reads

namespace Object

variable {object : Object} {metric : Metric} {dn attributeName className : String}

theorem identifier_eq_ok_iff :
    object.identifier className = .ok dn ↔ object.HasName dn := by
  rw [identifier, HasName]
  cases object.value? identifierAttribute with
  | none => simp
  | some value => cases value <;> simp [Json.asString?]

theorem identifier_eq_error_iff {error : ExtractionError} :
    object.identifier className = .error error ↔
      error = .missingIdentifier className ∧ ∀ dn, ¬ object.HasName dn := by
  have named (dn : String) : object.HasName dn ↔ object.identifier className = .ok dn :=
    identifier_eq_ok_iff.symm
  simp only [named]
  rw [identifier]
  split <;> simp [eq_comm]

theorem numeric_eq_ok_iff {number : Binary64} :
    object.numeric dn attributeName = .ok number ↔ object.HasNumber attributeName number := by
  simp only [HasNumber, ← numeric?_eq_some_iff]
  rw [numeric]
  cases object.value? attributeName with
  | none => simp
  | some value =>
      dsimp only
      cases read : numeric? value <;> simp [read]

theorem exists_numeric_iff :
    (∃ number, object.numeric dn attributeName = .ok number) ↔
      ∃ number, object.HasNumber attributeName number := by
  simp only [numeric_eq_ok_iff]

theorem numeric_eq_error_iff {error : ExtractionError} :
    object.numeric dn attributeName = .error error ↔
      (∀ number, ¬ object.HasNumber attributeName number) ∧
        ((object.value? attributeName = none ∧ error = .missingAttribute dn attributeName) ∨
          ∃ value, object.value? attributeName = some value ∧
            error = .notNumeric dn attributeName value.canonical.compact) := by
  simp only [HasNumber, ← numeric?_eq_some_iff]
  rw [numeric]
  cases object.value? attributeName with
  | none => simp [eq_comm]
  | some value =>
      dsimp only
      cases read : numeric? value <;> simp [read, eq_comm]

/-- The number in an attribute, if there is one. -/
def number (object : Object) (attributeName : String) : Binary64 :=
  ((object.value? attributeName).bind numeric?).getD Binary64.zero

theorem HasNumber.number_eq {number : Binary64} (has : object.HasNumber attributeName number) :
    object.number attributeName = number := by
  obtain ⟨value, found, stands⟩ := has
  rw [Object.number, found, Option.bind_some, numeric?_eq_some_iff.mpr stands, Option.getD_some]

/-- The row of an object that has all that is read. -/
theorem exists_isOf (named : object.HasName dn)
    (numbered : ∀ attributeName ∈ metric.attributes,
      ∃ number, object.HasNumber attributeName number) :
    Row.IsOf ⟨dn, object.number⟩ metric object where
  named := named
  numbered := by
    intro attributeName member
    obtain ⟨number, has⟩ := numbered attributeName member
    obtain rfl := has.number_eq
    exact has

/-- The sample of an attribute fails as its number does. -/
theorem sample_eq_error_iff {error : ExtractionError} :
    (do
      let value ← object.numeric dn attributeName
      return Gauge.Sample.of metric.name metric.className dn attributeName value) = .error error ↔
      object.numeric dn attributeName = .error error := by
  cases object.numeric dn attributeName <;> simp [bind, Except.bind, pure, Except.pure]

theorem exists_sample_iff :
    (∃ sample, (do
      let value ← object.numeric dn attributeName
      return Gauge.Sample.of metric.name metric.className dn attributeName value) =
        Except.ok sample) ↔ ∃ number, object.HasNumber attributeName number := by
  have numbered : (∃ number, object.numeric dn attributeName = .ok number) ↔ _ :=
    exists_numeric_iff
  rw [← numbered]
  cases object.numeric dn attributeName <;> simp [bind, Except.bind, pure, Except.pure]

/-- An object with a row gives the samples of the row. -/
theorem samples_of_isOf {row : Row} (isOf : row.IsOf metric object) :
    object.samples metric = .ok (row.samples metric) := by
  have each : ∀ attributeName ∈ metric.attributes,
      (do
        let value ← object.numeric row.dn attributeName
        return Gauge.Sample.of metric.name metric.className row.dn attributeName value) =
          .ok (Gauge.Sample.of metric.name metric.className row.dn attributeName
            (row.number attributeName)) := by
    intro attributeName member
    rw [numeric_eq_ok_iff.mpr (isOf.numbered attributeName member)]
    rfl
  rw [samples, identifier_eq_ok_iff.mpr isOf.named]
  exact mapM_eq_ok_of_forall each

/-- The samples of an object are those of its row. -/
theorem samples_eq_ok_iff {samples : List Gauge.Sample} :
    object.samples metric = .ok samples ↔
      ∃ row : Row, row.IsOf metric object ∧ samples = row.samples metric := by
  constructor
  · intro succeeds
    obtain ⟨dn, identified, each⟩ := exists_of_bind_eq_ok succeeds
    have isOf := exists_isOf (identifier_eq_ok_iff.mp identified) fun attributeName member =>
      exists_sample_iff.mp (exists_of_mapM_eq_ok each attributeName member)
    exact ⟨_, isOf, Except.ok.inj (succeeds.symm.trans (samples_of_isOf isOf))⟩
  · rintro ⟨row, isOf, rfl⟩
    exact samples_of_isOf isOf

/-- An object without a row fails with the reason. -/
theorem samples_eq_error_iff {error : ExtractionError} :
    object.samples metric = .error error ↔ object.Offends metric error := by
  constructor
  · intro fails
    cases identified : object.identifier metric.className with
    | error unnamed =>
        rw [samples, identified] at fails
        obtain rfl := Except.error.inj fails
        obtain ⟨rfl, none⟩ := identifier_eq_error_iff.mp identified
        exact .unnamed none
    | ok dn =>
        rw [samples, identified] at fails
        have named := identifier_eq_ok_iff.mp identified
        obtain ⟨attributeName, first, failsThere⟩ := mapM_eq_error_iff.mp fails
        simp only [exists_sample_iff] at first
        rcases numeric_eq_error_iff.mp (sample_eq_error_iff.mp failsThere) with
          ⟨-, ⟨missing, rfl⟩ | ⟨value, found, rfl⟩⟩
        · exact .missing named first missing
        · exact .notNumeric named first found
  · have fails {dn attributeName : String} (named : object.HasName dn)
        (first : FirstWithout (fun other => ∃ number, object.HasNumber other number)
          metric.attributes attributeName)
        (why : (object.value? attributeName = none ∧ error = .missingAttribute dn attributeName) ∨
          ∃ value, object.value? attributeName = some value ∧
            error = .notNumeric dn attributeName value.canonical.compact) :
        object.samples metric = .error error := by
      rw [samples, identifier_eq_ok_iff.mpr named]
      refine mapM_eq_error_iff.mpr ⟨attributeName, ?_, sample_eq_error_iff.mpr
        (numeric_eq_error_iff.mpr ⟨not_exists.mp first.not_holds, why⟩)⟩
      simp only [exists_sample_iff]
      exact first
    rintro (unnamed | ⟨named, first, missing⟩ | ⟨named, first, found⟩)
    · rw [samples, identifier_eq_error_iff.mpr ⟨rfl, unnamed⟩]
      rfl
    · exact fails named first (Or.inl ⟨missing, rfl⟩)
    · exact fails named first (Or.inr ⟨_, found, rfl⟩)

end Object

section Extract

variable {metric : Metric} {objects : List Object}

/-- What is extracted are the samples of all rows, in order. -/
theorem extract_eq_ok_iff {samples : List Gauge.Sample} :
    extract metric objects = .ok samples ↔
      ∃ rows : List Row, List.Forall₂ (fun object row => row.IsOf metric object) objects rows ∧
        samples = rows.flatMap (Row.samples · metric) := by
  have nested (each : List (List Gauge.Sample)) :
      objects.mapM (fun object => object.samples metric) = .ok each ↔
        ∃ rows : List Row, List.Forall₂ (fun object row => row.IsOf metric object) objects rows ∧
          each = rows.map (Row.samples · metric) := by
    rw [mapM_eq_ok_iff]
    simp only [Object.samples_eq_ok_iff]
    induction objects generalizing each with
    | nil => simp
    | cons object objects hypothesis =>
        simp only [List.forall₂_cons_left_iff, hypothesis]
        constructor
        · rintro ⟨_, _, ⟨row, isOf, rfl⟩, ⟨rows, others, rfl⟩, rfl⟩
          exact ⟨row :: rows, ⟨row, rows, isOf, others, rfl⟩, rfl⟩
        · rintro ⟨_, ⟨row, rows, isOf, others, rfl⟩, rfl⟩
          exact ⟨_, _, ⟨row, isOf, rfl⟩, ⟨rows, others, rfl⟩, rfl⟩
  constructor
  · intro succeeds
    obtain ⟨each, sampled, flat⟩ := exists_of_bind_eq_ok succeeds
    obtain ⟨rows, areOf, rfl⟩ := (nested each).mp sampled
    exact ⟨rows, areOf, (Except.ok.inj flat).symm.trans List.flatMap_def.symm⟩
  · rintro ⟨rows, areOf, rfl⟩
    rw [extract, (nested _).mpr ⟨rows, areOf, rfl⟩, List.flatMap_def]
    rfl

/-- The first object without a row is the reason why nothing is extracted. -/
theorem extract_eq_error_iff {error : ExtractionError} :
    extract metric objects = .error error ↔
      ∃ object, FirstWithout (fun other => ∃ row : Row, row.IsOf metric other) objects object ∧
        object.Offends metric error := by
  have rowed (object : Object) : (∃ samples, object.samples metric = .ok samples) ↔
      ∃ row : Row, row.IsOf metric object := by
    simp only [Object.samples_eq_ok_iff]
    exact ⟨fun ⟨_, row, isOf, _⟩ => ⟨row, isOf⟩, fun ⟨row, isOf⟩ => ⟨_, row, isOf, rfl⟩⟩
  have fails : extract metric objects = .error error ↔
      objects.mapM (fun object => object.samples metric) = .error error := by
    rw [extract]
    cases objects.mapM fun object => object.samples metric <;>
      simp [bind, Except.bind, pure, Except.pure]
  rw [fails, mapM_eq_error_iff]
  simp only [rowed, Object.samples_eq_error_iff]

end Extract

/-! ## Objects of a body -/

/-- An item holds the attributes of an object of a class. -/
def Holds (className : String) (item : Json) (object : Object) : Prop :=
  ∃ entry, item.member? className = some entry ∧
    entry.member? "attributes" = some (.object object.attributes)

/-- A body is a JSON document with a list of items that hold these objects of a class. -/
def Lists (className body : String) (objects : List Object) : Prop :=
  ∃ document items, Json.ofString? body = some document ∧
    document.member? "imdata" = some (.array items) ∧
      List.Forall₂ (Holds className) items objects

section Body

variable {className body : String} {objects : List Object}

theorem item_eq_ok_iff {item : Json} {object : Object} {failure : Error} :
    (match (item.member? className).bind fun members => members.member? "attributes" with
      | some (.object attributes) => .ok ⟨attributes⟩
      | _ => .error failure : Except Error Object) = .ok object ↔ Holds className item object := by
  obtain ⟨attributes⟩ := object
  rw [Holds]
  cases item.member? className with
  | none => simp
  | some entry =>
      cases found : entry.member? "attributes" with
      | none => simp [found]
      | some value => cases value <;> simp [found]

/-- The objects of a body are what its items hold. -/
theorem objectsOf_eq_ok_iff :
    objectsOf className body = .ok objects ↔ Lists className body objects := by
  rw [objectsOf, Lists]
  cases Json.ofString? body with
  | none => simp
  | some document =>
      cases listed : document.member? "imdata" with
      | none => simp [listed]
      | some value =>
          cases value with
          | array items =>
              simp only [listed, Option.bind_some, Json.asArray?, mapM_eq_ok_iff, Option.some.injEq,
                Json.array.injEq, exists_and_left, exists_eq_left']
              exact ⟨fun held => held.imp fun _ _ => item_eq_ok_iff.mp,
                fun held => held.imp fun _ _ => item_eq_ok_iff.mpr⟩
          | _ => simp [listed, Json.asArray?]

/-- A body without objects cannot be decoded. -/
theorem exists_decode_of_objectsOf {error : Error}
    (fails : objectsOf className body = .error error) :
    ∃ message, error = .decode message := by
  rw [objectsOf] at fails
  split at fails
  · exact ⟨_, (Except.error.inj fails).symm⟩
  · split at fails
    · exact ⟨_, (Except.error.inj fails).symm⟩
    · obtain ⟨item, -, fails⟩ := mapM_eq_error_iff.mp fails
      split at fails
      · cases fails
      · exact ⟨_, (Except.error.inj fails).symm⟩

end Body

/-! ## From the body of a response to samples -/

namespace Session

/-- How an attempt ends whose request is answered so. -/
def Attempt.of (className : String) : Except String Http.Response → Attempt
  | .error message => .finished (.error (.transport message))
  | .ok response =>
      if response.status = 401 || response.status = 403 then .unauthorized
      else
        match response.body with
        | .error message => .finished (.error (.transport message))
        | .ok body =>
            if response.status ≠ 200 then
              .finished (.error (.query className response.status body))
            else .finished (objectsOf className body)

theorem finishes_attempt_iff {session : Session} {className filter : String}
    {exchanges : List (Http.Request × Except String Http.Response)} {attempted : Attempt} :
    Program.Finishes Http.Answered (session.attempt className filter) exchanges attempted ↔
      ∃ answer, exchanges = [(session.classRequest className filter, answer)] ∧
        attempted = Attempt.of className answer := by
  refine Http.finishes_send_bind_iff fun answer => ?_
  cases answer with
  | error message => rfl
  | ok response =>
      dsimp only [Attempt.of]
      split
      · rfl
      · cases response.body with
        | error message => rfl
        | ok body =>
            dsimp only
            split <;> rfl

/-- A query whose request is answered with success gives what the body lists. -/
theorem finishes_query_of_success_iff {session after : Session}
    {className filter body : String} {result : Except Error (List Object)} :
    Program.Finishes Http.Answered (session.query className filter)
        [(session.classRequest className filter, .ok ⟨200, .ok body⟩)] (result, after) ↔
      result = objectsOf className body ∧ after = session := by
  have attempted : Attempt.of className (.ok ⟨200, .ok body⟩) =
      .finished (objectsOf className body) := rfl
  rw [query, Program.finishes_bind_iff]
  constructor
  · rintro ⟨_, _, rest, attempts, continues, split⟩
    obtain ⟨answer, rfl, rfl⟩ := finishes_attempt_iff.mp attempts
    obtain ⟨same, -⟩ := List.cons.inj split
    cases same
    rw [attempted] at continues
    obtain ⟨-, ends⟩ := Program.finishes_done_iff.mp continues
    exact Prod.mk.inj ends
  · rintro ⟨rfl, rfl⟩
    refine ⟨_, _, [], finishes_attempt_iff.mpr ⟨_, rfl, rfl⟩, ?_, rfl⟩
    rw [attempted]
    exact .done _

end Session

/-- A metric collects a result in a session if its class query is answered with success
and this body. -/
def Collects (session : Session) (metric : Metric) (body : String)
    (result : Except Sampling.Error (List Gauge.Sample)) : Prop :=
  ∃ answer after,
    Program.Finishes Http.Answered (session.query metric.className metric.queryFilter)
      [(session.classRequest metric.className metric.queryFilter, .ok ⟨200, .ok body⟩)]
      (answer, after) ∧
    Program.Finishes Work.Answered (Sampling.collect metric)
      [.query metric.className metric.queryFilter answer] result

theorem collects_iff {session : Session} {metric : Metric} {body : String}
    {result : Except Sampling.Error (List Gauge.Sample)} :
    Collects session metric body result ↔
      Sampling.extracted metric (objectsOf metric.className body) = result := by
  simp only [Collects, Session.finishes_query_of_success_iff, Sampling.finishes_collect_iff]
  constructor
  · rintro ⟨_, _, ⟨rfl, -⟩, _, same, rfl⟩
    cases same
    rfl
  · rintro rfl
    exact ⟨_, session, ⟨rfl, rfl⟩, _, rfl, rfl⟩

section Extracted

variable {metric : Metric} {answer : Except Error (List Object)}

theorem extracted_eq_ok_iff {samples : List Gauge.Sample} :
    Sampling.extracted metric answer = .ok samples ↔
      ∃ objects, answer = .ok objects ∧ extract metric objects = .ok samples := by
  cases answer with
  | error error => simp [Sampling.extracted]
  | ok objects =>
      rw [Sampling.extracted]
      cases read : extract metric objects <;> simp [Except.mapError, read]

theorem extracted_eq_inventory_iff {error : Error} :
    Sampling.extracted metric answer = .error (.inventory error) ↔ answer = .error error := by
  cases answer with
  | error other => simp [Sampling.extracted]
  | ok objects =>
      rw [Sampling.extracted]
      cases extract metric objects <;> simp [Except.mapError]

theorem extracted_eq_extraction_iff {error : ExtractionError} :
    Sampling.extracted metric answer = .error (.extraction error) ↔
      ∃ objects, answer = .ok objects ∧ extract metric objects = .error error := by
  cases answer with
  | error other => simp [Sampling.extracted]
  | ok objects =>
      rw [Sampling.extracted]
      cases read : extract metric objects <;> simp [Except.mapError, read]

end Extracted

/-- The answer to a class query gives the samples of a row for each item of its body, in
the order of the items and of the attributes, or nothing.  If there is no row for each
item, then the answer cannot be decoded, or the first object without a row is the reason,
and in it the missing name or else the first attribute without a number. -/
theorem collects_all_or_first_reason (session : Session) (metric : Metric) (body : String) :
    (∃! result, Collects session metric body result) ∧
    (∀ samples, Collects session metric body (.ok samples) ↔
      ∃ objects rows, Lists metric.className body objects ∧
        List.Forall₂ (fun object (row : Row) => row.IsOf metric object) objects rows ∧
          samples = rows.flatMap (Row.samples · metric)) ∧
    ((∃ message, Collects session metric body (.error (.inventory (.decode message)))) ↔
      ∀ objects, ¬ Lists metric.className body objects) ∧
    (∀ error, Collects session metric body (.error (.inventory error)) →
      ∃ message, error = .decode message) ∧
    (∀ error, Collects session metric body (.error (.extraction error)) ↔
      ∃ objects object, Lists metric.className body objects ∧
        FirstWithout (fun other => ∃ row : Row, row.IsOf metric other) objects object ∧
          object.Offends metric error) := by
  simp only [collects_iff, extracted_eq_ok_iff, extracted_eq_inventory_iff,
    extracted_eq_extraction_iff, objectsOf_eq_ok_iff, extract_eq_ok_iff, extract_eq_error_iff]
  refine ⟨existsUnique_eq', fun samples => ?_, ?_, fun error => ?_, fun error => ?_⟩
  · simp only [exists_and_left]
  · simp only [← objectsOf_eq_ok_iff]
    cases decoded : objectsOf metric.className body with
    | error error =>
        obtain ⟨message, rfl⟩ := exists_decode_of_objectsOf decoded
        exact iff_of_true ⟨message, rfl⟩ nofun
    | ok objects => exact iff_of_false nofun fun none => none objects rfl
  · exact exists_decode_of_objectsOf
  · simp only [exists_and_left]

end Inventory
end InventoryGauges

import InventoryGauges.Proofs.Json.Canonical
import InventoryGauges.Proofs.Store.Encoding

/-!
# Documents from outside

A document is accepted as a definition exactly if it describes one that keeps
its rules.  Its shape, the types of its members and its decoding are three
accounts of the same five fields, and they agree: what has the shape and the
types is decoded, to the definition that it describes.
-/

namespace InventoryGauges
namespace Metric

open Json

/-! ## What a document describes -/

/-- What a definition has in a field. -/
def valueOf (metric : Metric) : Field → Json
  | .name => .string metric.name
  | .className => .string metric.className
  | .attributes => .array (metric.attributes.map .string)
  | .queryFilter => .string metric.queryFilter
  | .interval => .number (.integer metric.interval.toNat)

/-- An object whose members have exactly the names of the fields. -/
structure IsShaped (document : Json) : Prop where
  isObject : ∃ members, document = .object members
  named : ∀ name, (document.member? name).isSome ↔ ∃ field : Field, field.label = name

/-- A value of a field's type. -/
def IsOfType (value : Json) : Field → Prop
  | .name | .className | .queryFilter => ∃ text, value = .string text
  | .attributes => ∃ texts : List String, value = .array (texts.map .string)
  | .interval => ∃ number : UInt64, value = .number (.integer number.toNat)

/-- A document with a member of the field's type. -/
def IsTyped (document : Json) (field : Field) : Prop :=
  ∃ value, document.member? field.label = some value ∧ IsOfType value field

/-- A document of the right shape with the values of a definition. -/
structure Describes (document : Json) (metric : Metric) : Prop where
  shaped : IsShaped document
  valued : ∀ field, document.member? field.label = some (metric.valueOf field)

/-- The first of the fields, in their order, with a property. -/
def IsFirst (holds : Field → Prop) (field : Field) : Prop :=
  ∃ earlier later, Field.all = earlier ++ field :: later ∧ holds field ∧
    ∀ other ∈ earlier, ¬ holds other

/-- What a refusal of a document blames: its shape, else the first member of a wrong
type, else the first field that breaks its rule. -/
inductive Blames (document : Json) : String → Prop
  | shape (misshaped : ¬ IsShaped document) : Blames document "metric"
  | type {field : Field} (shaped : IsShaped document)
      (first : IsFirst (fun field => ¬ IsTyped document field) field) :
      Blames document field.label
  | rule {metric : Metric} {field : Field} (describes : Describes document metric)
      (first : IsFirst (fun field => ¬ metric.keepsRule field) field) :
      Blames document field.label

theorem Field.mem_all (field : Field) : field ∈ Field.all := by
  cases field <;> decide

theorem find?_all_eq_some_iff {check : Field → Bool} {field : Field} :
    Field.all.find? check = some field ↔ IsFirst (fun field => check field) field := by
  rw [List.find?_eq_some_iff_append, IsFirst]
  constructor
  · rintro ⟨holds, earlier, later, split, others⟩
    exact ⟨earlier, later, split, holds, by simpa using others⟩
  · rintro ⟨earlier, later, split, holds, others⟩
    exact ⟨holds, earlier, later, split, by simpa using others⟩

/-! ## Shape and types -/

theorem names_eq_iff {document : Json} :
    document.names = Text.Set.ofList (Field.all.map Field.label) ↔
      ∀ name, (document.member? name).isSome ↔ ∃ field : Field, field.label = name := by
  have listed (name : String) : name ∈ Text.Set.ofList (Field.all.map Field.label) ↔
      ∃ field : Field, field.label = name := by
    simp [Field.mem_all]
  constructor
  · intro same name
    rw [← mem_names, same, listed]
  · intro named
    apply Text.Set.ext
    intro name
    rw [mem_names, named, listed]

theorem isSome_asString?_iff {value : Json} :
    value.asString?.isSome ↔ ∃ text, value = .string text := by
  cases value <;> simp [asString?]

theorem all_isSome_asString?_iff {items : List Json} :
    (items.all fun item => item.asString?.isSome) ↔
      ∃ texts : List String, items = texts.map .string := by
  rw [List.all_eq_true]
  constructor
  · intro strings
    induction items with
    | nil => exact ⟨[], rfl⟩
    | cons item items hypothesis =>
        obtain ⟨text, rfl⟩ := isSome_asString?_iff.mp (strings item List.mem_cons_self)
        obtain ⟨texts, rfl⟩ := hypothesis fun other member =>
          strings other (List.mem_cons_of_mem _ member)
        exact ⟨text :: texts, rfl⟩
  · rintro ⟨texts, rfl⟩ item member
    obtain ⟨text, -, rfl⟩ := List.mem_map.mp member
    rfl

theorem unsigned?_eq_some_iff {value : Json} {number : UInt64} :
    unsigned? value = some number ↔ value = .number (.integer number.toNat) := by
  constructor
  · intro unsigned
    rcases value with _ | _ | ⟨value | _⟩ | _ | _ | _ <;> try cases unsigned
    rw [unsigned?, JsonNumber.unsigned?] at unsigned
    split at unsigned
    · rename_i bounds
      have limit : Int.pow 2 64 = 18446744073709551616 := rfl
      simp only [Bool.and_eq_true, decide_eq_true_eq, limit] at bounds
      obtain rfl := Option.some.inj unsigned
      have fits : value.toNat % 2 ^ 64 = value.toNat := Nat.mod_eq_of_lt (by omega)
      rw [UInt64.toNat_ofNat', fits, Int.toNat_of_nonneg bounds.1]
    · cases unsigned
  · rintro rfl
    exact unsigned?_toNat number

theorem admits_iff {value : Json} {field : Field} :
    field.admits value ↔ IsOfType value field := by
  cases field with
  | name => exact isSome_asString?_iff
  | className => exact isSome_asString?_iff
  | attributes =>
      cases value <;> simp [Field.admits, IsOfType, asArray?, ← all_isSome_asString?_iff]
  | queryFilter => exact isSome_asString?_iff
  | interval => simp [Field.admits, IsOfType, Option.isSome_iff_exists, unsigned?_eq_some_iff]

theorem hasType_iff {document : Json} {field : Field} :
    hasType document field ↔ IsTyped document field := by
  simp [hasType, IsTyped, Option.any_eq_true, admits_iff]

/-- A document of the right shape and types describes a definition. -/
theorem IsShaped.exists_describes {document : Json} (shaped : IsShaped document)
    (typed : ∀ field, IsTyped document field) : ∃ metric, Describes document metric := by
  obtain ⟨_, named, name, rfl⟩ := typed .name
  obtain ⟨_, classNamed, className, rfl⟩ := typed .className
  obtain ⟨_, listed, attributes, rfl⟩ := typed .attributes
  obtain ⟨_, filtered, queryFilter, rfl⟩ := typed .queryFilter
  obtain ⟨_, timed, interval, rfl⟩ := typed .interval
  refine ⟨⟨name, className, attributes, queryFilter, interval⟩, shaped, ?_⟩
  rintro (_ | _ | _ | _ | _)
  · exact named
  · exact classNamed
  · exact listed
  · exact filtered
  · exact timed

theorem Describes.isTyped {document : Json} {metric : Metric}
    (describes : Describes document metric) (field : Field) : IsTyped document field := by
  refine ⟨_, describes.valued field, ?_⟩
  cases field <;> exact ⟨_, rfl⟩

/-! ## Decoding -/

theorem describes_toJson (metric : Metric) : Describes metric.toJson metric where
  shaped := ⟨⟨_, rfl⟩, names_eq_iff.mp rfl⟩
  valued := by rintro (_ | _ | _ | _ | _) <;> rfl

/-- Two documents that describe the same definition have the same canonical form. -/
theorem Describes.canonical_eq {left right : Json} {metric : Metric}
    (describesLeft : Describes left metric) (describesRight : Describes right metric) :
    left.canonical = right.canonical := by
  obtain ⟨members, rfl⟩ := describesLeft.shaped.isObject
  obtain ⟨others, rfl⟩ := describesRight.shaped.isObject
  apply canonical_object_eq
  intro name
  by_cases named : ∃ field : Field, field.label = name
  · obtain ⟨field, rfl⟩ := named
    rw [describesLeft.valued, describesRight.valued]
  · have absentLeft := mt (describesLeft.shaped.named name).mp named
    have absentRight := mt (describesRight.shaped.named name).mp named
    rw [Option.not_isSome_iff_eq_none] at absentLeft absentRight
    rw [absentLeft, absentRight]

@[simp] theorem canonical_valueOf (metric : Metric) (field : Field) :
    (metric.valueOf field).canonical = metric.valueOf field := by
  cases field <;> simp [valueOf, canonical]

theorem ofValues?_valueOf (metric : Metric) :
    ofValues? (metric.valueOf .name) (metric.valueOf .className) (metric.valueOf .attributes)
      (metric.valueOf .queryFilter) (metric.valueOf .interval) = some metric := by
  simp [ofValues?, valueOf, asString?]

theorem onlyMember?_entries (map : Text.Map Json) (name : String) :
    onlyMember? map.entries name = map.get? name := by
  rw [onlyMember?, Text.Map.filter_key_eq map.increasing, Text.Map.get?]
  cases Text.Map.find? name map.entries <;> rfl

/-- What describes a definition is decoded to it. -/
theorem Describes.ofStored?_canonical {document : Json} {metric : Metric}
    (describes : Describes document metric) : ofStored? document.canonical = some metric := by
  obtain ⟨members, rfl⟩ := describes.shaped.isObject
  have known : (canonicalMap members).entries.all fun entry =>
      Field.all.any fun field => field.label == entry.1 := by
    rw [List.all_eq_true]
    intro entry member
    have found := Text.Map.mem_keys.mp (List.mem_map_of_mem member)
    rw [get?_canonicalMap, Option.isSome_map, describes.shaped.named] at found
    obtain ⟨field, label⟩ := found
    exact List.any_eq_true.mpr ⟨field, field.mem_all, beq_iff_eq.mpr label⟩
  rw [canonical_object, ofStored?, if_pos known]
  simp only [onlyMember?_entries, get?_canonicalMap, describes.valued, Option.map_some,
    canonical_valueOf]
  exact ofValues?_valueOf metric

/-! ## Verdicts -/

theorem ofDocument_of_misshaped {document : Json} (misshaped : ¬ IsShaped document) :
    ∃ rejection, ofDocument document = .error rejection ∧ rejection.fieldLabel = "metric" := by
  cases document with
  | object members =>
      have differs : (object members).names ≠ Text.Set.ofList (Field.all.map Field.label) :=
        fun same => misshaped ⟨⟨members, rfl⟩, names_eq_iff.mp same⟩
      refine ⟨.wrongShape, ?_, rfl⟩
      simp only [ofDocument, if_pos differs]
      rfl
  | _ => exact ⟨.notObject, rfl, rfl⟩

theorem IsShaped.ofDocument_eq {document : Json} (shaped : IsShaped document) :
    ofDocument document =
      match Field.all.find? fun field => !hasType document field with
      | some field => .error (.wrongType field)
      | none =>
          match ofStored? document.canonical with
          | none => .error .undecodable
          | some metric => metric.check.map fun _ => metric := by
  obtain ⟨members, rfl⟩ := shaped.isObject
  have same : (object members).names = Text.Set.ofList (Field.all.map Field.label) :=
    names_eq_iff.mpr shaped.named
  simp only [ofDocument, if_neg (not_not_intro same)]
  cases Field.all.find? fun field => !hasType (object members) field with
  | some field => rfl
  | none => cases ofStored? (object members).canonical <;> rfl

/-- A definition that a document describes is accepted if it keeps its rules, and else
refused for the first that it breaks. -/
theorem Describes.ofDocument_eq {document : Json} {metric : Metric}
    (describes : Describes document metric) :
    ofDocument document = metric.check.map fun _ => metric := by
  have typed : (Field.all.find? fun field => !hasType document field) = none := by
    rw [List.find?_eq_none]
    intro field _
    simp [hasType_iff.mpr (describes.isTyped field)]
  rw [describes.shaped.ofDocument_eq, typed, describes.ofStored?_canonical]

theorem isFirst_mistyped_iff {document : Json} {field : Field} :
    (Field.all.find? fun field => !hasType document field) = some field ↔
      IsFirst (fun field => ¬ IsTyped document field) field := by
  simp [find?_all_eq_some_iff, ← hasType_iff]

theorem isFirst_broken_iff {metric : Metric} {field : Field} :
    (Field.all.find? fun field => !metric.keepsRule field) = some field ↔
      IsFirst (fun field => ¬ metric.keepsRule field) field := by
  simp [find?_all_eq_some_iff]

/-- A document has the wrong shape or a member of a wrong type, or it describes a
definition. -/
theorem describes_or_not (document : Json) :
    ¬ IsShaped document ∨
      (IsShaped document ∧ ∃ field, IsFirst (fun field => ¬ IsTyped document field) field) ∨
      ∃ metric, Describes document metric := by
  by_cases shaped : IsShaped document
  · cases mistyped : Field.all.find? fun field => !hasType document field with
    | some field => exact Or.inr (Or.inl ⟨shaped, field, isFirst_mistyped_iff.mp mistyped⟩)
    | none =>
        refine Or.inr (Or.inr (shaped.exists_describes fun field => hasType_iff.mp ?_))
        simpa using List.find?_eq_none.mp mistyped field field.mem_all
  · exact Or.inl shaped

theorem IsShaped.ofDocument_of_mistyped {document : Json} {field : Field}
    (shaped : IsShaped document)
    (first : IsFirst (fun field => ¬ IsTyped document field) field) :
    ofDocument document = .error (.wrongType field) := by
  rw [shaped.ofDocument_eq, isFirst_mistyped_iff.mpr first]

theorem check_of_broken {metric : Metric} {field : Field}
    (first : IsFirst (fun field => ¬ metric.keepsRule field) field) :
    metric.check = .error (.brokenRule field) := by
  rw [check, isFirst_broken_iff.mpr first]

theorem check_eq_ok_or (metric : Metric) :
    metric.check = .ok () ∨ ∃ field, IsFirst (fun field => ¬ metric.keepsRule field) field := by
  rw [check]
  cases broken : Field.all.find? fun field => !metric.keepsRule field with
  | none => exact Or.inl rfl
  | some field => exact Or.inr ⟨field, isFirst_broken_iff.mp broken⟩

/-- A definition that passes its check keeps each of its rules. -/
theorem keepsRule_of_check {metric : Metric} (checked : metric.check = .ok ())
    (field : Field) : metric.keepsRule field := by
  cases broken : Field.all.find? fun field => !metric.keepsRule field with
  | none => simpa using List.find?_eq_none.mp broken field field.mem_all
  | some first => cases checked.symm.trans (check_of_broken (isFirst_broken_iff.mp broken))

/-- A document is accepted for what it describes, or refused for the first that is
wrong. -/
theorem accepted_or_blamed (document : Json) :
    (∃ metric, ofDocument document = .ok metric ∧
      Describes document metric ∧ metric.check = .ok ()) ∨
    ∃ rejection, ofDocument document = .error rejection ∧
      Blames document rejection.fieldLabel := by
  rcases describes_or_not document with misshaped | ⟨shaped, field, first⟩ | ⟨metric, describes⟩
  · obtain ⟨rejection, refused, label⟩ := ofDocument_of_misshaped misshaped
    exact Or.inr ⟨rejection, refused, label ▸ .shape misshaped⟩
  · exact Or.inr ⟨_, shaped.ofDocument_of_mistyped first, .type shaped first⟩
  · rw [describes.ofDocument_eq]
    rcases metric.check_eq_ok_or with kept | ⟨field, first⟩
    · rw [kept]
      exact Or.inl ⟨metric, rfl, describes, kept⟩
    · rw [check_of_broken first]
      exact Or.inr ⟨_, rfl, .rule describes first⟩

/-- A definition is accepted exactly from the documents that describe it, if it keeps
its rules. -/
theorem ofDocument_eq_ok_iff {document : Json} {metric : Metric} :
    ofDocument document = .ok metric ↔ Describes document metric ∧ metric.check = .ok () := by
  constructor
  · intro accepted
    rcases accepted_or_blamed document with ⟨other, same, describes⟩ | ⟨rejection, refused, -⟩
    · obtain rfl := Except.ok.inj (accepted.symm.trans same)
      exact describes
    · cases accepted.symm.trans refused
  · rintro ⟨describes, kept⟩
    rw [describes.ofDocument_eq, kept]
    rfl

/-- A refusal blames the first that is wrong. -/
theorem exists_refusal_iff_blames {document : Json} {label : String} :
    (∃ rejection, ofDocument document = .error rejection ∧ rejection.fieldLabel = label) ↔
      Blames document label := by
  constructor
  · rintro ⟨rejection, refused, rfl⟩
    rcases accepted_or_blamed document with ⟨metric, accepted, -⟩ | ⟨other, same, blames⟩
    · cases refused.symm.trans accepted
    · obtain rfl := Except.error.inj (refused.symm.trans same)
      exact blames
  · rintro (misshaped | ⟨shaped, first⟩ | ⟨describes, first⟩)
    · exact ofDocument_of_misshaped misshaped
    · exact ⟨_, shaped.ofDocument_of_mistyped first, rfl⟩
    · refine ⟨.brokenRule _, ?_, rfl⟩
      rw [describes.ofDocument_eq, check_of_broken first]
      rfl

/-- A document is accepted as a definition exactly if it describes one that keeps its
rules, and the document of that definition is the same up to order and repetition of
members; else its shape, the first mistyped member or the first broken rule is blamed.
The document of a definition is accepted exactly if that keeps its rules, and decoding
never fails after shape and types have been checked. -/
theorem ofDocument_accepts_described (document : Json) :
    (∀ metric, ofDocument document = .ok metric ↔
      Describes document metric ∧ metric.check = .ok ()) ∧
    (∀ metric, ofDocument document = .ok metric →
      metric.toJson.canonical = document.canonical) ∧
    (∀ metric, ofDocument metric.toJson = .ok metric ↔ metric.check = .ok ()) ∧
    (∀ label, (∃ rejection, ofDocument document = .error rejection ∧
      rejection.fieldLabel = label) ↔ Blames document label) ∧
    (IsShaped document → (∀ field, IsTyped document field) →
      ∃ metric, ofStored? document.canonical = some metric ∧ Describes document metric) := by
  refine ⟨fun metric => ofDocument_eq_ok_iff, ?_, ?_, fun label => exists_refusal_iff_blames, ?_⟩
  · intro metric accepted
    exact metric.describes_toJson.canonical_eq (ofDocument_eq_ok_iff.mp accepted).1
  · intro metric
    rw [ofDocument_eq_ok_iff]
    exact and_iff_right metric.describes_toJson
  · intro shaped typed
    obtain ⟨metric, describes⟩ := shaped.exists_describes typed
    exact ⟨metric, describes.ofStored?_canonical, describes⟩

end Metric
end InventoryGauges

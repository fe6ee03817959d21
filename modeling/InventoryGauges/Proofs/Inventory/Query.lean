import InventoryGauges.Inventory.Session
import InventoryGauges.Proofs.Url.Encoding

/-!
# Filters in queries

A filter is written into the query of an address such that it is one value there: it
adds no parameter and no fragment, the address does not encode it once more, and it is
read back byte for byte.
-/

namespace InventoryGauges

namespace Url

/-- A character that a query shows as it is, in an address of any kind. -/
def isSolid (character : Char) : Bool :=
  decide (character.toNat < 0x80) && isKeptInQuery .known character && !isIgnored character

theorem isKeptInQuery_of_known {character : Char} (kept : isKeptInQuery .known character)
    (kind : Kind) : isKeptInQuery kind character := by
  simp only [isKeptInQuery, Bool.and_eq_true, Bool.or_eq_true] at kept ⊢
  exact ⟨kept.1, kept.2.imp_left nofun⟩

/-- A query of solid characters is not encoded once more. -/
theorem query?_withQuery {query : List Char} (solid : ∀ character ∈ query, isSolid character)
    (url : Url) : (url.withQuery query).query? = some query := by
  simp only [isSolid, Bool.and_eq_true, decide_eq_true_eq] at solid
  have noticed : query.filter (!isIgnored ·) = query :=
    List.filter_eq_self.mpr fun character member => (solid character member).2
  rw [withQuery, noticed, encoded_eq_self]
  intro character member
  obtain ⟨⟨small, kept⟩, -⟩ := solid character member
  exact ⟨small, isKeptInQuery_of_known kept _⟩

end Url

namespace Inventory

/-- The parameters of a query, each of which is divided at its equals signs. -/
def parameters (query : List Char) : List (List (List Char)) :=
  (Text.splitAtAll (· == '&') query).map (Text.splitAtAll (· == '='))

/-- A character that a value shows as it is: a letter, a digit or one of a few signs. -/
def StandsInValue (character : Char) : Prop :=
  character.isAlphanum ∨ character ∈ ['-', '.', '_', '~', '/']

variable {filter other : String}

theorem isEncoded_encodeValue (filter : String) :
    Url.IsEncoded StandsInValue (encodeValue filter) := by
  refine Url.isEncoded_percentEncode ?_ _
  intro character kept
  simpa [isKeptInValue, StandsInValue] using kept

/-- No sign of a value means anything in a query. -/
theorem isSolid_of_mem_encodeValue {character : Char} (member : character ∈ encodeValue filter) :
    Url.isSolid character ∧ character ≠ '&' ∧ character ≠ '=' := by
  have each : ∀ character ∈ encodeValue filter,
      Url.isSolid character ∧ character ≠ '&' ∧ character ≠ '=' :=
    Url.forall_mem_percentEncode (by decide) (by decide) (by decide) _
  exact each character member

theorem percentDecode_encodeValue (filter : String) :
    Url.percentDecode (Url.bytesOf (encodeValue filter)) = Url.bytesOf filter.toList :=
  Url.percentDecode_percentEncode rfl _

theorem encodeValue_injective (same : encodeValue filter = encodeValue other) :
    filter = other := by
  apply Url.bytesOf_injective
  rw [← percentDecode_encodeValue, ← percentDecode_encodeValue, same]

theorem classQuery_of_ne (filled : filter ≠ "") :
    classQuery filter =
      "query-target-filter=".toList ++ encodeValue filter ++ '&' :: healthParameter :=
  if_neg filled

theorem isSolid_of_mem_classQuery {character : Char} (member : character ∈ classQuery filter) :
    Url.isSolid character := by
  have health : ∀ character ∈ healthParameter, Url.isSolid character :=
    List.all_eq_true.mp (by decide)
  have name : ∀ character ∈ "query-target-filter=".toList, Url.isSolid character :=
    List.all_eq_true.mp (by decide)
  by_cases filled : filter = ""
  · rw [classQuery, if_pos filled] at member
    exact health character member
  · rw [classQuery_of_ne filled, List.mem_append, List.mem_append, List.mem_cons] at member
    rcases member with (named | valued) | rfl | further
    · exact name character named
    · exact (isSolid_of_mem_encodeValue valued).1
    · rfl
    · exact health character further

theorem parameters_classQuery (filled : filter ≠ "") :
    parameters (classQuery filter) =
      [["query-target-filter".toList, encodeValue filter],
        ["rsp-subtree-include".toList, "health".toList]] := by
  have undivided : '&' ∉ "query-target-filter=".toList ++ encodeValue filter := by
    rw [List.mem_append, not_or]
    exact ⟨by decide, fun valued => (isSolid_of_mem_encodeValue valued).2.1 rfl⟩
  have whole : '=' ∉ encodeValue filter := fun valued =>
    (isSolid_of_mem_encodeValue valued).2.2 rfl
  have divided : "query-target-filter=".toList = "query-target-filter".toList ++ ['='] := by
    decide
  have health : Text.splitAtAll (· == '&') healthParameter = [healthParameter] := by decide
  have healthParts : Text.splitAtAll (· == '=') healthParameter =
      ["rsp-subtree-include".toList, "health".toList] := by decide
  rw [classQuery_of_ne filled, parameters, Text.splitAtAll_append_cons undivided, health,
    List.map_cons, List.map_singleton, healthParts, divided, List.append_assoc,
    List.singleton_append, Text.splitAtAll_append_cons (by decide),
    Text.splitAtAll_eq_singleton whole]

theorem parameters_classQuery_empty :
    parameters (classQuery "") = [["rsp-subtree-include".toList, "health".toList]] := by
  decide

theorem classQuery_inj : classQuery filter = classQuery other ↔ filter = other := by
  constructor
  · intro same
    have same := congrArg parameters same
    by_cases filled : filter = "" <;> by_cases otherFilled : other = ""
    · rw [filled, otherFilled]
    · rw [filled, parameters_classQuery_empty, parameters_classQuery otherFilled] at same
      have counts : 1 = 2 := congrArg List.length same
      omega
    · rw [otherFilled, parameters_classQuery_empty, parameters_classQuery filled] at same
      have counts : 2 = 1 := congrArg List.length same
      omega
    · rw [parameters_classQuery filled, parameters_classQuery otherFilled] at same
      simp only [List.cons.injEq, and_true, true_and] at same
      exact encodeValue_injective same
  · rintro rfl
    rfl

/-- The query of a class query asks for health scores, and that is all without a filter.
A filter adds one parameter.  Its value consists of letters, digits, a few signs and
percent triples, and the bytes that it stands for are those of the filter.  The filter
adds no fragment, and it is told by the query. -/
theorem filter_survives_query (session : Session) (className filter : String) :
    ∃ query, (session.classUrl className filter).query? = some query ∧
      (session.classUrl className filter).fragment? = session.account.base.fragment? ∧
      '#' ∉ query ∧
      (filter = "" ∧ query = "rsp-subtree-include=health".toList ∨
        filter ≠ "" ∧ ∃ value,
          parameters query = [["query-target-filter".toList, value],
            ["rsp-subtree-include".toList, "health".toList]] ∧
          Url.IsEncoded StandsInValue value ∧
          Url.percentDecode (Url.bytesOf value) = filter.toUTF8.data.toList) ∧
      ∀ otherClass other,
        (session.classUrl otherClass other).query? = some query ↔ other = filter := by
  have shows (otherClass other : String) :
      (session.classUrl otherClass other).query? = some (classQuery other) :=
    Url.query?_withQuery (fun _ => isSolid_of_mem_classQuery) _
  refine ⟨classQuery filter, shows className filter, rfl, ?_, ?_, ?_⟩
  · intro fragment
    exact absurd (isSolid_of_mem_classQuery fragment) (by decide)
  · by_cases filled : filter = ""
    · exact Or.inl ⟨filled, by rw [filled]; rfl⟩
    · refine Or.inr ⟨filled, encodeValue filter, parameters_classQuery filled,
        isEncoded_encodeValue filter, ?_⟩
      rw [percentDecode_encodeValue, Url.bytesOf_toList]
  · intro otherClass other
    rw [shows, Option.some.injEq, classQuery_inj]

/-- Signs of queries and characters beyond ASCII are written in triples. -/
example : encodeValue "tn prod&x=é" = "tn%20prod%26x%3D%C3%A9".toList := by
  decide +kernel

end Inventory
end InventoryGauges

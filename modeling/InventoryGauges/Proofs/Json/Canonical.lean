import InventoryGauges.Json
import InventoryGauges.Text.Map

/-!
# Objects as maps

The canonical form of an object is the map from names to the canonical forms of
its members: two objects have the same canonical form exactly when each name
has the same member, and members that other ones of their name replace do not
count.
-/

namespace InventoryGauges
namespace Json

theorem insertMember_eq_place (name : String) (value : Json) (entries : List (String × Json)) :
    insertMember name value entries = Text.Map.place name value entries := by
  induction entries with
  | nil => rfl
  | cons entry entries hypothesis => rw [insertMember, Text.Map.place, hypothesis]

theorem canonicalMembers_eq (placed : Text.Map Json) (members : List (String × Json)) :
    canonicalMembers placed.entries members =
      (members.foldl (fun map entry => map.insert entry.1 entry.2.canonical) placed).entries := by
  induction members generalizing placed with
  | nil => rw [canonicalMembers, List.foldl_nil]
  | cons entry members hypothesis =>
      rw [canonicalMembers, insertMember_eq_place, List.foldl_cons]
      exact hypothesis (placed.insert entry.1 entry.2.canonical)

/-- The members of an object by their names, in canonical form. -/
def canonicalMap (members : List (String × Json)) : Text.Map Json :=
  Text.Map.ofList (members.map fun entry => (entry.1, entry.2.canonical))

theorem canonical_object (members : List (String × Json)) :
    (object members).canonical = object (canonicalMap members).entries := by
  rw [canonical, canonicalMap, Text.Map.ofList, List.foldl_map]
  exact congrArg object (canonicalMembers_eq Text.Map.empty members)

@[simp] theorem get?_canonicalMap (members : List (String × Json)) (name : String) :
    (canonicalMap members).get? name = ((object members).member? name).map canonical := by
  rw [canonicalMap, Text.Map.get?_ofList, ← List.map_reverse, List.find?_map, member?, Json.members,
    Option.map_map, Option.map_map]
  rfl

/-- Members that are found under the same names make the same canonical form. -/
theorem canonical_object_eq {left right : List (String × Json)}
    (same : ∀ name, (object left).member? name = (object right).member? name) :
    (object left).canonical = (object right).canonical := by
  rw [canonical_object, canonical_object]
  refine congrArg (fun map : Text.Map Json => object map.entries) (Text.Map.ext ?_)
  intro name
  rw [get?_canonicalMap, get?_canonicalMap, same]

@[simp] theorem canonicalItems_map_string (texts : List String) :
    canonicalItems (texts.map .string) = texts.map .string := by
  induction texts with
  | nil => rfl
  | cons text texts hypothesis =>
      rw [List.map_cons, canonicalItems, hypothesis]
      rfl

/-- The names of the members are those that are found. -/
theorem mem_names {value : Json} {name : String} :
    name ∈ value.names ↔ (value.member? name).isSome := by
  rw [names, Text.Set.mem_ofList, member?, Option.isSome_map, List.find?_isSome]
  simp

end Json
end InventoryGauges

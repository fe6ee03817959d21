import InventoryGauges.Binary64
import InventoryGauges.Decimal.Digits
import InventoryGauges.Text.Set

/-!
# JSON values

Values as they stand in a text: object members keep their order and may share
names.  Looking a member up takes the last one of its name, and the canonical
form keeps one member for each name, in the order of names.
-/

namespace InventoryGauges

/-- A number of a JSON text: an integer within 64 bits, signed or unsigned, or
a binary64 number. -/
inductive JsonNumber
  | integer (value : Int)
  | real (value : Binary64)
  deriving DecidableEq, Repr, Inhabited

namespace JsonNumber

/-- The number as an unsigned 64-bit integer. -/
def unsigned? : JsonNumber → Option UInt64
  | integer value =>
      if 0 ≤ value && value < Int.pow 2 64 then some (UInt64.ofNat value.toNat) else none
  | real _ => none

/-- The number as a binary64 number. -/
def toBinary64 : JsonNumber → Binary64
  | integer value => Binary64.ofInt value
  | real value => value

end JsonNumber

/-- A JSON value. -/
inductive Json
  | null
  | boolean (value : Bool)
  | number (value : JsonNumber)
  | string (value : String)
  | array (items : List Json)
  | object (members : List (String × Json))
  deriving Repr, Inhabited, BEq

namespace Json

/-- Members of an object, none for any other value. -/
def members : Json → List (String × Json)
  | object members => members
  | _ => []

/-- The last member of a name. -/
def member? (value : Json) (name : String) : Option Json :=
  (value.members.reverse.find? fun entry => entry.1 == name).map Prod.snd

/-- The value at the end of a path of member names and item indices. -/
def descend? : List String → Json → Option Json
  | [], value => some value
  | name :: path, array items =>
      (Decimal.index? name.toList).bind fun index => items[index]?.bind (descend? path)
  | name :: path, value => (value.member? name).bind (descend? path)

def asString? : Json → Option String
  | string value => some value
  | _ => none

def asArray? : Json → Option (List Json)
  | array items => some items
  | _ => none

/-- Put a member in its place in the order of names; one of the same name is
replaced. -/
def insertMember (name : String) (value : Json) :
    List (String × Json) → List (String × Json)
  | [] => [(name, value)]
  | entry :: entries =>
      if name < entry.1 then (name, value) :: entry :: entries
      else if name = entry.1 then (name, value) :: entries
      else entry :: insertMember name value entries

mutual

/-- The value with one member for each name, the last one, in the order of
names. -/
def canonical : Json → Json
  | array items => array (canonicalItems items)
  | object members => object (canonicalMembers [] members)
  | value => value

/-- Canonical forms of items. -/
def canonicalItems : List Json → List Json
  | [] => []
  | item :: items => item.canonical :: canonicalItems items

/-- Canonical forms of members, put into those already in place. -/
def canonicalMembers (placed : List (String × Json)) :
    List (String × Json) → List (String × Json)
  | [] => placed
  | (name, value) :: members =>
      canonicalMembers (insertMember name value.canonical placed) members

end

/-- Names of the members. -/
def names (value : Json) : Text.Set :=
  Text.Set.ofList (value.members.map Prod.fst)

end Json
end InventoryGauges

/-!
# Values of settings

What a source of settings may give for a key, before it is known what the key
is for.  Dates are tables with a single key of their own, so that they are
neither texts nor numbers.
-/

namespace InventoryGauges
namespace Settings

/-- A value from a source of settings. -/
inductive Value
  | text (content : String)
  | truth (value : Bool)
  | integer (value : Int)
  | real
  | list (items : List Value)
  | table (entries : List (String × Value))
  deriving Repr, Inhabited

namespace Value

/-- The value of a key in a list of entries. -/
def find? (key : String) : List (String × Value) → Option Value
  | [] => none
  | entry :: entries => if key = entry.1 then some entry.2 else find? key entries

/-- Put a value under a key; one that is there is replaced. -/
def put (key : String) (value : Value) : List (String × Value) → List (String × Value)
  | [] => [(key, value)]
  | entry :: entries =>
      if key = entry.1 then (key, value) :: entries else entry :: put key value entries

/-- A date or a time of day. -/
def moment : Value :=
  table [("date", text "")]

mutual

/-- Lay a value over a lower one: tables key by key, anything else as a whole. -/
def layOver : Value → Value → Value
  | table upper, table lower => table (layEntries upper lower)
  | upper, _ => upper

/-- Lay entries over lower ones. -/
def layEntries : List (String × Value) → List (String × Value) → List (String × Value)
  | [], lower => lower
  | (key, value) :: upper, lower =>
      let merged := match find? key lower with
        | some under => layOver value under
        | none => value
      put key merged (layEntries upper lower)

end

end Value
end Settings
end InventoryGauges

import InventoryGauges.Settings.Value

/-!
# Tables of a TOML document

A document fills a tree of tables.  Each table is defined once: by a header, by
the keys below it, or as a part of another key.
-/

namespace InventoryGauges
namespace Toml

open Settings (Value)

/-- What stands under a key. -/
inductive Item
  /-- A value, which cannot be extended. -/
  | value (value : Value)
  /-- A table.  One that only occurred as a part of longer keys is implicit; if
  these were keys of values it is also dotted. -/
  | table (isImplicit isDotted : Bool) (entries : List (String × Item))
  /-- Tables that share a header. -/
  | tables (items : List (List (String × Item)))
  deriving Inhabited

/-- The entries of a table. -/
abbrev Entries : Type := List (String × Item)

/-- What stands under a key of a table. -/
def find? (key : String) : Entries → Option Item
  | [] => none
  | entry :: entries => if key = entry.1 then some entry.2 else find? key entries

/-- Put something under a key; what is there is replaced. -/
def put (key : String) (item : Item) : Entries → Entries
  | [] => [(key, item)]
  | entry :: entries =>
      if key = entry.1 then (key, item) :: entries else entry :: put key item entries

/-- Remove a key. -/
def erase (key : String) (entries : Entries) : Entries :=
  entries.filter fun entry => entry.1 != key

/-- Change the table at the end of a path.  Tables on the way are created where
there are none; of tables that share a header the last one counts.  `change`
is told whether the table is dotted. -/
def changeAt (isDotted : Bool) (change : Bool → Entries → Option Entries) :
    List String → Bool → Entries → Option Entries
  | [], tableIsDotted, entries => change tableIsDotted entries
  | key :: path, _, entries =>
      match find? key entries with
      | none =>
          (changeAt isDotted change path isDotted []).map fun below =>
            put key (.table true isDotted below) entries
      | some (.value _) => none
      | some (.tables items) =>
          match items.getLast? with
          | none => none
          | some last =>
              (changeAt isDotted change path false last).map fun below =>
                put key (.tables (items.dropLast ++ [below])) entries
      | some (.table isImplicit wasDotted below) =>
          if isDotted && !isImplicit then none
          else
            (changeAt isDotted change path wasDotted below).map fun below =>
              put key (.table isImplicit wasDotted below) entries

/-- Put a value under a key of several parts.  The key is new, and the table
that holds it was made by such keys only. -/
def addValue (path : List String) (key : String) (value : Value) (entries : Entries) :
    Option Entries :=
  let add (tableIsDotted : Bool) (entries : Entries) : Option Entries :=
    if tableIsDotted == path.isEmpty || (find? key entries).isSome then none
    else some (put key (.value value) entries)
  changeAt true add path false entries

/-- A part of a document: a header and the values below it. -/
structure Section where
  /-- The parts of the header but the last one. -/
  path : List String
  /-- The last part of the header. -/
  key : String
  /-- Whether tables share the header. -/
  isShared : Bool
  /-- The values with their keys. -/
  values : List ((List String × String) × Value)

/-- Put values into a table. -/
def addValues (values : List ((List String × String) × Value)) (entries : Entries) :
    Option Entries :=
  values.foldlM (fun entries value => addValue value.1.1 value.1.2 value.2 entries) entries

/-- Put the table of a section into the table at its path. -/
def addTable (part : Section) (entries : Entries) : Option Entries :=
  if part.isShared then
    match find? part.key entries with
    | none =>
        (addValues part.values []).map fun below => put part.key (.tables [below]) entries
    | some (.tables items) =>
        (addValues part.values []).map fun below =>
          put part.key (.tables (items ++ [below])) entries
    | some _ => none
  else
    match find? part.key entries with
    | none =>
        (addValues part.values []).map fun below =>
          put part.key (.table false false below) entries
    | some (.table true false below) =>
        (addValues part.values below).map fun below =>
          put part.key (.table false false below) (erase part.key entries)
    | some _ => none

/-- Put a section into a document. -/
def addSection (entries : Entries) (part : Section) : Option Entries :=
  changeAt false (fun _ => addTable part) part.path false entries

mutual

/-- The value of an item. -/
def Item.toValue : Item → Value
  | .value value => value
  | .table _ _ entries => .table (entriesValue entries)
  | .tables items => .list (tablesValue items)

/-- The values of entries. -/
def entriesValue : List (String × Item) → List (String × Value)
  | [] => []
  | (key, item) :: entries => (key, item.toValue) :: entriesValue entries

/-- The values of tables. -/
def tablesValue : List (List (String × Item)) → List Value
  | [] => []
  | entries :: items => .table (entriesValue entries) :: tablesValue items

end

end Toml
end InventoryGauges

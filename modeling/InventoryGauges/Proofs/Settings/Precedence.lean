import InventoryGauges.Proofs.Settings.Leaf
import InventoryGauges.Settings.Load
import Mathlib.Data.List.Basic

/-!
# The highest source counts

Each single setting is what the highest source says that gives it: the variable
that spells its section and key, then its plain variable, then the file, then the
standard settings.  Without variables a file means what its document means alone.
-/

namespace InventoryGauges
namespace Settings

namespace Variables

/-- The value of the last variable that has a path. -/
def last? (path? : String → Option (List String)) (path : List String) :
    List (String × String) → Option Value
  | [] => none
  | entry :: entries =>
      (last? path? path entries).or
        (if path? entry.1 = some path then some (valueOf entry.2) else none)

/-- Each variable that has a path names a key of a section. -/
def NamesLeaves (path? : String → Option (List String)) (environment : Text.Map String) : Prop :=
  ∀ entry ∈ environment.entries, ∀ path, path? entry.1 = some path →
    ∃ part key, path = [part, key]

/-- The plain names all stand for keys of sections. -/
theorem exists_keys_of_plainPath? {name : String} {path : List String}
    (found : plainPath? name = some path) : ∃ part key, path = [part, key] := by
  obtain ⟨named, listed?, rfl⟩ := Option.map_eq_some_iff.mp found
  have listed : named ∈ plainNames := List.mem_of_find?_eq_some listed?
  simp only [plainNames, List.mem_cons, List.not_mem_nil, or_false] at listed
  rcases listed with rfl | rfl | rfl | rfl | rfl | rfl <;> exact ⟨_, _, rfl⟩

theorem namesLeaves_plainPath? (environment : Text.Map String) :
    NamesLeaves plainPath? environment :=
  fun _ _ _ => exists_keys_of_plainPath?

theorem isSectioned_empty (part : String) : (Value.table []).IsSectioned part :=
  ⟨⟨[], rfl⟩, nofun⟩

theorem isSectioned_nested (value : Value) (name key part : String) :
    (nested value [name, key]).IsSectioned part where
  isTable := ⟨_, rfl⟩
  section_isTable := by
    intro inside found
    rw [nested, Value.lookup?, Value.find?] at found
    split at found
    · exact ⟨_, (Option.some.inj found).symm⟩
    · cases found

theorem given?_nested (value : Value) (name other part key : String) :
    (nested value [name, other]).given? part key =
      if [name, other] = [part, key] then some value else none := by
  rw [Value.given?, nested, Value.lookup?, Value.find?]
  by_cases same : part = name
  · subst same
    rw [if_pos rfl, Option.bind_some, nested, Value.lookup?, Value.find?]
    by_cases sameKey : key = other
    · subst sameKey
      rw [if_pos rfl, if_pos rfl]
      rfl
    · rw [if_neg sameKey, if_neg (by simpa using fun equal => sameKey equal.symm)]
      rfl
  · rw [if_neg same, if_neg (by simpa using fun equal => absurd equal.symm same)]
    rfl

section Layer

variable {path? : String → Option (List String)} {part : String}

/-- Variables laid over a value one after another: the last one that names a key
of a section counts. -/
theorem given?_foldl_layOver (key : String) {entries : List (String × String)} {value : Value}
    (names : ∀ entry ∈ entries, ∀ path, path? entry.1 = some path →
      ∃ part key, path = [part, key])
    (sectioned : value.IsSectioned part) :
    let laid := entries.foldl (fun value entry =>
      match path? entry.1 with
      | some path => (nested (valueOf entry.2) path).layOver value
      | none => value) value
    laid.IsSectioned part ∧ (laid.given? part key).map Value.bare =
      ((last? path? [part, key] entries).or (value.given? part key)).map Value.bare := by
  induction entries generalizing value with
  | nil => exact ⟨sectioned, rfl⟩
  | cons entry entries hypothesis =>
      have later := fun other member => names other (List.mem_cons_of_mem entry member)
      rw [List.foldl_cons, last?]
      cases found : path? entry.1 with
      | none =>
          rw [if_neg nofun, Option.or_none]
          exact hypothesis later sectioned
      | some path =>
          obtain ⟨name, other, rfl⟩ := names entry List.mem_cons_self path found
          have above := isSectioned_nested (valueOf entry.2) name other part
          obtain ⟨laid, gives⟩ := hypothesis later (above.layOver sectioned)
          refine ⟨laid, gives.trans ?_⟩
          rw [Option.map_or, Value.given?_layOver above sectioned.isTable, given?_nested,
            Option.or_assoc, ← Option.map_or]
          simp only [Option.some.injEq]

variable {environment : Text.Map String} (names : NamesLeaves path? environment)
include names

theorem isSectioned_layer (part : String) : (layer path? environment).IsSectioned part :=
  (given?_foldl_layOver "" names (isSectioned_empty part)).1

theorem given?_layer (part key : String) :
    ((layer path? environment).given? part key).map Value.bare =
      (last? path? [part, key] environment.entries).map Value.bare := by
  have gives := (given?_foldl_layOver key names (isSectioned_empty part)).2
  rwa [show (Value.table []).given? part key = none from rfl, Option.or_none] at gives

end Layer

end Variables

/-- The document of a text is a table. -/
theorem isTable_of_document {text : String} {file : Value} (read : document text = .ok file) :
    file.IsTable := by
  rw [document] at read
  split at read
  · rename_i value found
    obtain rfl := Except.ok.inj read
    rw [Toml.ofString?] at found
    simp only [Option.bind_eq_bind, Option.bind_eq_some_iff, Option.pure_def] at found
    obtain ⟨lines, -, entries, -, equal⟩ := found
    exact ⟨_, (Option.some.inj equal).symm⟩
  · cases read

/-- Settings stand as a table of tables. -/
theorem isSectioned_toValue (settings : Settings) (part : String) :
    settings.toValue.IsSectioned part where
  isTable := ⟨_, rfl⟩
  section_isTable := by
    rw [toValue, Value.lookup?]
    induction settings.sections with
    | nil =>
        intro inside found
        cases found
    | cons named sections hypothesis =>
        intro inside found
        rw [List.map_cons, Value.find?] at found
        split at found
        · exact ⟨_, (Option.some.inj found).symm⟩
        · exact hypothesis inside found

/-- The standard settings, laid below, say what is taken if nothing is given. -/
theorem decode_standard :
    ∀ leaf ∈ leaves, (standard.toValue.given? leaf.part leaf.key).bind leaf.decode =
      some (leaf.content standard) := by
  decide +kernel

namespace Leaf

/-- Below any sources, the standard settings make no difference. -/
theorem reads_or_standard {leaf : Leaf} (member : leaf ∈ leaves) (value? : Option Value)
    {settings : Settings} :
    leaf.Reads (value?.or (standard.toValue.given? leaf.part leaf.key)) settings ↔
      leaf.Reads value? settings := by
  cases value? with
  | none =>
      obtain ⟨value, given, decoded⟩ := Option.bind_eq_some_iff.mp (decode_standard leaf member)
      rw [Option.none_or, given, Reads, Reads, Option.elim_some, Option.elim_none, decoded]
  | some value => rw [Option.some_or]

/-- What the highest source gives for a leaf: the variables that spell its
section and key, then its plain variables, then the file. -/
def highest? (leaf : Leaf) (environment : Text.Map String) (file : Value) : Option Value :=
  (Variables.last? Variables.spelledPath? [leaf.part, leaf.key] environment.entries).or
    ((Variables.last? Variables.plainPath? [leaf.part, leaf.key] environment.entries).or
      (file.given? leaf.part leaf.key))

/-- The name of the variable that spells the section and the key of a leaf. -/
def spelledName (leaf : Leaf) : String :=
  Variables.start ++ leaf.part.map Char.toUpper ++ "__" ++ leaf.key.map Char.toUpper

/-- A spelled name stands for its leaf. -/
theorem spelledPath?_spelledName :
    ∀ leaf ∈ leaves, Variables.spelledPath? leaf.spelledName = some [leaf.part, leaf.key] := by
  decide +kernel

/-- A plain name stands for a leaf. -/
theorem plainPath?_plainNames :
    ∀ named ∈ Variables.plainNames, ∃ leaf ∈ leaves,
      Variables.plainPath? named.1 = some [leaf.part, leaf.key] := by
  decide +kernel

end Leaf

/-- All layers over each other. -/
def merged (environment : Text.Map String) (file : Value) : Value :=
  (Variables.layer Variables.spelledPath? environment).layOver
    ((Variables.layer Variables.plainPath? environment).layOver
      (file.layOver standard.toValue))

section Merged

variable {environment : Text.Map String} {file : Value}
  (names : Variables.NamesLeaves Variables.spelledPath? environment)
include names

theorem isSectioned_merged {part : String} (sectioned : file.IsSectioned part) :
    (merged environment file).IsSectioned part :=
  (Variables.isSectioned_layer names part).layOver
    ((Variables.isSectioned_layer (Variables.namesLeaves_plainPath? environment) part).layOver
      (sectioned.layOver (isSectioned_toValue standard part)))

/-- Once merged, the layers give what the highest source gives, or else the
standard setting. -/
theorem given?_merged {part : String} (sectioned : file.IsSectioned part) (key : String) :
    ((merged environment file).given? part key).map Value.bare =
      ((Variables.last? Variables.spelledPath? [part, key] environment.entries).or
        ((Variables.last? Variables.plainPath? [part, key] environment.entries).or
          ((file.given? part key).or (standard.toValue.given? part key)))).map Value.bare := by
  have plainNames := Variables.namesLeaves_plainPath? environment
  have bottom := sectioned.layOver (isSectioned_toValue standard part)
  have plain := Variables.isSectioned_layer plainNames part
  rw [merged, Value.given?_layOver (Variables.isSectioned_layer names part)
      (plain.layOver bottom).isTable, Option.map_or, Variables.given?_layer names,
    Value.given?_layOver plain bottom.isTable, Option.map_or, Variables.given?_layer plainNames,
    Value.given?_layOver sectioned (isSectioned_toValue standard part).isTable, ← Option.map_or,
    ← Option.map_or]

theorem reads_merged {leaf : Leaf} (member : leaf ∈ leaves) (sectioned : file.IsSectioned leaf.part)
    {settings : Settings} :
    leaf.Reads ((merged environment file).given? leaf.part leaf.key) settings ↔
      leaf.Reads (leaf.highest? environment file) settings := by
  rw [Leaf.reads_congr member (given?_merged names sectioned leaf.key), ← Option.or_assoc,
    ← Option.or_assoc, Leaf.reads_or_standard member, Option.or_assoc, Leaf.highest?]

end Merged

/-- Decoding all layers. -/
theorem ofValue?_merged_iff {environment : Text.Map String} {file : Value}
    (names : Variables.NamesLeaves Variables.spelledPath? environment)
    (sectioned : ∀ part ∈ parts, file.IsSectioned part) {settings : Settings} :
    ofValue? (merged environment file) = some settings ↔
      ∀ leaf ∈ leaves, leaf.Reads (leaf.highest? environment file) settings := by
  rw [ofValue?_eq_some_iff fun part member => isSectioned_merged names (sectioned part member)]
  exact forall₂_congr fun leaf member =>
    reads_merged names member (sectioned leaf.part (part_mem_parts leaf member))

theorem checked_eq_ok_iff {value : Value} {settings : Settings} :
    checked value = .ok settings ↔ ofValue? value = some settings ∧ settings.check = .ok () := by
  rw [checked]
  cases ofValue? value with
  | none => exact ⟨nofun, fun ⟨decoded, _⟩ => nomatch decoded⟩
  | some found =>
      constructor
      · intro ended
        cases passed : found.check with
        | error error =>
            dsimp only at ended
            rw [passed] at ended
            cases ended
        | ok _ =>
            dsimp only at ended
            rw [passed] at ended
            obtain rfl := Except.ok.inj ended
            exact ⟨rfl, passed⟩
      · rintro ⟨decoded, passed⟩
        obtain rfl := Option.some.inj decoded
        dsimp only
        rw [passed]
        rfl

/-- Without variables, and with tables as sections, a file under the standard
settings means what its document means alone. -/
theorem ofValue?_merged_empty {file : Value} (sectioned : ∀ part ∈ parts, file.IsSectioned part) :
    ofValue? (merged Text.Map.empty file) = ofValue? file := by
  have none : Variables.NamesLeaves Variables.spelledPath? Text.Map.empty := nofun
  refine Option.ext fun settings => ?_
  rw [ofValue?_merged_iff none sectioned, ofValue?_eq_some_iff sectioned]
  rfl

/-- If there is a document of a text, its sections are tables. -/
def TablesInside (text : String) : Prop :=
  ∀ file, document text = .ok file → ∀ part ∈ parts, ∀ inside,
    file.lookup? part = some inside → inside.IsTable

theorem TablesInside.isSectioned {text : String} {file : Value} (tables : TablesInside text)
    (read : document text = .ok file) : ∀ part ∈ parts, file.IsSectioned part :=
  fun part member => ⟨isTable_of_document read, tables file read part member⟩

theorem load_content (text : String) (environment : Text.Map String) :
    load (.content text) environment =
      (document text).bind fun file => checked (merged environment file) := rfl

/-- Settings that are loaded hold for each leaf what its highest source gives,
or else the standard setting, whatever there is for other leaves. -/
theorem load_eq_ok_iff_reads {text : String} {environment : Text.Map String}
    (tables : TablesInside text)
    (names : Variables.NamesLeaves Variables.spelledPath? environment) (settings : Settings) :
    load (.content text) environment = .ok settings ↔
      ∃ file, document text = .ok file ∧
        (∀ leaf ∈ leaves, leaf.Reads (leaf.highest? environment file) settings) ∧
        settings.check = .ok () := by
  rw [load_content]
  cases read : document text with
  | error error => exact ⟨nofun, fun ⟨_, absent, _⟩ => nomatch absent⟩
  | ok file =>
      rw [Except.bind, checked_eq_ok_iff, ofValue?_merged_iff names (tables.isSectioned read)]
      simp only [Except.ok.injEq, exists_eq_left']

theorem ofDocument_eq (text : String) : ofDocument text = (document text).bind checked := rfl

/-- Without variables, a file is loaded as its document is read alone. -/
theorem load_empty {text : String} (tables : TablesInside text) :
    load (.content text) Text.Map.empty = ofDocument text := by
  rw [load_content, ofDocument_eq]
  cases read : document text with
  | error error => rw [Except.bind, Except.bind]
  | ok file =>
      rw [Except.bind, Except.bind, checked, checked,
        ofValue?_merged_empty (tables.isSectioned read)]

/-- Loaded settings are put together key by key: each holds what the highest
source says that gives it, be it the variable that spells it, its plain
variable, the file, or the standard settings.  Without variables, a file is
loaded as its document is read alone. -/
theorem load_highest (text : String) (environment : Text.Map String) (tables : TablesInside text)
    (names : Variables.NamesLeaves Variables.spelledPath? environment) :
    (∀ leaf ∈ leaves, Variables.spelledPath? leaf.spelledName = some [leaf.part, leaf.key]) ∧
      (∀ named ∈ Variables.plainNames, ∃ leaf ∈ leaves,
        Variables.plainPath? named.1 = some [leaf.part, leaf.key]) ∧
      (∀ settings, load (.content text) environment = .ok settings ↔
        ∃ file, document text = .ok file ∧
          (∀ leaf ∈ leaves, leaf.Reads (leaf.highest? environment file) settings) ∧
          settings.check = .ok ()) ∧
      load (.content text) Text.Map.empty = ofDocument text :=
  ⟨Leaf.spelledPath?_spelledName, Leaf.plainPath?_plainNames, load_eq_ok_iff_reads tables names,
    load_empty tables⟩

theorem eq_ok_of_toOption {result : Except Error Settings} {settings : Settings}
    (given : result.toOption = some settings) : result = .ok settings := by
  cases result with
  | error error => cases given
  | ok other => exact congrArg Except.ok (Option.some.inj given)

section Decidable

instance (value : Value) : Decidable value.IsTable :=
  match value with
  | .table entries => .isTrue ⟨entries, rfl⟩
  | .text _ | .truth _ | .integer _ | .real | .list _ => .isFalse nofun

instance (text : String) : Decidable (TablesInside text) :=
  match read : document text with
  | .error _ => .isTrue fun _ absent => nomatch read.symm.trans absent
  | .ok file =>
      decidable_of_iff (∀ part ∈ parts, ∀ inside ∈ file.lookup? part, inside.IsTable)
        ⟨fun tables _ again => (Except.ok.inj (read.symm.trans again)) ▸ tables,
          fun tables => tables file read⟩

instance (path? : String → Option (List String)) (environment : Text.Map String) :
    Decidable (Variables.NamesLeaves path? environment) :=
  decidable_of_iff (∀ entry ∈ environment.entries, ∀ path ∈ path? entry.1, path.length = 2)
    (by simp only [Variables.NamesLeaves, List.length_eq_two, Option.mem_def])

end Decidable

namespace Example

/-- A document with three settings. -/
def text : String :=
  "[inventory]\nurl = \"https://file\"\nusername = \"file\"\npassword = \"file\"\n"

/-- Variables for one of them twice, for another one once, and for two more. -/
def environment : Text.Map String :=
  Text.Map.ofList
    [("ACI_URL", "https://plain"), ("ACI_USERNAME", "plain"),
      ("ACI_POLLER_INVENTORY__URL", "https://spelled"),
      ("ACI_POLLER_GATEWAY__URL", "http://gateway"), ("DB_REDIS_URL", "redis://store")]

/-- What they come to. -/
def loaded : Settings :=
  { standard with
    inventoryUrl := "https://spelled", username := "plain", password := "file"
    storeUrl := "redis://store", gatewayUrl := "http://gateway" }

theorem load_text : load (.content text) environment = .ok loaded :=
  eq_ok_of_toOption (by decide +kernel)

end Example

theorem load_highest_text :
    TablesInside Example.text ∧
      Variables.NamesLeaves Variables.spelledPath? Example.environment ∧
      (∃ file, document Example.text = .ok file ∧
        (∀ leaf ∈ leaves, leaf.Reads (leaf.highest? Example.environment file) Example.loaded) ∧
        Example.loaded.check = .ok ()) ∧
      load (.content Example.text) Text.Map.empty = ofDocument Example.text := by
  have tables : TablesInside Example.text := by decide +kernel
  have names : Variables.NamesLeaves Variables.spelledPath? Example.environment := by
    decide +kernel
  obtain ⟨-, -, loads, alone⟩ := load_highest Example.text Example.environment tables names
  exact ⟨tables, names, (loads Example.loaded).mp Example.load_text, alone⟩

end Settings
end InventoryGauges

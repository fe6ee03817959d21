import InventoryGauges.Proofs.Settings.Insertion
import InventoryGauges.Proofs.Settings.Verbatim
import Mathlib.Data.List.Nodup

/-!
# Settings that have to be given

Five texts have no standard setting, and a plain variable each.  What is loaded
for one of them is told by how the text of its variable is read, whatever else
is set.
-/

namespace InventoryGauges
namespace Settings

/-- A text that has to be given, and its plain variable. -/
structure Credential where
  /-- Name of the variable. -/
  name : String
  /-- Name of the section. -/
  part : String
  /-- Key in the section. -/
  key : String
  /-- The text in the settings. -/
  get : Settings → String
  /-- The settings with another text. -/
  set : String → Settings → Settings

/-- All texts that have to be given. -/
def credentials : List Credential :=
  [⟨"DB_REDIS_URL", "store", "redis_url", storeUrl,
      fun content settings => { settings with storeUrl := content }⟩,
    ⟨"ACI_URL", "inventory", "url", inventoryUrl,
      fun content settings => { settings with inventoryUrl := content }⟩,
    ⟨"ACI_USERNAME", "inventory", "username", username,
      fun content settings => { settings with username := content }⟩,
    ⟨"ACI_PASSWORD", "inventory", "password", password,
      fun content settings => { settings with password := content }⟩,
    ⟨"PROMETHEUS_PUSHGATEWAY_URL", "gateway", "url", gatewayUrl,
      fun content settings => { settings with gatewayUrl := content }⟩]

namespace Credential

/-- What errors call the text. -/
def field (credential : Credential) : String :=
  credential.part ++ "." ++ credential.key

/-- The text as a single setting. -/
def leaf (credential : Credential) : Leaf :=
  .text credential.part credential.key credential.get

end Credential

/-- The texts are those that are checked. -/
theorem required_eq (settings : Settings) :
    settings.required = credentials.map fun credential =>
      (credential.get settings, credential.field, credential.name) := by
  simp [required, credentials, Credential.field]

/-- No two leaves have the same place. -/
theorem eq_of_place_eq {leaf other : Leaf} (member : leaf ∈ leaves) (among : other ∈ leaves)
    (part : leaf.part = other.part) (key : leaf.key = other.key) : leaf = other := by
  have distinct : (leaves.map fun leaf => (leaf.part, leaf.key)).Nodup := by decide +kernel
  exact List.inj_on_of_nodup_map distinct member among (Prod.ext part key)

section Facts

variable {credential : Credential} (member : credential ∈ credentials)
include member

theorem leaf_mem_leaves : credential.leaf ∈ leaves := by
  simp only [credentials, List.mem_cons, List.not_mem_nil, or_false] at member
  rcases member with rfl | rfl | rfl | rfl | rfl <;> simp [Credential.leaf, leaves]

theorem plainPath?_name :
    Variables.plainPath? credential.name = some [credential.part, credential.key] := by
  have all : ∀ credential ∈ credentials,
      Variables.plainPath? credential.name = some [credential.part, credential.key] := by
    decide +kernel
  exact all credential member

theorem spelledPath?_name : Variables.spelledPath? credential.name = none := by
  have all : ∀ credential ∈ credentials, Variables.spelledPath? credential.name = none := by
    decide +kernel
  exact all credential member

theorem get_set (content : String) (settings : Settings) :
    credential.get (credential.set content settings) = content := by
  simp only [credentials, List.mem_cons, List.not_mem_nil, or_false] at member
  rcases member with rfl | rfl | rfl | rfl | rfl <;> rfl

theorem content_set (content : String) (settings : Settings) {leaf : Leaf} (among : leaf ∈ leaves)
    (different : ¬ (leaf.part = credential.part ∧ leaf.key = credential.key)) :
    leaf.content (credential.set content settings) = leaf.content settings := by
  simp only [credentials, leaves, List.mem_cons, List.not_mem_nil, or_false] at member among
  rcases member with rfl | rfl | rfl | rfl | rfl <;>
    rcases among with rfl | rfl | rfl | rfl | rfl | rfl | rfl | rfl | rfl | rfl | rfl | rfl |
      rfl | rfl | rfl | rfl | rfl | rfl | rfl | rfl | rfl | rfl <;>
    first
      | rfl
      | exact absurd ⟨rfl, rfl⟩ different

end Facts

/-! ## Checks -/

theorem check_eq_error {settings : Settings} {entry : String × String × String}
    (found : settings.required.find? (fun entry => isBlankText entry.1) = some entry) :
    settings.check = .error (.missingField entry.2.1 entry.2.2) := by
  rw [check, found]
  rfl

/-- What is checked besides the texts that have to be given. -/
theorem check_congr {settings other : Settings}
    (present : settings.required.find? (fun entry => isBlankText entry.1) = none)
    (presentToo : other.required.find? (fun entry => isBlankText entry.1) = none)
    (job : settings.job = other.job) (positive : settings.positive = other.positive)
    (concurrency : settings.schedule.pushConcurrency = other.schedule.pushConcurrency)
    (enabled : settings.httpEnabled = other.httpEnabled)
    (listen : settings.listen = other.listen) : settings.check = other.check := by
  rw [check, check, present, presentToo, job, positive, concurrency, enabled, listen]

theorem required_find?_of_check {settings : Settings} (checked : settings.check = .ok ()) :
    settings.required.find? (fun entry => isBlankText entry.1) = none := by
  cases found : settings.required.find? fun entry => isBlankText entry.1 with
  | none => rfl
  | some entry => cases (check_eq_error found).symm.trans checked

/-- If settings pass, then they do so with another text in place of one that has
to be given, unless it is blank. -/
theorem check_set {credential : Credential} (member : credential ∈ credentials)
    {settings : Settings} (checked : settings.check = .ok ()) (content : String) :
    (credential.set content settings).check =
      if isBlankText content then .error (.missingField credential.field credential.name)
      else .ok () := by
  have present := required_find?_of_check checked
  have found : (credential.set content settings).required.find? (fun entry => isBlankText entry.1) =
      if isBlankText content then some (content, credential.field, credential.name) else none := by
    rw [required_eq, List.find?_eq_none, List.forall_mem_map] at present
    simp only [credentials, List.forall_mem_cons, Bool.not_eq_true] at present
    obtain ⟨store, inventory, username, password, gateway, -⟩ := present
    rw [required_eq]
    simp only [credentials, List.mem_cons, List.not_mem_nil, or_false] at member
    rcases member with rfl | rfl | rfl | rfl | rfl <;>
      simp [credentials, List.find?_cons, store, inventory, username, password, gateway] <;>
      cases isBlankText content <;> rfl
  by_cases blank : isBlankText content
  · rw [if_pos blank] at found ⊢
    exact check_eq_error found
  · rw [if_neg blank] at found ⊢
    rw [← checked]
    simp only [credentials, List.mem_cons, List.not_mem_nil, or_false] at member
    rcases member with rfl | rfl | rfl | rfl | rfl <;>
      exact check_congr found present rfl rfl rfl rfl rfl

/-! ## Loading -/

/-- A source that says nothing for a key of a section, and whose section is a
table if there is one. -/
structure Value.LeavesAlone (part key : String) (value : Value) : Prop where
  /-- The section does not stand for the key as a whole. -/
  isSectioned : value.IsSectioned part
  /-- It does not give the key. -/
  given?_eq_none : value.given? part key = none

theorem isTable_of_fileLayer {source : Source} {file : Value} (read : fileLayer source = .ok file) :
    file.IsTable := by
  cases source with
  | nowhere => exact ⟨[], (Except.ok.inj read).symm⟩
  | missing path => cases read
  | unreadable message => cases read
  | content text => exact isTable_of_document read

theorem load_eq (source : Source) (environment : Text.Map String) :
    load source environment =
      (fileLayer source).bind fun file => checked (merged environment file) :=
  rfl

section Load

variable {credential : Credential} {environment : Text.Map String} {file : Value}
  (member : credential ∈ credentials) (isTable : file.IsTable)
  (aside : (Variables.layer Variables.spelledPath? environment).LeavesAlone
    credential.part credential.key)
include member isTable aside

/-- What two contents of the variable lead to differs in its own setting only. -/
theorem sameBut_merged (content changed : String) :
    Value.SameBut credential.part credential.key
      (merged (environment.insert credential.name content) file)
      (merged (environment.insert credential.name changed) file) := by
  rw [merged, merged, Variables.layer_insert_of_none (spelledPath?_name member),
    Variables.layer_insert_of_none (spelledPath?_name member)]
  have below := Value.isTable_layOver isTable (isSectioned_toValue standard "").isTable
  exact ((Variables.sameBut_layer_insert (plainPath?_name member) environment content
    changed).layOver below).under aside.isSectioned

variable (alone : ∀ entry ∈ environment.entries,
  Variables.plainPath? entry.1 = some [credential.part, credential.key] →
    entry.1 = credential.name)
include alone

/-- Once merged, the layers give what the variable says. -/
theorem given?_merged_insert (content : String) :
    ((merged (environment.insert credential.name content) file).given? credential.part
        credential.key).map Value.bare = some (Variables.valueOf content).bare := by
  have plain := Variables.isSectioned_layer
    (Variables.namesLeaves_plainPath? (environment.insert credential.name content)) credential.part
  have below := Value.isTable_layOver isTable (isSectioned_toValue standard "").isTable
  rw [merged, Variables.layer_insert_of_none (spelledPath?_name member),
    Value.given?_layOver aside.isSectioned (Value.isTable_layOver plain.isTable below),
    aside.given?_eq_none, Option.none_or, Value.given?_layOver plain below, Option.map_or,
    Variables.given?_layer (Variables.namesLeaves_plainPath? _),
    Variables.last?_insert (plainPath?_name member) alone, Option.map_some, Option.some_or]

theorem reads_merged_insert {content : String} {settings : Settings} :
    credential.leaf.Reads ((merged (environment.insert credential.name content) file).given?
        credential.part credential.key) settings ↔
      (Variables.valueOf content).text? = some (credential.get settings) := by
  have same := given?_merged_insert member isTable aside alone content
  rw [← Option.map_some] at same
  rw [Leaf.reads_congr (leaf_mem_leaves member) same, Credential.leaf,
    Leaf.reads_of_iff fun _ _ => Content.text.inj, Option.elim_some]

/-- If some content of the variable leads to settings, then any text does so that
is read as a text, and no other content. -/
theorem ofValue?_merged_insert {content : String} {settings : Settings}
    (decoded : ofValue? (merged (environment.insert credential.name content) file) = some settings)
    (changed : String) :
    ofValue? (merged (environment.insert credential.name changed) file) =
      (Variables.valueOf changed).text?.map fun text => credential.set text settings := by
  have same := sameBut_merged member isTable aside content changed
  cases read : (Variables.valueOf changed).text? with
  | none =>
      refine Option.eq_none_iff_forall_ne_some.mpr fun other found => ?_
      have reads := reads_of_ofValue? same.hasRight.isSectioned found credential.leaf
        (leaf_mem_leaves member) rfl
      cases read.symm.trans ((reads_merged_insert member isTable aside alone).mp reads)
  | some text =>
      refine ofValue?_of_sameBut same decoded (fun leaf among part key => ?_)
        fun leaf among different => content_set member text settings among different
      obtain rfl := eq_of_place_eq among (leaf_mem_leaves member) part key
      rw [reads_merged_insert member isTable aside alone, get_set member, read]

end Load

section Loading

variable {credential : Credential} {source : Source} {environment : Text.Map String}
  {content : String} {settings : Settings} (member : credential ∈ credentials)
  (loads : load source (environment.insert credential.name content) = .ok settings)
  (aside : (Variables.layer Variables.spelledPath? environment).LeavesAlone
    credential.part credential.key)
  (alone : ∀ entry ∈ environment.entries,
    Variables.plainPath? entry.1 = some [credential.part, credential.key] →
      entry.1 = credential.name)
include member loads aside alone

/-- What is loaded with another content of the variable. -/
theorem load_insert (changed : String) :
    load source (environment.insert credential.name changed) =
      match (Variables.valueOf changed).text? with
      | none => .error (.unreadable "value of the wrong type")
      | some text =>
          if isBlankText text then .error (.missingField credential.field credential.name)
          else .ok (credential.set text settings) := by
  rw [load_eq] at loads ⊢
  cases read : fileLayer source with
  | error error =>
      rw [read] at loads
      cases loads
  | ok file =>
      rw [read] at loads
      obtain ⟨decoded, valid⟩ := checked_eq_ok_iff.mp loads
      rw [Except.bind, checked, ofValue?_merged_insert member (isTable_of_fileLayer read) aside
        alone decoded changed]
      cases (Variables.valueOf changed).text? with
      | none => rfl
      | some text =>
          dsimp only [Option.map_some]
          rw [check_set member valid]
          by_cases blank : isBlankText text
          · rw [if_pos blank, if_pos blank]
            rfl
          · rw [if_neg blank, if_neg blank]
            rfl

/-- If some content of the plain variable of a required text leads to settings, then
with any other content that is not blank they hold this content if and only if it
stands for itself.  Else they hold the text that it is read as; and if it is read as
no text, or as a blank one, then there are no settings. -/
theorem loads_verbatim_iff {secret : String} (given : ¬ isBlankText secret) :
    ((∃ loaded, load source (environment.insert credential.name secret) = .ok loaded ∧
        credential.get loaded = secret) ↔ Variables.IsVerbatim secret) ∧
      load source (environment.insert credential.name secret) =
        match (Variables.valueOf secret).text? with
        | none => .error (.unreadable "value of the wrong type")
        | some text =>
            if isBlankText text then .error (.missingField credential.field credential.name)
            else .ok (credential.set text settings) := by
  have outcome := load_insert member loads aside alone secret
  refine ⟨?_, outcome⟩
  rw [← Variables.valueOf_eq_text_iff, ← Value.text?_eq_some_iff, outcome]
  constructor
  · rintro ⟨loaded, ends, holds⟩
    cases read : (Variables.valueOf secret).text? with
    | none =>
        rw [read] at ends
        cases ends
    | some text =>
        rw [read] at ends
        dsimp only at ends
        split at ends
        · cases ends
        · obtain rfl := Except.ok.inj ends
          rw [← holds, get_set member]
  · intro stands
    rw [stands]
    dsimp only
    rw [if_neg given]
    exact ⟨_, rfl, get_set member secret settings⟩

end Loading

namespace Example

/-- Plain variables for all texts that have to be given but the password. -/
def passwordless : Text.Map String :=
  Text.Map.ofList
    [("DB_REDIS_URL", "redis://store"), ("ACI_URL", "https://inventory"),
      ("ACI_USERNAME", "monitor"), ("PROMETHEUS_PUSHGATEWAY_URL", "http://gateway")]

/-- The settings with a password. -/
def withPassword (password : String) : Settings :=
  { standard with
    storeUrl := "redis://store", inventoryUrl := "https://inventory", username := "monitor"
    password, gatewayUrl := "http://gateway" }

/-- The password among the texts that have to be given. -/
def passwordText : Credential :=
  ⟨"ACI_PASSWORD", "inventory", "password", Settings.password,
    fun content settings => { settings with password := content }⟩

theorem passwordText_mem : passwordText ∈ credentials := by
  simp [credentials, passwordText]

theorem load_passwordless :
    load .nowhere (passwordless.insert "ACI_PASSWORD" "secret") = .ok (withPassword "secret") :=
  eq_ok_of_toOption (by decide +kernel)

theorem leavesAlone_passwordless :
    (Variables.layer Variables.spelledPath? passwordless).LeavesAlone "inventory" "password" where
  isSectioned := Variables.isSectioned_layer (by decide +kernel) "inventory"
  given?_eq_none := Option.isNone_iff_eq_none.mp (by decide +kernel)

theorem alone_passwordless : ∀ entry ∈ passwordless.entries,
    Variables.plainPath? entry.1 = some ["inventory", "password"] → entry.1 = "ACI_PASSWORD" := by
  decide +kernel

end Example

open Example

/-- Among others, a password of letters and digits stands for itself. -/
theorem loads_verbatim_of_letters :
    ¬ isBlankText "s3cret" ∧ Variables.IsVerbatim "s3cret" ∧
      ∃ loaded, load .nowhere (passwordless.insert "ACI_PASSWORD" "s3cret") = .ok loaded ∧
        loaded.password = "s3cret" := by
  have given : ¬ isBlankText "s3cret" := by decide +kernel
  have verbatim : Variables.IsVerbatim "s3cret" := by
    rw [← Variables.valueOf_eq_text_iff, ← Value.text?_eq_some_iff]
    decide +kernel
  exact ⟨given, verbatim, (loads_verbatim_iff passwordText_mem load_passwordless
    leavesAlone_passwordless alone_passwordless given).1.mpr verbatim⟩

/-- A password of digits alone leads to no settings. -/
theorem not_loads_verbatim_of_digits :
    load .nowhere (passwordless.insert "ACI_PASSWORD" "secret") = .ok (withPassword "secret") ∧
      (Variables.layer Variables.spelledPath? passwordless).LeavesAlone "inventory" "password" ∧
      ¬ isBlankText "12345" ∧
      load .nowhere (passwordless.insert "ACI_PASSWORD" "12345") =
        .error (.unreadable "value of the wrong type") := by
  refine ⟨load_passwordless, leavesAlone_passwordless, by decide +kernel, ?_⟩
  have read : (Variables.valueOf "12345").text? = none := by decide +kernel
  have outcome := load_insert passwordText_mem load_passwordless leavesAlone_passwordless
    alone_passwordless "12345"
  rwa [read] at outcome

end Settings
end InventoryGauges

import InventoryGauges.Proofs.Settings.Layers
import InventoryGauges.Settings.Decode
import InventoryGauges.Settings.Document

/-!
# Single settings

The settings one by one, each with its place in a source, how its value is
decoded, and what the settings hold for it.  To decode a value is to decode each
single setting of it.
-/

namespace InventoryGauges
namespace Settings

/-- What a single setting may hold. -/
inductive Content
  | text (content : String)
  | truth (value : Bool)
  | duration (length : Duration)
  | number (value : Nat)
  deriving DecidableEq, Repr

/-- A single setting. -/
structure Leaf where
  /-- Name of its section. -/
  part : String
  /-- Its key in the section. -/
  key : String
  /-- Decode its value. -/
  decode : Value → Option Content
  /-- What the settings hold for it. -/
  content : Settings → Content

namespace Leaf

/-- A setting of some kind. -/
def of {Kind : Type} (wrap : Kind → Content) (decode : Value → Option Kind)
    (part key : String) (get : Settings → Kind) : Leaf :=
  { part, key
    decode := fun value => (decode value).map wrap
    content := fun settings => wrap (get settings) }

/-- A setting that is a text. -/
abbrev text : String → String → (Settings → String) → Leaf :=
  of .text Value.text?

/-- A setting that is a truth value. -/
abbrev truth : String → String → (Settings → Bool) → Leaf :=
  of .truth Value.truth?

/-- A setting that is a duration. -/
abbrev duration : String → String → (Settings → Duration) → Leaf :=
  of .duration Value.duration?

/-- A setting that is a number. -/
abbrev number : String → String → (Settings → Nat) → Leaf :=
  of .number Value.natural?

/-- The settings hold for a leaf what a value says, or the standard setting if
there is no value. -/
def Reads (leaf : Leaf) (value? : Option Value) (settings : Settings) : Prop :=
  value?.elim (some (leaf.content standard)) leaf.decode = some (leaf.content settings)

end Leaf

/-- The names of the sections. -/
def parts : List String :=
  ["inventory", "store", "gateway", "scheduler", "http", "logging"]

/-- All single settings. -/
def leaves : List Leaf :=
  [.text "inventory" "url" inventoryUrl, .text "inventory" "username" username,
    .text "inventory" "password" password, .truth "inventory" "verify_tls" verifyTls,
    .duration "inventory" "login_timeout" loginTimeout,
    .duration "inventory" "query_timeout" queryTimeout,
    .text "store" "redis_url" storeUrl, .duration "store" "op_timeout" storeTimeout,
    .text "gateway" "url" gatewayUrl, .text "gateway" "job" job,
    .duration "gateway" "timeout" gatewayTimeout,
    .duration "scheduler" "debounce" fun settings => settings.schedule.debounce,
    .duration "scheduler" "session_retry" fun settings => settings.schedule.sessionRetry,
    .duration "scheduler" "sample_timeout" fun settings => settings.schedule.sampleTimeout,
    .duration "scheduler" "failure_backoff" fun settings => settings.schedule.failureBackoff,
    .number "scheduler" "push_concurrency" fun settings => settings.schedule.pushConcurrency,
    .truth "http" "enabled" httpEnabled, .text "http" "listen" listen,
    .text "logging" "level" logLevel, .text "logging" "format" logFormat,
    .truth "logging" "colors" logColors, .truth "logging" "source_location" logLocation]

namespace Leaf

section Of

variable {Kind : Type} {wrap : Kind → Content} {decode : Value → Option Kind} {part key : String}
  {get : Settings → Kind}

@[simp] theorem part_of : (of wrap decode part key get).part = part := rfl

@[simp] theorem key_of : (of wrap decode part key get).key = key := rfl

theorem reads_of_iff (injective : ∀ a b, wrap a = wrap b → a = b) {value? : Option Value}
    {settings : Settings} :
    (of wrap decode part key get).Reads value? settings ↔
      value?.elim (some (get standard)) decode = some (get settings) := by
  cases value? with
  | none =>
      constructor
      · intro reads
        exact congrArg some (injective _ _ (Option.some.inj reads))
      · intro equal
        exact congrArg (fun kind => some (wrap kind)) (Option.some.inj equal)
  | some value =>
      constructor
      · intro reads
        obtain ⟨kind, decoded, equal⟩ := Option.map_eq_some_iff.mp reads
        rw [Option.elim_some, decoded, injective _ _ equal]
      · intro decoded
        exact Option.map_eq_some_iff.mpr ⟨_, decoded, rfl⟩

end Of

/-- No setting is a table, so that entries do not matter. -/
theorem decode_bare {leaf : Leaf} (member : leaf ∈ leaves) (value : Value) :
    leaf.decode value.bare = leaf.decode value := by
  cases value with
  | table entries =>
      simp only [leaves, List.mem_cons, List.not_mem_nil, or_false] at member
      rcases member with rfl | rfl | rfl | rfl | rfl | rfl | rfl | rfl | rfl | rfl | rfl | rfl |
        rfl | rfl | rfl | rfl | rfl | rfl | rfl | rfl | rfl | rfl <;> rfl
  | text _ | truth _ | integer _ | real | list _ => rfl

/-- What is read of a leaf is told by its value up to the entries of tables. -/
theorem reads_congr {leaf : Leaf} (member : leaf ∈ leaves) {value? other? : Option Value}
    (same : value?.map Value.bare = other?.map Value.bare) {settings : Settings} :
    leaf.Reads value? settings ↔ leaf.Reads other? settings := by
  have read (value? : Option Value) : value?.elim (some (leaf.content standard)) leaf.decode =
      (value?.map Value.bare).elim (some (leaf.content standard)) leaf.decode := by
    cases value? with
    | none => rfl
    | some value => exact (decode_bare member value).symm
  rw [Reads, Reads, read value?, read other?, same]

end Leaf

namespace Value

/-- What a value gives for a key of a section, which may also list its values in
the order of their keys. -/
def taken? (value : Value) (part : String) (index : Nat) (key : String) : Option Value :=
  (value.lookup? part).bind (member? index key)

variable {value : Value} {part : String}

/-- If a section is a table, then the order of its keys is of no concern. -/
theorem taken?_eq_given? (sectioned : value.IsSectioned part) (index : Nat) (key : String) :
    value.taken? part index key = value.given? part key := by
  rw [taken?, given?]
  cases found : value.lookup? part with
  | none => rfl
  | some inside =>
      obtain ⟨entries, rfl⟩ := sectioned.section_isTable inside found
      rfl

theorem setting_eq {Kind : Type} (index : Nat) (key : String) (decode : Value → Option Kind)
    (get : Settings → Kind) :
    setting (value.lookup? part) index key decode get =
      (value.taken? part index key).elim (some (get standard)) decode := by
  rw [taken?]
  cases value.lookup? part with
  | none => rfl
  | some inside =>
      rw [setting, omitted_eq_standard, Option.bind_some]
      cases inside.member? index key <;> rfl

theorem bind_setting_iff {Kind Result : Type} {index : Nat} {key : String}
    {decode : Value → Option Kind} {get : Settings → Kind} {next : Kind → Option Result}
    {result : Result} :
    (setting (value.lookup? part) index key decode get >>= next) = some result ↔
      ∃ kind, (value.taken? part index key).elim (some (get standard)) decode = some kind ∧
        next kind = some result := by
  rw [setting_eq]
  exact Option.bind_eq_some_iff

/-- What a value gives for a section, if anything, may be one. -/
def AllowsSection (value : Value) (part : String) : Prop :=
  ∀ inside, value.lookup? part = some inside → inside.isSection

theorem IsSectioned.allowsSection (sectioned : value.IsSectioned part) :
    value.AllowsSection part := by
  intro inside found
  obtain ⟨entries, rfl⟩ := sectioned.section_isTable inside found
  rfl

theorem bind_namedSection?_iff (isTable : value.IsTable) {Result : Type} {index : Nat}
    {next : Option Value → Option Result} {result : Result} :
    (value.namedSection? index part >>= next) = some result ↔
      value.AllowsSection part ∧ next (value.lookup? part) = some result := by
  obtain ⟨entries, rfl⟩ := isTable
  rw [namedSection?, member?, AllowsSection, lookup?]
  cases find? part entries with
  | none => exact ⟨fun continues => ⟨nofun, continues⟩, fun ⟨_, continues⟩ => continues⟩
  | some inside =>
      dsimp only
      by_cases allowed : inside.isSection
      · rw [if_pos allowed]
        refine ⟨fun continues => ⟨?_, continues⟩, fun ⟨_, continues⟩ => continues⟩
        rintro _ ⟨⟩
        exact allowed
      · rw [if_neg allowed]
        exact ⟨nofun, fun ⟨allows, _⟩ => absurd (allows inside rfl) allowed⟩

end Value

/-- The places of all single settings in their sections. -/
def places : List Nat :=
  [0, 1, 2, 3, 4, 5, 0, 1, 0, 1, 2, 0, 1, 2, 3, 4, 0, 1, 0, 1, 2, 3]

/-- A table is decoded to the settings that each of its leaves gives, if its
sections may be ones. -/
theorem ofValue?_eq_some_iff_of_isTable {value : Value} (isTable : value.IsTable)
    {settings : Settings} :
    ofValue? value = some settings ↔
      (∀ part ∈ parts, value.AllowsSection part) ∧
        ∀ placed ∈ places.zip leaves,
          placed.2.Reads (value.taken? placed.2.part placed.1 placed.2.key) settings := by
  dsimp only [ofValue?]
  -- From the outside, as what follows a setting depends on it.
  simp only [↓Value.bind_namedSection?_iff isTable, ↓Value.bind_setting_iff]
  conv =>
    rhs
    simp only [parts, places, leaves, List.zip_cons_cons, List.zip_nil_right,
      List.forall_mem_cons, Leaf.part_of, Leaf.key_of,
      Leaf.reads_of_iff (fun _ _ => Content.text.inj),
      Leaf.reads_of_iff (fun _ _ => Content.truth.inj),
      Leaf.reads_of_iff (fun _ _ => Content.duration.inj),
      Leaf.reads_of_iff (fun _ _ => Content.number.inj)]
  constructor
  · rintro ⟨inventory, _, inventoryUrl, _, username, _, password, _, verifyTls, _, loginTimeout, _,
        queryTimeout, store, _, storeUrl, _, storeTimeout, gateway, _, gatewayUrl, _, job, _,
        gatewayTimeout, scheduler, _, debounce, _, sessionRetry, _, sampleTimeout, _,
        failureBackoff, _, pushConcurrency, http, _, httpEnabled, _, listen, logging, _, logLevel,
        _, logFormat, _, logColors, _, logLocation, done⟩
    obtain rfl := Option.some.inj done
    exact ⟨⟨inventory, store, gateway, scheduler, http, logging, nofun⟩, inventoryUrl, username,
        password, verifyTls, loginTimeout, queryTimeout, storeUrl, storeTimeout, gatewayUrl, job,
        gatewayTimeout, debounce, sessionRetry, sampleTimeout, failureBackoff, pushConcurrency,
        httpEnabled, listen, logLevel, logFormat, logColors, logLocation, nofun⟩
  · rintro ⟨⟨inventory, store, gateway, scheduler, http, logging, -⟩, inventoryUrl, username,
        password, verifyTls, loginTimeout, queryTimeout, storeUrl, storeTimeout, gatewayUrl, job,
        gatewayTimeout, debounce, sessionRetry, sampleTimeout, failureBackoff, pushConcurrency,
        httpEnabled, listen, logLevel, logFormat, logColors, logLocation, -⟩
    exact ⟨inventory, _, inventoryUrl, _, username, _, password, _, verifyTls, _, loginTimeout, _,
        queryTimeout, store, _, storeUrl, _, storeTimeout, gateway, _, gatewayUrl, _, job, _,
        gatewayTimeout, scheduler, _, debounce, _, sessionRetry, _, sampleTimeout, _,
        failureBackoff, _, pushConcurrency, http, _, httpEnabled, _, listen, logging, _, logLevel,
        _, logFormat, _, logColors, _, logLocation, rfl⟩

/-- All leaves have a place. -/
theorem forall_placed_iff (holds : Leaf → Prop) :
    (∀ placed ∈ places.zip leaves, holds placed.2) ↔ ∀ leaf ∈ leaves, holds leaf := by
  have all : (places.zip leaves).map Prod.snd = leaves := List.map_snd_zip (by decide)
  conv => rhs; rw [← all]
  rw [List.forall_mem_map]

/-- The section of each leaf is one of the sections. -/
theorem part_mem_parts : ∀ leaf ∈ leaves, leaf.part ∈ parts := by
  decide +kernel

/-- A value with tables as sections is decoded to the settings that each of its
leaves gives. -/
theorem ofValue?_eq_some_iff {value : Value}
    (sectioned : ∀ part ∈ parts, value.IsSectioned part) {settings : Settings} :
    ofValue? value = some settings ↔
      ∀ leaf ∈ leaves, leaf.Reads (value.given? leaf.part leaf.key) settings := by
  have isTable := (sectioned "inventory" (by decide)).isTable
  rw [ofValue?_eq_some_iff_of_isTable isTable,
    and_iff_right fun part member => (sectioned part member).allowsSection,
    ← forall_placed_iff fun leaf => leaf.Reads (value.given? leaf.part leaf.key) settings]
  refine forall₂_congr fun placed member => ?_
  have own := part_mem_parts placed.2 (List.of_mem_zip member).2
  rw [Value.taken?_eq_given? (sectioned placed.2.part own)]

/-! ## Values that differ in one leaf -/

section Differing

variable {part key : String} {left right : Value} (same : Value.SameBut part key left right)
include same

theorem Value.SameBut.allowsSection {name : String} (allows : left.AllowsSection name) :
    right.AllowsSection name := by
  by_cases own : name = part
  · exact own ▸ same.hasRight.isSectioned.allowsSection
  · intro inside found
    rw [← same.lookup?_eq name own] at found
    exact allows inside found

theorem Value.SameBut.taken?_eq {name other : String} (different : ¬ (name = part ∧ other = key))
    (index : Nat) : left.taken? name index other = right.taken? name index other := by
  by_cases own : name = part
  · subst own
    rw [taken?_eq_given? same.hasLeft.isSectioned, taken?_eq_given? same.hasRight.isSectioned,
      same.given?_eq other fun equal => different ⟨rfl, equal⟩]
  · rw [taken?, taken?, same.lookup?_eq name own]

/-- If a value differs from one that is decoded in a leaf only, then it is decoded
to what differs in this leaf only. -/
theorem ofValue?_of_sameBut {settings changed : Settings} (decoded : ofValue? left = some settings)
    (own : ∀ leaf ∈ leaves, leaf.part = part → leaf.key = key →
      leaf.Reads (right.given? part key) changed)
    (others : ∀ leaf ∈ leaves, ¬ (leaf.part = part ∧ leaf.key = key) →
      leaf.content changed = leaf.content settings) :
    ofValue? right = some changed := by
  obtain ⟨allows, reads⟩ :=
    (ofValue?_eq_some_iff_of_isTable same.hasLeft.isTable).mp decoded
  refine (ofValue?_eq_some_iff_of_isTable same.hasRight.isTable).mpr
    ⟨fun name member => same.allowsSection (allows name member), fun placed member => ?_⟩
  have among := (List.of_mem_zip member).2
  by_cases mine : placed.2.part = part ∧ placed.2.key = key
  · obtain ⟨samePart, sameKey⟩ := mine
    rw [samePart, sameKey, Value.taken?_eq_given? same.hasRight.isSectioned]
    exact own placed.2 among samePart sameKey
  · rw [← same.taken?_eq mine, Leaf.Reads, others placed.2 among mine]
    exact reads placed member

end Differing

/-- A value whose section is a table is only decoded if each leaf of the section is. -/
theorem reads_of_ofValue? {part : String} {value : Value} (sectioned : value.IsSectioned part)
    {settings : Settings} (decoded : ofValue? value = some settings) :
    ∀ leaf ∈ leaves, leaf.part = part → leaf.Reads (value.given? leaf.part leaf.key) settings := by
  obtain ⟨-, reads⟩ := (ofValue?_eq_some_iff_of_isTable sectioned.isTable).mp decoded
  have all := forall_placed_iff fun leaf =>
    leaf.part = part → leaf.Reads (value.given? leaf.part leaf.key) settings
  refine all.mp fun placed member own => ?_
  have read := reads placed member
  rwa [Value.taken?_eq_given? (own ▸ sectioned)] at read

end Settings
end InventoryGauges

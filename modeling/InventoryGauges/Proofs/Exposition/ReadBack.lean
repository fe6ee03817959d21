import InventoryGauges.Proofs.Exposition.Reading
import InventoryGauges.Proofs.Exposition.Value

/-!
# Expositions are read back

An exposition of families whose names are names is read as what it was written
from, whatever characters are in help texts and label values.
-/

namespace InventoryGauges
namespace Exposition

open Gauge (isNameCharacter isNameStart)

/-! ## Texts on one line -/

theorem newline_not_mem_escapeHelp (character : Char) : '\n' ∉ escapeHelp character := by
  rw [escapeHelp]
  split
  · decide
  · split
    · decide
    · rename_i other
      exact fun member => other (List.mem_singleton.mp member).symm

theorem newline_not_mem_escapeLabel (character : Char) : '\n' ∉ escapeLabel character := by
  rw [escapeLabel]
  split
  · decide
  · exact newline_not_mem_escapeHelp character

theorem newline_not_mem_flatMap {escape : Char → List Char} (text : List Char)
    (whole : ∀ character, '\n' ∉ escape character) : '\n' ∉ text.flatMap escape := by
  intro member
  obtain ⟨character, -, escaped⟩ := List.mem_flatMap.mp member
  exact whole character escaped

theorem newline_not_mem_of_forall {name : List Char}
    (named : ∀ character ∈ name, isNameCharacter character) : '\n' ∉ name :=
  fun member => ne_of_isNameCharacter (named _ member) rfl rfl

theorem newline_not_mem_labelText {label : String × String} (isName : IsName label.1.toList) :
    '\n' ∉ labelText label := by
  have value := newline_not_mem_flatMap label.2.toList newline_not_mem_escapeLabel
  have name := newline_not_mem_of_forall isName.forall_mem
  simp [labelText, name, value]

theorem newline_not_mem_labelsText {labels : List (String × String)}
    (named : ∀ label ∈ labels, IsName label.1.toList) : '\n' ∉ labelsText labels := by
  have each : '\n' ∉ List.intercalate [','] (labels.map labelText) := by
    induction labels with
    | nil => exact List.not_mem_nil
    | cons label labels hypothesis =>
        obtain ⟨own, others⟩ := List.forall_mem_cons.mp named
        cases labels with
        | nil =>
            rw [List.map_singleton, List.intercalate_singleton]
            exact newline_not_mem_labelText own
        | cons next labels =>
            rw [List.map_cons, List.map_cons, List.intercalate_cons_cons, ← List.map_cons]
            intro member
            rcases List.mem_append.mp member with front | later
            · rcases List.mem_append.mp front with label | comma
              · exact newline_not_mem_labelText own label
              · cases List.mem_singleton.mp comma
            · exact hypothesis others later
  rw [labelsText]
  split
  · exact List.not_mem_nil
  · simp [each]

/-! ## Families -/

/-- The names in a family are names. -/
structure Family.IsProper (family : Family) : Prop where
  /-- The family has a name. -/
  named : IsName family.name.toList
  /-- So do its samples. -/
  ended : ∀ line ∈ family.lines, ∀ character ∈ line.ending.toList, isNameCharacter character
  /-- So do their labels. -/
  labelled : ∀ line ∈ family.lines, ∀ label ∈ line.labels, IsName label.1.toList

/-- What a line of a family says. -/
def Line.entry (family : String) (line : Line) : Entry :=
  .sample (family ++ line.ending) line.labels (String.ofList (valueText line.value))

/-- What the lines of a family say. -/
def Family.entries (family : Family) : List Entry :=
  (if family.help.isEmpty then [] else [.help family.name family.help]) ++
    [.kind family.name family.kind] ++ family.lines.map (Line.entry family.name)

theorem readAfterName_append {name : List Char} (isName : IsName name) (rest : List Char)
    (read : String → List Char → Option Entry) :
    readAfterName (name ++ ' ' :: rest) read = read (String.ofList name) rest := by
  rw [readAfterName, readName_append isName rfl, Option.bind_some]
  rfl

theorem kindOf?_word (kind : Kind) : kindOf? kind.word.toList = some kind := by
  cases kind <;> decide

theorem readLine_help (rest : List Char) :
    readLine ("# HELP ".toList ++ rest) = readAfterName rest fun name text =>
      (unescapeHelp text).map fun text => .help name (String.ofList text) := by
  rw [show "# HELP ".toList = ['#', ' ', 'H', 'E', 'L', 'P', ' '] by decide]
  rfl

theorem readLine_kind (rest : List Char) :
    readLine ("# TYPE ".toList ++ rest) = readAfterName rest fun name word =>
      (kindOf? word).map (.kind name) := by
  rw [show "# TYPE ".toList = ['#', ' ', 'T', 'Y', 'P', 'E', ' '] by decide]
  rfl

theorem readLine_append {name : List Char} (isName : IsName name) (rest : List Char) :
    readLine (name ++ rest) = readSample (name ++ rest) := by
  obtain ⟨first, others, rfl, starts, -⟩ := isName
  have other : first ≠ '#' :=
    ne_of_isNameCharacter (isNameCharacter_of_isNameStart starts) rfl
  rw [List.cons_append, readLine]
  all_goals
    intro _ same
    exact other (List.cons.inj same).1

theorem reads_help {name : String} (isName : IsName name.toList) (help : String) :
    Reads ("# HELP ".toList ++ name.toList ++ ' ' :: help.toList.flatMap escapeHelp ++ ['\n'])
      [.help name help] := by
  refine .line ?_ ?_
  · have own := newline_not_mem_of_forall isName.forall_mem
    have text := newline_not_mem_flatMap help.toList newline_not_mem_escapeHelp
    simp [own, text]
  · rw [List.append_assoc, readLine_help, readAfterName_append isName, unescapeHelp_flatMap]
    simp

theorem reads_kind {name : String} (isName : IsName name.toList) (kind : Kind) :
    Reads ("# TYPE ".toList ++ name.toList ++ ' ' :: kind.word.toList ++ ['\n'])
      [.kind name kind] := by
  refine .line ?_ ?_
  · have own := newline_not_mem_of_forall isName.forall_mem
    have word : '\n' ∉ kind.word.toList := by cases kind <;> decide
    simp [own, word]
  · rw [List.append_assoc, readLine_kind, readAfterName_append isName, kindOf?_word]
    simp

theorem readValue_valueText (name : String) (labels : List (String × String)) (value : Binary64) :
    readValue name labels (' ' :: valueText value) =
      some (.sample name labels (String.ofList (valueText value))) :=
  if_pos ⟨valueText_ne_nil value, (isPlain_valueText value).1⟩

theorem readSample_append {name : List Char} {labels : List (String × String)}
    (isName : IsName name) (labelled : ∀ label ∈ labels, IsName label.1.toList)
    (value : Binary64) :
    readSample (name ++ (labelsText labels ++ ' ' :: valueText value)) =
      some (.sample (String.ofList name) labels (String.ofList (valueText value))) := by
  rw [readSample]
  cases labels with
  | nil =>
      have shape : labelsText [] ++ ' ' :: valueText value = ' ' :: valueText value := rfl
      rw [shape, readName_append isName rfl, Option.bind_some]
      exact readValue_valueText _ _ value
  | cons label labels =>
      have shape : labelsText (label :: labels) ++ ' ' :: valueText value =
          '\x7b' :: (List.intercalate [','] ((label :: labels).map labelText) ++
            '\x7d' :: ' ' :: valueText value) := by
        simp [labelsText]
      rw [shape, readName_append isName rfl, Option.bind_some]
      change (readLabels _).bind _ = _
      rw [readLabels_intercalate (List.cons_ne_nil _ _) labelled, Option.bind_some]
      exact readValue_valueText _ _ value

theorem reads_line {family : String} {line : Line} (isName : IsName family.toList)
    (ended : ∀ character ∈ line.ending.toList, isNameCharacter character)
    (labelled : ∀ label ∈ line.labels, IsName label.1.toList) :
    Reads (lineText family line) [line.entry family] := by
  have whole := isName.append ended
  have name : String.ofList (family.toList ++ line.ending.toList) = family ++ line.ending := by
    simp
  rw [lineText]
  refine .line ?_ ?_
  · have own := newline_not_mem_of_forall whole.forall_mem
    have labels := newline_not_mem_labelsText labelled
    have value := (isPlain_valueText line.value).2
    rw [List.mem_append, not_or] at own
    simp [own, labels, value]
  · rw [List.append_assoc, readLine_append whole, Line.entry, ← name]
    exact readSample_append whole labelled line.value

theorem Family.IsProper.reads {family : Family} (proper : family.IsProper) :
    Reads (familyText family) family.entries := by
  have kind := reads_kind proper.named family.kind
  have lines : Reads (family.lines.flatMap (lineText family.name))
      (family.lines.map (Line.entry family.name)) := by
    rw [← List.flatMap_singleton' (family.lines.map _), List.flatMap_map]
    exact .flatMap fun line member =>
      reads_line proper.named (proper.ended line member) (proper.labelled line member)
  have help : Reads (if family.help.isEmpty then [] else "# HELP ".toList ++ family.name.toList ++
      ' ' :: family.help.toList.flatMap escapeHelp ++ ['\n'])
      (if family.help.isEmpty then [] else [.help family.name family.help]) := by
    split
    · exact .nil
    · exact reads_help proper.named family.help
  have whole := (help.append kind).append lines
  simp only [← List.append_assoc] at whole
  exact whole

/-- An exposition of proper families says what they say. -/
theorem read_render {families : List Family} (proper : ∀ family ∈ families, family.IsProper) :
    read (render families) =
      some ((families.filter fun family => !family.lines.isEmpty).flatMap Family.entries) := by
  rw [read, render, String.toList_ofList]
  refine (Reads.flatMap fun family member => ?_).readAll_eq
  exact (proper family (List.mem_filter.mp member).1).reads

/-! ## Published names -/

theorem forall_mem_collapse (inRun : Bool) (text : List Char) :
    ∀ character ∈ Gauge.collapse inRun text, isNameCharacter character := by
  induction text generalizing inRun with
  | nil => exact List.forall_mem_nil _
  | cons character text hypothesis =>
      rw [Gauge.collapse]
      split
      · exact List.forall_mem_cons.mpr ⟨‹_›, hypothesis false⟩
      · split
        · exact hypothesis true
        · exact List.forall_mem_cons.mpr ⟨rfl, hypothesis true⟩

theorem collapse_eq_self {text : List Char}
    (named : ∀ character ∈ text, isNameCharacter character) :
    Gauge.collapse false text = text := by
  induction text with
  | nil => rfl
  | cons character text hypothesis =>
      obtain ⟨own, others⟩ := List.forall_mem_cons.mp named
      rw [Gauge.collapse, if_pos own, hypothesis others]

/-- A text that starts like a name becomes a name. -/
theorem isName_collapse {first : Char} (starts : isNameStart first) (rest : List Char) :
    IsName (Gauge.collapse false (first :: rest)) := by
  rw [Gauge.collapse, if_pos (isNameCharacter_of_isNameStart starts)]
  exact ⟨first, _, rfl, starts, forall_mem_collapse false rest⟩

theorem isName_publishedName (metric : String) : IsName (Gauge.publishedName metric).toList := by
  rw [Gauge.publishedName, String.toList_ofList]
  cases metric.toList with
  | nil => exact isName_collapse rfl _
  | cons first rest =>
      dsimp only
      split
      · exact isName_collapse ‹_› rest
      · exact isName_collapse rfl _

/-- A name is published as it is. -/
theorem publishedName_eq_self {name : String} (isName : IsName name.toList) :
    Gauge.publishedName name = name := by
  have named := isName.forall_mem
  obtain ⟨first, rest, split, starts, -⟩ := isName
  rw [split] at named
  rw [Gauge.publishedName, split]
  dsimp only
  rw [if_pos starts, collapse_eq_self named, ← split, String.ofList_toList]

/-! ## Labels -/

/-- A distinguished name that ends with the class name is written without it, any other as
it is. -/
theorem withoutClass_cases (className dn : String) :
    dn = Gauge.withoutClass className dn ++ className ∨
      dn = Gauge.withoutClass className dn ∧ ∀ start, dn ≠ start ++ className := by
  rw [Gauge.withoutClass]
  split
  · rename_i ends
    obtain ⟨start, same⟩ := List.isSuffixOf_iff_suffix.mp ends
    refine Or.inl ?_
    rw [← same, List.length_append, Nat.add_sub_cancel, List.take_left, ← String.toList_inj,
      String.toList_append, String.toList_ofList, same]
  · rename_i other
    refine Or.inr ⟨rfl, fun start same => other (List.isSuffixOf_iff_suffix.mpr ⟨start.toList, ?_⟩)⟩
    rw [same, String.toList_append]

/-! ## Single samples -/

/-- What is asked of a family before it is written: its names are names, it has a help
text and samples, and no sample has a label twice. -/
structure Family.IsAccepted (family : Family) : Prop extends family.IsProper where
  described : family.help ≠ ""
  sampled : family.lines ≠ []
  distinct : ∀ line ∈ family.lines, (line.labels.map Prod.fst).Nodup

theorem isName_of_isName {name : List Char} (named : IsName name) (colons : Bool) :
    isName colons name = true := by
  obtain ⟨first, rest, rfl, starts, others⟩ := named
  simp only [isName, starts, Bool.true_or, Bool.true_and, List.all_eq_true]
  intro character member
  rw [others character member, Bool.true_or]

theorem checkLabels_eq_ok {before names : List String}
    (named : ∀ name ∈ names, IsName name.toList) (distinct : names.Nodup)
    (fresh : ∀ name ∈ names, name ∉ before) : checkLabels before names = .ok () := by
  induction names generalizing before with
  | nil => rfl
  | cons name names hypothesis =>
      obtain ⟨own, others⟩ := List.forall_mem_cons.mp named
      obtain ⟨once, rest⟩ := List.nodup_cons.mp distinct
      obtain ⟨first, later⟩ := List.forall_mem_cons.mp fresh
      have unused : before.contains name = false := by simpa using first
      rw [checkLabels, isName_of_isName own, Bool.not_true, if_neg Bool.false_ne_true, unused,
        if_neg Bool.false_ne_true]
      refine hypothesis others rest fun other member seen => ?_
      rcases List.mem_cons.mp seen with rfl | seen
      · exact once member
      · exact later other member seen

theorem forM_checkLabels_eq_ok {lines : List Line}
    (labelled : ∀ line ∈ lines, ∀ label ∈ line.labels, IsName label.1.toList)
    (distinct : ∀ line ∈ lines, (line.labels.map Prod.fst).Nodup) :
    (forM lines fun line => checkLabels [] (line.labels.map Prod.fst)) = .ok () := by
  induction lines with
  | nil => rfl
  | cons line lines hypothesis =>
      obtain ⟨own, others⟩ := List.forall_mem_cons.mp labelled
      obtain ⟨once, rest⟩ := List.forall_mem_cons.mp distinct
      have checked : checkLabels [] (line.labels.map Prod.fst) = .ok () :=
        checkLabels_eq_ok (List.forall_mem_map.mpr own) once fun _ _ => List.not_mem_nil
      rw [List.forM_cons, checked]
      exact hypothesis others rest

/-- A family that is accepted is written. -/
theorem Family.IsAccepted.expose_eq {family : Family} (accepted : family.IsAccepted) :
    family.expose = .ok (render [family]) := by
  have described : family.help.isEmpty = false :=
    Bool.eq_false_iff.mpr fun empty => accepted.described (String.isEmpty_iff.mp empty)
  rw [Family.expose, Family.check, described, if_neg Bool.false_ne_true,
    isName_of_isName accepted.named, Bool.not_true, if_neg Bool.false_ne_true,
    forM_checkLabels_eq_ok accepted.labelled accepted.distinct]
  rfl

theorem isName_attributeLabel : IsName "attribute_name".toList :=
  ⟨'a', "ttribute_name".toList, by decide, rfl, List.all_eq_true.mp rfl⟩

theorem isName_dnLabel : IsName "dn".toList :=
  ⟨'d', ['n'], by decide, rfl, List.all_eq_true.mp rfl⟩

theorem isAccepted_ofSample (sample : Gauge.Sample) : (ofSample sample).IsAccepted where
  named := isName_publishedName sample.metric
  ended := List.forall_mem_singleton.mpr (List.forall_mem_nil _)
  labelled := by
    refine List.forall_mem_singleton.mpr (List.forall_mem_cons.mpr ⟨isName_attributeLabel, ?_⟩)
    exact List.forall_mem_singleton.mpr isName_dnLabel
  described := by
    intro empty
    have length := congrArg String.length empty
    simp [ofSample] at length
  sampled := List.cons_ne_nil _ _
  distinct := List.forall_mem_singleton.mpr (by simp)

theorem read_encode (sample : Gauge.Sample) :
    read (encode sample) = some
      [.help (Gauge.publishedName sample.metric)
          (sample.className ++ " attributes polled from ACI"),
        .kind (Gauge.publishedName sample.metric) .gauge,
        .sample (Gauge.publishedName sample.metric)
          [("attribute_name", sample.attributeName),
            ("dn", Gauge.withoutClass sample.className sample.dn)]
          (String.ofList (valueText sample.value))] := by
  have accepted := isAccepted_ofSample sample
  rw [encode, read_render (List.forall_mem_singleton.mpr accepted.toIsProper)]
  have described : (ofSample sample).help.isEmpty = false :=
    Bool.eq_false_iff.mpr fun empty => accepted.described (String.isEmpty_iff.mp empty)
  have filtered : [ofSample sample].filter (fun family => !family.lines.isEmpty) =
      [ofSample sample] := rfl
  rw [filtered, List.flatMap_singleton, Family.entries, described, if_neg Bool.false_ne_true]
  simp [ofSample, Line.entry]

/-- Samples have the same exposition only if they are written from the same texts and the
same value. -/
theorem encode_eq_encode_iff {sample other : Gauge.Sample} :
    encode sample = encode other ↔
      Gauge.publishedName sample.metric = Gauge.publishedName other.metric ∧
        sample.className = other.className ∧ sample.attributeName = other.attributeName ∧
        Gauge.withoutClass sample.className sample.dn =
          Gauge.withoutClass other.className other.dn ∧
        (sample.value = other.value ∨ sample.value.isNaN ∧ other.value.isNaN) := by
  rw [← valueText_eq_valueText_iff]
  constructor
  · intro same
    have reads := (read_encode sample).symm.trans ((congrArg read same).trans (read_encode other))
    simp only [Option.some.injEq, List.cons.injEq, Entry.help.injEq, Entry.sample.injEq,
      Prod.mk.injEq, String.append_left_inj, String.ofList_inj] at reads
    obtain ⟨⟨name, className⟩, -, ⟨-, ⟨⟨-, attributeName⟩, ⟨-, dn⟩, -⟩, value⟩, -⟩ := reads
    exact ⟨name, className, attributeName, dn, value⟩
  · rintro ⟨name, className, attributeName, dn, value⟩
    simp [encode, render, familyText, lineText, ofSample, name, className, attributeName, value,
      ← dn]

/-- Whatever its texts and its value are, a sample is accepted, and its exposition says the
help text, the kind and one sample of its gauge and nothing else.  The value is read back to
the bit, and the class name is the only thing that a distinguished name can lose. -/
theorem encode_reads_back (sample : Gauge.Sample) :
    (ofSample sample).IsAccepted ∧
    (ofSample sample).expose = .ok (encode sample) ∧
    read (encode sample) = some
      [.help (Gauge.publishedName sample.metric)
          (sample.className ++ " attributes polled from ACI"),
        .kind (Gauge.publishedName sample.metric) .gauge,
        .sample (Gauge.publishedName sample.metric)
          [("attribute_name", sample.attributeName),
            ("dn", Gauge.withoutClass sample.className sample.dn)]
          (String.ofList (valueText sample.value))] ∧
    Decimal.real? (valueText sample.value) =
      some (if sample.value.isNaN then Binary64.nan else sample.value) ∧
    (sample.dn = Gauge.withoutClass sample.className sample.dn ++ sample.className ∨
      sample.dn = Gauge.withoutClass sample.className sample.dn ∧
        ∀ start, sample.dn ≠ start ++ sample.className) ∧
    IsName (Gauge.publishedName sample.metric).toList ∧
    Gauge.publishedName (Gauge.publishedName sample.metric) = Gauge.publishedName sample.metric :=
  ⟨isAccepted_ofSample sample, (isAccepted_ofSample sample).expose_eq, read_encode sample,
    real?_valueText sample.value, withoutClass_cases sample.className sample.dn,
    isName_publishedName sample.metric,
    publishedName_eq_self (isName_publishedName sample.metric)⟩

end Exposition
end InventoryGauges

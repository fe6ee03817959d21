import InventoryGauges.Exposition

/-!
# Reading expositions

A reader of the line format: each line ends with a newline, help texts and
label values are written with escapes, and names consist of letters, digits and
underscores and do not start with a digit.
-/

namespace InventoryGauges
namespace Exposition

open Gauge (isNameCharacter isNameStart)

/-- What a line of an exposition says. -/
inductive Entry
  /-- The help text of a family. -/
  | help (family text : String)
  /-- The kind of a family. -/
  | kind (family : String) (kind : Kind)
  /-- A sample with its labels and the text of its value. -/
  | sample (name : String) (labels : List (String × String)) (value : String)
  deriving DecidableEq, Repr

/-! ## Names -/

/-- A text that may be a name. -/
def IsName (text : List Char) : Prop :=
  ∃ first rest, text = first :: rest ∧ isNameStart first ∧
    ∀ character ∈ rest, isNameCharacter character

/-- Take a name off the front of a text. -/
def readName (text : List Char) : Option (String × List Char) :=
  match text with
  | [] => none
  | first :: rest =>
      if isNameStart first then
        some (String.ofList (first :: rest.takeWhile isNameCharacter),
          rest.dropWhile isNameCharacter)
      else none

theorem isNameCharacter_of_isNameStart {character : Char} (starts : isNameStart character) :
    isNameCharacter character := by
  rw [isNameStart, Bool.or_eq_true] at starts
  rw [isNameCharacter, Bool.or_eq_true, Char.isAlphanum, Bool.or_eq_true]
  exact starts.imp_left Or.inl

theorem ne_of_isNameCharacter {character mark : Char} (named : isNameCharacter character)
    (foreign : isNameCharacter mark = false) : character ≠ mark := by
  rintro rfl
  cases named.symm.trans foreign

section Name

variable {name : List Char}

theorem IsName.forall_mem (isName : IsName name) :
    ∀ character ∈ name, isNameCharacter character := by
  obtain ⟨first, rest, rfl, starts, others⟩ := isName
  exact List.forall_mem_cons.mpr ⟨isNameCharacter_of_isNameStart starts, others⟩

theorem IsName.append {ending : List Char} (isName : IsName name)
    (others : ∀ character ∈ ending, isNameCharacter character) : IsName (name ++ ending) := by
  obtain ⟨first, rest, rfl, starts, own⟩ := isName
  exact ⟨first, rest ++ ending, rfl, starts, List.forall_mem_append.mpr ⟨own, others⟩⟩

theorem readName_append {mark : Char} (isName : IsName name)
    (foreign : isNameCharacter mark = false) (rest : List Char) :
    readName (name ++ mark :: rest) = some (String.ofList name, mark :: rest) := by
  obtain ⟨first, others, rfl, starts, named⟩ := isName
  rw [List.cons_append, readName, if_pos starts, List.takeWhile_append_of_pos named,
    List.dropWhile_append_of_pos named, List.takeWhile_cons_of_neg, List.dropWhile_cons_of_neg,
    List.append_nil]
  · simp [foreign]
  · simp [foreign]

end Name

/-! ## Escapes -/

/-- A help text without its escapes. -/
def unescapeHelp : List Char → Option (List Char)
  | [] => some []
  | '\\' :: '\\' :: rest => (unescapeHelp rest).map ('\\' :: ·)
  | '\\' :: 'n' :: rest => (unescapeHelp rest).map ('\n' :: ·)
  | '\\' :: _ => none
  | character :: rest => (unescapeHelp rest).map (character :: ·)

/-- The value of a label without its escapes, up to the closing quote, and what follows. -/
def readQuoted : List Char → Option (List Char × List Char)
  | [] => none
  | '"' :: rest => some ([], rest)
  | '\\' :: '\\' :: rest => (readQuoted rest).map (Prod.map ('\\' :: ·) id)
  | '\\' :: '"' :: rest => (readQuoted rest).map (Prod.map ('"' :: ·) id)
  | '\\' :: 'n' :: rest => (readQuoted rest).map (Prod.map ('\n' :: ·) id)
  | '\\' :: _ => none
  | character :: rest => (readQuoted rest).map (Prod.map (character :: ·) id)

theorem unescapeHelp_escapeHelp (character : Char) (rest : List Char) :
    unescapeHelp (escapeHelp character ++ rest) = (unescapeHelp rest).map (character :: ·) := by
  rw [escapeHelp]
  split
  · subst character
    rfl
  · split
    · subst character
      rfl
    · simp [unescapeHelp, *]

theorem unescapeHelp_flatMap (text : List Char) :
    unescapeHelp (text.flatMap escapeHelp) = some text := by
  induction text with
  | nil => rfl
  | cons character text hypothesis =>
      rw [List.flatMap_cons, unescapeHelp_escapeHelp, hypothesis]
      rfl

theorem readQuoted_escapeLabel (character : Char) (rest : List Char) :
    readQuoted (escapeLabel character ++ rest) =
      (readQuoted rest).map (Prod.map (character :: ·) id) := by
  rw [escapeLabel]
  split
  · subst character
    rfl
  · rw [escapeHelp]
    split
    · subst character
      rfl
    · split
      · subst character
        rfl
      · simp [readQuoted, *]

theorem readQuoted_flatMap (text rest : List Char) :
    readQuoted (text.flatMap escapeLabel ++ '"' :: rest) = some (text, rest) := by
  induction text with
  | nil => rfl
  | cons character text hypothesis =>
      rw [List.flatMap_cons, List.append_assoc, readQuoted_escapeLabel, hypothesis]
      rfl

theorem length_of_readQuoted {text value rest : List Char}
    (reads : readQuoted text = some (value, rest)) : rest.length < text.length := by
  induction text using readQuoted.induct generalizing value with
  | case1 => cases reads
  | case2 text =>
      cases reads
      exact Nat.lt_succ_self _
  | case3 text hypothesis | case4 text hypothesis | case5 text hypothesis =>
      obtain ⟨⟨inner, _⟩, found, same⟩ := Option.map_eq_some_iff.mp reads
      cases same
      exact Nat.lt_succ_of_lt (Nat.lt_succ_of_lt (hypothesis found))
  | case6 text => simp [readQuoted, *] at reads
  | case7 character text _ _ _ _ _ hypothesis =>
      rw [readQuoted] at reads
      · obtain ⟨⟨inner, _⟩, found, same⟩ := Option.map_eq_some_iff.mp reads
        cases same
        exact Nat.lt_succ_of_lt (hypothesis found)
      all_goals assumption

/-! ## Labels -/

/-- Take a label with its value off the front of a text. -/
def readLabel (text : List Char) : Option ((String × String) × List Char) :=
  (readName text).bind fun (name, rest) =>
    match rest with
    | '=' :: '"' :: rest =>
        (readQuoted rest).map fun (value, rest) => ((name, String.ofList value), rest)
    | _ => none

theorem length_of_readName {text rest : List Char} {name : String}
    (reads : readName text = some (name, rest)) : rest.length ≤ text.length := by
  cases text with
  | nil => cases reads
  | cons first text =>
      rw [readName] at reads
      split at reads
      · cases reads
        exact Nat.le_succ_of_le (List.dropWhile_suffix _).length_le
      · cases reads

theorem length_of_readLabel {text rest : List Char} {label : String × String}
    (reads : readLabel text = some (label, rest)) : rest.length < text.length := by
  obtain ⟨⟨name, after⟩, named, reads⟩ := Option.bind_eq_some_iff.mp reads
  have shorter := length_of_readName named
  dsimp only at reads
  split at reads
  · obtain ⟨⟨value, last⟩, quoted, same⟩ := Option.map_eq_some_iff.mp reads
    cases same
    have shortest := length_of_readQuoted quoted
    exact Nat.lt_trans shortest (Nat.lt_of_succ_lt shorter)
  · cases reads

/-- Take labels up to the closing brace off the front of a text. -/
def readLabels (text : List Char) : Option (List (String × String) × List Char) :=
  match _reads : readLabel text with
  | some (label, '\x7d' :: rest) => some ([label], rest)
  | some (label, ',' :: rest) => (readLabels rest).map (Prod.map (label :: ·) id)
  | _ => none
termination_by text.length
decreasing_by
  have shorter := length_of_readLabel _reads
  rw [List.length_cons] at shorter
  omega

theorem readLabel_labelText {label : String × String} (isName : IsName label.1.toList)
    (rest : List Char) : readLabel (labelText label ++ rest) = some (label, rest) := by
  obtain ⟨name, value⟩ := label
  have shape : labelText (name, value) ++ rest =
      name.toList ++ '=' :: ('"' :: (value.toList.flatMap escapeLabel ++ '"' :: rest)) := by
    simp [labelText]
  rw [readLabel, shape, readName_append isName rfl, Option.bind_some]
  change (readQuoted (value.toList.flatMap escapeLabel ++ '"' :: rest)).map _ = _
  rw [readQuoted_flatMap, Option.map_some]
  simp only [String.ofList_toList]

theorem readLabels_last {text rest : List Char} {label : String × String}
    (reads : readLabel text = some (label, '\x7d' :: rest)) :
    readLabels text = some ([label], rest) := by
  rw [readLabels]
  split
  · rename_i equal
    cases reads.symm.trans equal
    rfl
  · rename_i equal
    cases reads.symm.trans equal
  · rename_i other _
    exact absurd reads (other _ _)

theorem readLabels_next {text rest : List Char} {label : String × String}
    (reads : readLabel text = some (label, ',' :: rest)) :
    readLabels text = (readLabels rest).map (Prod.map (label :: ·) id) := by
  rw [readLabels]
  split
  · rename_i equal
    cases reads.symm.trans equal
  · rename_i equal
    cases reads.symm.trans equal
    rfl
  · rename_i other
    exact absurd reads (other _ _)

theorem readLabels_intercalate {labels : List (String × String)} (some : labels ≠ [])
    (named : ∀ label ∈ labels, IsName label.1.toList) (rest : List Char) :
    readLabels (List.intercalate [','] (labels.map labelText) ++ '\x7d' :: rest) =
      .some (labels, rest) := by
  induction labels with
  | nil => exact absurd rfl some
  | cons label labels hypothesis =>
      obtain ⟨own, others⟩ := List.forall_mem_cons.mp named
      cases labels with
      | nil =>
          rw [List.map_singleton, List.intercalate_singleton]
          exact readLabels_last (readLabel_labelText own _)
      | cons next labels =>
          have continues := hypothesis (List.cons_ne_nil _ _) others
          have shape : List.intercalate [','] ((label :: next :: labels).map labelText) ++
              '\x7d' :: rest = labelText label ++
                ',' :: (List.intercalate [','] ((next :: labels).map labelText) ++
                  '\x7d' :: rest) := by
            rw [List.map_cons, List.map_cons, List.intercalate_cons_cons, List.append_assoc,
              List.append_assoc, List.singleton_append]
          rw [shape, readLabels_next (readLabel_labelText own _), continues]
          rfl

/-! ## Lines -/

/-- The kind that a word stands for. -/
def kindOf? (word : List Char) : Option Kind :=
  [Kind.counter, .gauge, .histogram].find? fun kind => kind.word.toList == word

/-- Read what follows a name. -/
def readAfterName (text : List Char) (read : String → List Char → Option Entry) : Option Entry :=
  (readName text).bind fun (name, rest) =>
    match rest with
    | ' ' :: rest => read name rest
    | _ => none

/-- Read the value of a sample, which is all that is left of its line. -/
def readValue (name : String) (labels : List (String × String)) (text : List Char) : Option Entry :=
  match text with
  | ' ' :: value =>
      if value ≠ [] ∧ ' ' ∉ value then some (.sample name labels (String.ofList value)) else none
  | _ => none

/-- Read a sample. -/
def readSample (text : List Char) : Option Entry :=
  (readName text).bind fun (name, rest) =>
    match rest with
    | '\x7b' :: rest => (readLabels rest).bind fun (labels, rest) => readValue name labels rest
    | _ => readValue name [] rest

/-- Read a line. -/
def readLine : List Char → Option Entry
  | '#' :: ' ' :: 'H' :: 'E' :: 'L' :: 'P' :: ' ' :: rest =>
      readAfterName rest fun name text =>
        (unescapeHelp text).map fun text => .help name (String.ofList text)
  | '#' :: ' ' :: 'T' :: 'Y' :: 'P' :: 'E' :: ' ' :: rest =>
      readAfterName rest fun name word => (kindOf? word).map (.kind name)
  | text => readSample text

/-- The lines of a text, each of which ends with a newline. -/
def linesOf : List Char → Option (List (List Char))
  | [] => some []
  | character :: rest =>
      (linesOf rest).bind fun lines =>
        if character = '\n' then some ([] :: lines)
        else
          match lines with
          | [] => none
          | line :: lines => some ((character :: line) :: lines)

/-- Read all lines of a text. -/
def readAll (text : List Char) : Option (List Entry) :=
  (linesOf text).bind (·.mapM readLine)

/-- Read an exposition. -/
def read (exposition : String) : Option (List Entry) :=
  readAll exposition.toList

theorem linesOf_append {line : List Char} (whole : '\n' ∉ line) (rest : List Char) :
    linesOf (line ++ '\n' :: rest) = (linesOf rest).map (line :: ·) := by
  induction line with
  | nil =>
      rw [List.nil_append, linesOf]
      cases linesOf rest <;> rfl
  | cons character line hypothesis =>
      obtain ⟨other, later⟩ := List.ne_and_not_mem_of_not_mem_cons whole
      rw [List.cons_append, linesOf, hypothesis later]
      cases linesOf rest with
      | none => rfl
      | some lines => exact if_neg other.symm

/-- A text is read as these entries, whatever follows it. -/
def Reads (text : List Char) (entries : List Entry) : Prop :=
  ∀ rest, readAll (text ++ rest) = (readAll rest).map (entries ++ ·)

namespace Reads

theorem nil : Reads [] [] := by
  intro rest
  cases read : readAll rest <;> simp [read]

theorem append {first last : List Char} {early late : List Entry} (reads : Reads first early)
    (readsLate : Reads last late) : Reads (first ++ last) (early ++ late) := by
  intro rest
  rw [List.append_assoc, reads, readsLate, Option.map_map]
  simp only [Function.comp_def, List.append_assoc]

theorem line {line : List Char} {entry : Entry} (whole : '\n' ∉ line)
    (reads : readLine line = some entry) : Reads (line ++ ['\n']) [entry] := by
  intro rest
  rw [List.append_assoc, List.singleton_append, readAll, readAll, linesOf_append whole]
  cases linesOf rest with
  | none => rfl
  | some lines =>
      rw [Option.map_some, Option.bind_some, Option.bind_some, List.mapM_cons, reads]
      cases lines.mapM readLine <;> rfl

theorem flatMap {Part : Type} {parts : List Part} {text : Part → List Char}
    {entries : Part → List Entry} (each : ∀ part ∈ parts, Reads (text part) (entries part)) :
    Reads (parts.flatMap text) (parts.flatMap entries) := by
  induction parts with
  | nil => exact nil
  | cons part parts hypothesis =>
      obtain ⟨own, others⟩ := List.forall_mem_cons.mp each
      rw [List.flatMap_cons, List.flatMap_cons]
      exact own.append (hypothesis others)

theorem readAll_eq {text : List Char} {entries : List Entry} (reads : Reads text entries) :
    readAll text = some entries := by
  have whole := reads []
  rw [List.append_nil] at whole
  rw [whole]
  exact congrArg some (List.append_nil entries)

end Reads

end Exposition
end InventoryGauges

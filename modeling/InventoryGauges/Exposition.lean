import InventoryGauges.Decimal.Shortest
import InventoryGauges.Gauge

/-!
# Text exposition

The line format in which gauges and counters are exposed: for each family a
help line and a type line, then its samples with their labels.
-/

namespace InventoryGauges
namespace Exposition

/-- Media type of the format. -/
def contentType : String := "text/plain; version=0.0.4"

/-- Kind of a family. -/
inductive Kind
  | counter
  | gauge
  | histogram
  deriving DecidableEq, Repr

/-- The word for a kind. -/
def Kind.word : Kind → String
  | counter => "counter"
  | gauge => "gauge"
  | histogram => "histogram"

/-- One sample of a family. -/
structure Line where
  /-- What the sample's name adds to the family's name. -/
  ending : String
  /-- Labels in the order in which they are written. -/
  labels : List (String × String)
  /-- The value. -/
  value : Binary64
  deriving DecidableEq, Repr

/-- A family of samples that share name, help and kind. -/
structure Family where
  /-- Name of the family. -/
  name : String
  /-- Help text. -/
  help : String
  /-- Kind of its samples. -/
  kind : Kind
  /-- The samples. -/
  lines : List Line
  deriving DecidableEq, Repr

/-- A character of a help text. -/
def escapeHelp (character : Char) : List Char :=
  if character = '\\' then ['\\', '\\']
  else if character = '\n' then ['\\', 'n']
  else [character]

/-- A character of a label value. -/
def escapeLabel (character : Char) : List Char :=
  if character = '"' then ['\\', '"'] else escapeHelp character

/-- Text of a value: a shortest decimal without exponent. -/
def valueText (value : Binary64) : List Char :=
  if value.isNaN then ['N', 'a', 'N']
  else
    (if value.isNegative then ['-'] else []) ++
      (if value.isInfinite then ['i', 'n', 'f']
        else if value.magnitude = 0 then ['0']
        else (Decimal.shortest value).positional)

/-- One label with its value. -/
def labelText (label : String × String) : List Char :=
  label.1.toList ++ '=' :: '"' :: label.2.toList.flatMap escapeLabel ++ ['"']

/-- The labels of a sample, in braces if there are any. -/
def labelsText (labels : List (String × String)) : List Char :=
  if labels.isEmpty then []
  else '\x7b' :: List.intercalate [','] (labels.map labelText) ++ ['\x7d']

/-- A sample on its line. -/
def lineText (family : String) (line : Line) : List Char :=
  family.toList ++ line.ending.toList ++ labelsText line.labels ++
    ' ' :: valueText line.value ++ ['\n']

/-- A family: help, type and samples.  An empty help text has no line. -/
def familyText (family : Family) : List Char :=
  (if family.help.isEmpty then []
    else "# HELP ".toList ++ family.name.toList ++ ' ' ::
      family.help.toList.flatMap escapeHelp ++ ['\n']) ++
    "# TYPE ".toList ++ family.name.toList ++ ' ' :: family.kind.word.toList ++ ['\n'] ++
    family.lines.flatMap (lineText family.name)

/-- The exposition of some families; those without samples are left out. -/
def render (families : List Family) : String :=
  String.ofList ((families.filter fun family => !family.lines.isEmpty).flatMap familyText)

/-- Why a family is not written. -/
inductive Refusal
  /-- It has no help text. -/
  | noHelp
  /-- Its name is no name. -/
  | familyName (name : String)
  /-- One of its labels has a name that is no name. -/
  | labelName (name : String)
  /-- Two labels of a sample have this name. -/
  | repeatedLabel (name : String)
  deriving DecidableEq, Repr

/-- The refusal in words. -/
def Refusal.message : Refusal → String
  | noHelp => "Error: empty help string"
  | familyName name => s!"Error: '{name}' is not a valid metric name"
  | labelName name => s!"Error: '{name}' is not a valid label name"
  | repeatedLabel name => s!"Error: duplicate variable label name {name}"

/-- Whether a text is a name.  Names of families may have colons in them. -/
def isName (colons : Bool) (name : List Char) : Bool :=
  let extra (character : Char) : Bool := colons && character == ':'
  match name with
  | [] => false
  | first :: rest =>
      (Gauge.isNameStart first || extra first) &&
        rest.all fun character => Gauge.isNameCharacter character || extra character

/-- Check the names of labels, none of which may be among those before. -/
def checkLabels (before : List String) : List String → Except Refusal Unit
  | [] => .ok ()
  | name :: names =>
      if !isName false name.toList then .error (.labelName name)
      else if before.contains name then .error (.repeatedLabel name)
      else checkLabels (name :: before) names

/-- Check a family before it is written: its help text, its name, and the labels of its
samples. -/
def Family.check (family : Family) : Except Refusal Unit :=
  if family.help.isEmpty then .error .noHelp
  else if !isName true family.name.toList then .error (.familyName family.name)
  else forM family.lines fun line => checkLabels [] (line.labels.map Prod.fst)

/-- The exposition of a single family, or why there is none. -/
def Family.expose (family : Family) : Except Refusal String :=
  family.check.map fun () => render [family]

/-- The family of a single sample. -/
def ofSample (sample : Gauge.Sample) : Family :=
  { name := Gauge.publishedName sample.metric
    help := sample.className ++ " attributes polled from ACI"
    kind := .gauge
    lines :=
      [{ ending := ""
         labels :=
          [("attribute_name", sample.attributeName),
            ("dn", Gauge.withoutClass sample.className sample.dn)]
         value := sample.value }] }

/-- The text of a single sample. -/
def encode (sample : Gauge.Sample) : String :=
  render [ofSample sample]

end Exposition
end InventoryGauges

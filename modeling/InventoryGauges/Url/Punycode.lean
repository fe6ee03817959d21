/-!
# Punycode

Labels of domain names with characters beyond ASCII are written in ASCII: the
plain characters first, then the positions and code points of the others as
differences, in numbers of variable length to the base 36.
-/

namespace InventoryGauges
namespace Url
namespace Punycode

/-- A digit to the base 36: letters first. -/
def digit (value : Nat) : Char :=
  if value < 26 then Char.ofNat ('a'.toNat + value) else Char.ofNat ('0'.toNat + value - 26)

/-- The threshold of the digit at a position. -/
def threshold (position bias : Nat) : Nat :=
  if position ≤ bias then 1 else min 26 (position - bias)

/-- Halve a difference until it is small.  Each step divides it by 35, so the
fuel of its own size is enough. -/
def settle : Nat → Nat → Nat → Nat
  | 0, _, position => position
  | fuel + 1, delta, position =>
      if 455 < delta then settle fuel (delta / 35) (position + 36)
      else position + 36 * delta / (delta + 38)

/-- The bias for the next number. -/
def adapt (delta count : Nat) (isFirst : Bool) : Nat :=
  let delta := if isFirst then delta / 700 else delta / 2
  settle (delta + 1) (delta + delta / count) 0

/-- A number of variable length.  Each digit makes it smaller, so that fuel of
its own size is enough. -/
def number (bias : Nat) : Nat → Nat → Nat → List Char
  | 0, _, _ => []
  | fuel + 1, position, value =>
      let limit := threshold position bias
      if value < limit then [digit value]
      else
        digit (limit + (value - limit) % (36 - limit)) ::
          number bias fuel (position + 36) ((value - limit) / (36 - limit))

/-- What is kept between two characters. -/
structure State where
  written : List Char
  delta : Nat
  bias : Nat
  handled : Nat

/-- Look at one character for the code point whose turn it is. -/
def visit (plain code : Nat) (state : State) (character : Char) : State :=
  if character.toNat < code then { state with delta := state.delta + 1 }
  else if character.toNat = code then
    { written := state.written ++ number state.bias (state.delta + 1) 36 state.delta
      delta := 0
      bias := adapt state.delta (state.handled + 1) (state.handled == plain)
      handled := state.handled + 1 }
  else state

/-- The code points of a text from 128 on, each once, in order. -/
def codes (text : List Char) : List Nat :=
  (((text.filter fun character => 128 ≤ character.toNat).map Char.toNat).mergeSort).eraseDups

/-- Write the characters of one code point after another. -/
def writeCodes (plain : Nat) (text : List Char) : List Nat → Nat → State → State
  | [], _, state => state
  | code :: rest, least, state =>
      let state := { state with delta := state.delta + (code - least) * (state.handled + 1) }
      let state := text.foldl (visit plain code) state
      writeCodes plain text rest (code + 1) { state with delta := state.delta + 1 }

/-- A label in ASCII. -/
def encode (text : List Char) : List Char :=
  let plain := text.filter fun character => character.toNat < 128
  plain ++ (if plain.isEmpty then [] else ['-']) ++
    (writeCodes plain.length text (codes text) 128 ⟨[], 0, 72, plain.length⟩).written

end Punycode
end Url
end InventoryGauges

import InventoryGauges.Decimal.Digits
import InventoryGauges.Json.Reader
import InventoryGauges.Text.Split

/-!
# Network addresses

Addresses of both protocol versions and their texts.  Longer addresses leave
out the first of the longest runs of zero groups.
-/

namespace InventoryGauges
namespace Network

/-- Text of an address of four bytes. -/
def dotted (address : Nat) : List Char :=
  Text.join ['.'] <| [24, 16, 8, 0].map fun shift =>
    Decimal.digitsOf ((address >>> shift) % 256)

/-- Read a number between dots: up to three digits, without leading zeros. -/
def octet? (text : List Char) : Option Nat :=
  if 3 < text.length || (text.head? == some '0' && 1 < text.length) then none
  else (Decimal.natural? text).bind fun value => if value < 256 then some value else none

/-- Read an address of four bytes. -/
def ofDotted? (text : List Char) : Option Nat := do
  let octets ← (Text.splitAtAll (· == '.') text).mapM octet?
  if octets.length = 4 then
    return octets.foldl (fun address octet => address * 256 + octet) 0
  else none

/-- Value of a run of hexadecimal digits. -/
def hexNumber? (text : List Char) : Option Nat :=
  if text.isEmpty then none
  else text.foldlM (fun value digit =>
    (Json.hexValue? digit).map fun digit => value * 16 + digit) 0

/-- Text of a number in hexadecimal digits. -/
def hexText (number : Nat) : List Char :=
  Nat.toDigits 16 number

/-- Read a group of up to four hexadecimal digits. -/
def group? (text : List Char) : Option Nat :=
  if 4 < text.length then none else hexNumber? text

/-- Read groups with colons between them.  The last two may be written as an
address of four bytes. -/
def groups? (dottedEnd : Bool) : List (List Char) → Option (List Nat)
  | [] => some []
  | [part] =>
      match group? part with
      | some value => some [value]
      | none =>
          if dottedEnd then (ofDotted? part).map fun value => [value / 65536, value % 65536]
          else none
  | part :: parts => do
      let value ← group? part
      let values ← groups? dottedEnd parts
      return value :: values

/-- Read groups, possibly none. -/
def groupsOrNone? (dottedEnd : Bool) (text : List Char) : Option (List Nat) :=
  if text.isEmpty then some [] else groups? dottedEnd (Text.splitAtAll (· == ':') text)

/-- Read an address of eight groups. -/
def ofColons? (text : List Char) : Option (List Nat) :=
  match Text.splitAtFirst? [':', ':'] text with
  | some (before, after) => do
      let first ← groupsOrNone? false before
      let last ← groupsOrNone? true after
      if first.length + last.length < 8 then
        return first ++ List.replicate (8 - first.length - last.length) 0 ++ last
      else none
  | none => do
      let groups ← groups? true (Text.splitAtAll (· == ':') text)
      if groups.length = 8 then return groups else none

/-- Number of zero groups at the start. -/
def leadingZeros (groups : List Nat) : Nat :=
  (groups.takeWhile (· == 0)).length

/-- Length of the longest run of zero groups. -/
def longestZeros : List Nat → Nat
  | [] => 0
  | group :: groups => max (leadingZeros (group :: groups)) (longestZeros groups)

/-- Groups with colons between them. -/
def joined (groups : List Nat) : List Char :=
  Text.join [':'] (groups.map hexText)

/-- Groups, with a double colon for the first run of zeros of a length. -/
def compressed (length : Nat) (before : List Nat) : List Nat → List Char
  | [] => joined before
  | group :: groups =>
      if leadingZeros (group :: groups) = length then
        joined before ++ [':', ':'] ++ joined ((group :: groups).drop length)
      else compressed length (before ++ [group]) groups

/-- Text of an address of eight groups. -/
def colons (groups : List Nat) : List Char :=
  let length := longestZeros groups
  if length < 2 then joined groups else compressed length [] groups

end Network
end InventoryGauges

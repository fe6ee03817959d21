import InventoryGauges.Network.Address
import InventoryGauges.Url.Percent
import InventoryGauges.Url.Punycode

/-!
# Hosts of addresses

A host is a domain name, an address of four bytes in one of its many
spellings, or an address in brackets.  Every host has one normal form.
-/

namespace InventoryGauges
namespace Url

/-- Why a text is no address. -/
inductive Error
  | relative
  | emptyHost
  | domainName
  | domainCharacter
  | addressOfFour
  | addressOfSix
  | port
  | opaquePath
  deriving DecidableEq, Repr

/-- The error in words. -/
def Error.message : Error → String
  | relative => "relative URL without a base"
  | emptyHost => "empty host"
  | domainName => "invalid international domain name"
  | domainCharacter => "invalid domain character"
  | addressOfFour => "invalid IPv4 address"
  | addressOfSix => "invalid IPv6 address"
  | port => "invalid port number"
  | opaquePath => "URL cannot carry a path"

/-- A character that no domain name holds. -/
def isForbiddenInDomain (character : Char) : Bool :=
  character.toNat ≤ 0x20 || character.toNat == 0x7f ||
    "%#/:<>?@[\\]^|".toList.contains character

/-- A character that no host of an unknown kind of address holds. -/
def isForbiddenInHost (character : Char) : Bool :=
  "\x00\t\n\r #/:<>?@[\\]^|".toList.contains character

/-- A letter in its small form, a wide form as the plain character. -/
def lowered (character : Char) : Char :=
  let code := character.toNat
  let shifted (distance : Nat) : Char := Char.ofNat (code + distance)
  if code < 0x80 then character.toLower
  else if 0xff01 ≤ code && code ≤ 0xff5e then (Char.ofNat (code - 0xfee0)).toLower
  else if code == 0x3002 || code == 0xff61 then '.'
  else if 0xc0 ≤ code && code ≤ 0xde && code != 0xd7 then shifted 32
  else if 0x100 ≤ code && code ≤ 0x12f && code % 2 == 0 then shifted 1
  else if 0x391 ≤ code && code ≤ 0x3a9 && code != 0x3a2 then shifted 32
  else if 0x410 ≤ code && code ≤ 0x42f then shifted 32
  else if 0x400 ≤ code && code ≤ 0x40f then shifted 80
  else character

/-- A character that a domain name drops. -/
def isDropped (character : Char) : Bool :=
  [0xad, 0x200b, 0x2060, 0xfeff].contains character.toNat

/-- A label of a domain name in ASCII. -/
def labelInAscii (label : List Char) : List Char :=
  if label.all fun character => character.toNat < 128 then label
  else "xn--".toList ++ Punycode.encode label

/-- A label that claims to stand for characters beyond ASCII does so. -/
def isPlausibleLabel (label : List Char) : Bool :=
  !"xn--".toList.isPrefixOf label || 4 < label.length && label.getLast? != some '-'

/-- A domain name in its normal form. -/
def domainInAscii (text : List Char) : Except Error (List Char) :=
  let name := (text.filter (!isDropped ·)).map lowered
  let labels := (Text.splitAtAll (· == '.') name).map labelInAscii
  if name.any (fun character => isForbiddenInDomain character || character.toNat == 0xfffd) ||
      labels.any (!isPlausibleLabel ·) then
    .error .domainName
  else .ok (Text.join ['.'] labels)

/-- A number with its base, or nothing if the digits are none. -/
def numberPart? (text : List Char) : Option Nat :=
  match text with
  | '0' :: 'x' :: digits | '0' :: 'X' :: digits =>
      if digits.isEmpty then some 0 else Network.hexNumber? digits
  | '0' :: digit :: digits =>
      if (digit :: digits).all fun character => '0' ≤ character && character ≤ '7' then
        some ((digit :: digits).foldl (fun value digit => value * 8 + Decimal.digitValue digit) 0)
      else none
  | digits => Decimal.natural? digits

/-- The parts of a domain name; an empty part at the end does not count. -/
def domainParts (domain : List Char) : List (List Char) :=
  let parts := Text.splitAtAll (· == '.') domain
  if parts.getLast? == some [] then parts.dropLast else parts

/-- Whether a domain name ends in a number, and so has to be an address. -/
def endsInNumber (domain : List Char) : Bool :=
  match (domainParts domain).getLast? with
  | none => false
  | some [] => false
  | some last => last.all Decimal.isDigit || (numberPart? last).isSome

/-- The address of four bytes that a domain name spells. -/
def addressOfFour? (domain : List Char) : Option Nat := do
  let numbers ← (domainParts domain).mapM numberPart?
  let last ← numbers.getLast?
  let leading := numbers.dropLast
  if 3 < leading.length || leading.any (255 < ·) then none
  else if Nat.pow 2 (8 * (4 - leading.length)) ≤ last then none
  else
    let start := leading.foldl (fun address number => address * 256 + number) 0
    return start * Nat.pow 2 (8 * (4 - leading.length)) + last

/-- The normal form of an address in brackets. -/
def bracketedHost (text : List Char) : Except Error (List Char) :=
  match text.getLast?, Network.ofColons? text.dropLast with
  | some ']', some groups => .ok ('[' :: Network.colons groups ++ [']'])
  | _, _ => .error .addressOfSix

/-- The normal form of a host of a well-known kind of address. -/
def knownHost (text : List Char) : Except Error (List Char) :=
  match text with
  | '[' :: rest => bracketedHost rest
  | _ =>
      match decodedText? (String.ofList text) with
      | none => .error .domainName
      | some decoded => do
          let domain ← domainInAscii decoded.toList
          if domain.isEmpty then throw .emptyHost
          else if endsInNumber domain then
            match addressOfFour? domain with
            | some address => return Network.dotted address
            | none => throw .addressOfFour
          else return domain

/-- A character that is written as it is in a host of an unknown kind. -/
def isKeptInHost (character : Char) : Bool :=
  0x20 ≤ character.toNat && character.toNat < 0x7f

/-- The normal form of a host of an unknown kind of address. -/
def unknownHost (text : List Char) : Except Error (List Char) :=
  match text with
  | '[' :: rest => bracketedHost rest
  | _ =>
      if text.any isForbiddenInHost then .error .domainCharacter
      else .ok (percentEncode isKeptInHost (bytesOf text))

end Url
end InventoryGauges

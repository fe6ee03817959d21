/-!
# Percent triples

Bytes that an address cannot hold are written as a percent sign and two
hexadecimal digits.
-/

namespace InventoryGauges
namespace Url

/-- A hexadecimal digit in upper case. -/
def upperHexDigit (value : Nat) : Char :=
  if value < 10 then Char.ofNat ('0'.toNat + value) else Char.ofNat ('A'.toNat + value - 10)

/-- Value of a byte that is a hexadecimal digit. -/
def hexByteValue? (byte : UInt8) : Option UInt8 :=
  if 0x30 ≤ byte && byte ≤ 0x39 then some (byte - 0x30)
  else if 0x41 ≤ byte && byte ≤ 0x46 then some (byte - 0x41 + 10)
  else if 0x61 ≤ byte && byte ≤ 0x66 then some (byte - 0x61 + 10)
  else none

/-- A byte as a percent triple. -/
def triple (byte : UInt8) : List Char :=
  ['%', upperHexDigit (byte.toNat / 16), upperHexDigit (byte.toNat % 16)]

/-- The bytes of a text. -/
def bytesOf (text : List Char) : List UInt8 :=
  text.flatMap String.utf8EncodeChar

/-- Write a byte as it is if it may be kept, else as a percent triple. -/
def encodeByte (keep : Char → Bool) (byte : UInt8) : List Char :=
  let character := Char.ofNat byte.toNat
  if byte < 0x80 && keep character then [character] else triple byte

/-- Write each byte as it is if it may be kept, else as a percent triple. -/
def percentEncode (keep : Char → Bool) (bytes : List UInt8) : List Char :=
  bytes.flatMap (encodeByte keep)

/-- The bytes that a text with percent triples stands for; a percent sign
without two digits stands for itself. -/
def percentDecode : List UInt8 → List UInt8
  | 0x25 :: high :: low :: rest =>
      match hexByteValue? high, hexByteValue? low with
      | some highValue, some lowValue => (highValue * 16 + lowValue) :: percentDecode rest
      | _, _ => 0x25 :: percentDecode (high :: low :: rest)
  | byte :: rest => byte :: percentDecode rest
  | [] => []

/-- The text that a text with percent triples stands for, if its bytes are
UTF-8. -/
def decodedText? (text : String) : Option String :=
  String.fromUTF8? ⟨(percentDecode (bytesOf text.toList)).toArray⟩

end Url
end InventoryGauges

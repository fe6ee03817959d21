/-!
# The 128-bit XXH3 digest

XXH3 with seed zero and its default secret, over the bytes of a text.  The
digest has one rule for each of five ranges of lengths; all arithmetic is on
64-bit words and wraps.
-/

namespace InventoryGauges
namespace Digest
namespace Xxh3

/-- A 128-bit digest as two words. -/
structure Digest128 where
  /-- The upper 64 bits. -/
  high : UInt64
  /-- The lower 64 bits. -/
  low : UInt64
  deriving DecidableEq, Repr, Inhabited

def prime32One : UInt64 := 0x9e3779b1
def prime32Two : UInt64 := 0x85ebca77
def prime32Three : UInt64 := 0xc2b2ae3d
def prime64One : UInt64 := 0x9e3779b185ebca87
def prime64Two : UInt64 := 0xc2b2ae3d27d4eb4f
def prime64Three : UInt64 := 0x165667b19e3779f9
def prime64Four : UInt64 := 0x85ebca77c2b2ae63
def prime64Five : UInt64 := 0x27d4eb2f165667c5
def mixOne : UInt64 := 0x165667919e3779f9
def mixTwo : UInt64 := 0x9fb21c651e98df25

/-- The default secret. -/
def secret : ByteArray := ⟨#[
  0xb8, 0xfe, 0x6c, 0x39, 0x23, 0xa4, 0x4b, 0xbe, 0x7c, 0x01, 0x81, 0x2c,
  0xf7, 0x21, 0xad, 0x1c, 0xde, 0xd4, 0x6d, 0xe9, 0x83, 0x90, 0x97, 0xdb,
  0x72, 0x40, 0xa4, 0xa4, 0xb7, 0xb3, 0x67, 0x1f, 0xcb, 0x79, 0xe6, 0x4e,
  0xcc, 0xc0, 0xe5, 0x78, 0x82, 0x5a, 0xd0, 0x7d, 0xcc, 0xff, 0x72, 0x21,
  0xb8, 0x08, 0x46, 0x74, 0xf7, 0x43, 0x24, 0x8e, 0xe0, 0x35, 0x90, 0xe6,
  0x81, 0x3a, 0x26, 0x4c, 0x3c, 0x28, 0x52, 0xbb, 0x91, 0xc3, 0x00, 0xcb,
  0x88, 0xd0, 0x65, 0x8b, 0x1b, 0x53, 0x2e, 0xa3, 0x71, 0x64, 0x48, 0x97,
  0xa2, 0x0d, 0xf9, 0x4e, 0x38, 0x19, 0xef, 0x46, 0xa9, 0xde, 0xac, 0xd8,
  0xa8, 0xfa, 0x76, 0x3f, 0xe3, 0x9c, 0x34, 0x3f, 0xf9, 0xdc, 0xbb, 0xc7,
  0xc7, 0x0b, 0x4f, 0x1d, 0x8a, 0x51, 0xe0, 0x4b, 0xcd, 0xb4, 0x59, 0x31,
  0xc8, 0x9f, 0x7e, 0xc9, 0xd9, 0x78, 0x73, 0x64, 0xea, 0xc5, 0xac, 0x83,
  0x34, 0xd3, 0xeb, 0xc3, 0xc5, 0x81, 0xa0, 0xff, 0xfa, 0x13, 0x63, 0xeb,
  0x17, 0x0d, 0xdd, 0x51, 0xb7, 0xf0, 0xda, 0x49, 0xd3, 0x16, 0x55, 0x26,
  0x29, 0xd4, 0x68, 0x9e, 0x2b, 0x16, 0xbe, 0x58, 0x7d, 0x47, 0xa1, 0xfc,
  0x8f, 0xf8, 0xb8, 0xd1, 0x7a, 0xd0, 0x31, 0xce, 0x45, 0xcb, 0x3a, 0x8f,
  0x95, 0x16, 0x04, 0x28, 0xaf, 0xd7, 0xfb, 0xca, 0xbb, 0x4b, 0x40, 0x7e]⟩

/-- The byte at an index, zero beyond the end. -/
def byteAt (bytes : ByteArray) (index : Nat) : UInt64 :=
  (bytes.data.getD index 0).toUInt64

/-- The little-endian number in some bytes. -/
def word (count : Nat) (bytes : ByteArray) (index : Nat) : UInt64 :=
  (List.range count).foldr (fun place value => value <<< 8 ||| byteAt bytes (index + place)) 0

def word32 (bytes : ByteArray) (index : Nat) : UInt64 := word 4 bytes index

def word64 (bytes : ByteArray) (index : Nat) : UInt64 := word 8 bytes index

/-- The lower 32 bits. -/
def lowerHalf (value : UInt64) : UInt64 :=
  value &&& 0xffffffff

/-- Both halves of a product: upper and lower 64 bits. -/
def wideProduct (left right : UInt64) : Digest128 :=
  let product := left.toNat * right.toNat
  ⟨UInt64.ofNat (product / Nat.pow 2 64), UInt64.ofNat product⟩

/-- The two halves of a product, combined by exclusive or. -/
def foldedProduct (left right : UInt64) : UInt64 :=
  let product := wideProduct left right
  product.low ^^^ product.high

/-- Reverse the four bytes of a 32-bit value. -/
def swap32 (value : UInt64) : UInt64 :=
  (value &&& 0xff) <<< 24 ||| (value >>> 8 &&& 0xff) <<< 16 |||
    (value >>> 16 &&& 0xff) <<< 8 ||| (value >>> 24 &&& 0xff)

/-- Reverse the eight bytes of a word. -/
def swap64 (value : UInt64) : UInt64 :=
  swap32 (lowerHalf value) <<< 32 ||| swap32 (value >>> 32)

/-- Rotate the lower 32 bits. -/
def rotate32 (value : UInt64) (count : UInt64) : UInt64 :=
  lowerHalf (value <<< count ||| value >>> (32 - count))

/-- Final scrambling of a word. -/
def avalanche (value : UInt64) : UInt64 :=
  let value := (value ^^^ value >>> 37) * mixOne
  value ^^^ value >>> 32

/-- Scrambling of a short input's word. -/
def shortAvalanche (value : UInt64) : UInt64 :=
  let value := (value ^^^ value >>> 33) * prime64Two
  let value := (value ^^^ value >>> 29) * prime64Three
  value ^^^ value >>> 32

/-- Digest of no bytes. -/
def ofEmpty : Digest128 :=
  { low := shortAvalanche (word64 secret 64 ^^^ word64 secret 72)
    high := shortAvalanche (word64 secret 80 ^^^ word64 secret 88) }

/-- Digest of one to three bytes. -/
def ofFew (bytes : ByteArray) : Digest128 :=
  let first := byteAt bytes 0
  let middle := byteAt bytes (bytes.size / 2)
  let last := byteAt bytes (bytes.size - 1)
  let combined := first <<< 16 ||| middle <<< 24 ||| last |||
    UInt64.ofNat bytes.size <<< 8
  let mirrored := rotate32 (swap32 combined) 13
  { low := shortAvalanche (combined ^^^ (word32 secret 0 ^^^ word32 secret 4))
    high := shortAvalanche (mirrored ^^^ (word32 secret 8 ^^^ word32 secret 12)) }

/-- Digest of four to eight bytes. -/
def ofWord (bytes : ByteArray) : Digest128 :=
  let size := bytes.size
  let head := word32 bytes 0
  let tail := word32 bytes (size - 4)
  let keyed := (head + tail <<< 32) ^^^ (word64 secret 16 ^^^ word64 secret 24)
  let product := wideProduct keyed (prime64One + UInt64.ofNat size <<< 2)
  let high := product.high + product.low <<< 1
  let low := product.low ^^^ high >>> 3
  let low := (low ^^^ low >>> 35) * mixTwo
  { low := low ^^^ low >>> 28, high := avalanche high }

/-- Digest of nine to sixteen bytes. -/
def ofTwoWords (bytes : ByteArray) : Digest128 :=
  let size := bytes.size
  let flipLow := word64 secret 32 ^^^ word64 secret 40
  let flipHigh := word64 secret 48 ^^^ word64 secret 56
  let head := word64 bytes 0
  let tail := word64 bytes (size - 8)
  let product := wideProduct (head ^^^ tail ^^^ flipLow) prime64One
  let low := product.low + UInt64.ofNat (size - 1) <<< 54
  let tail := tail ^^^ flipHigh
  let high := product.high + tail + lowerHalf tail * (prime32Two - 1)
  let low := low ^^^ swap64 high
  let folded := wideProduct low prime64Two
  let high := folded.high + high * prime64Two
  { low := avalanche folded.low, high := avalanche high }

/-- Mix sixteen bytes with sixteen bytes of the secret. -/
def mixSixteen (bytes : ByteArray) (index place : Nat) : UInt64 :=
  foldedProduct (word64 bytes index ^^^ word64 secret place)
    (word64 bytes (index + 8) ^^^ word64 secret (place + 8))

/-- Mix two blocks of sixteen bytes into a pair of accumulators. -/
def mixPair (bytes : ByteArray) (sums : Digest128) (first second place : Nat) : Digest128 :=
  let low := (sums.low + mixSixteen bytes first place) ^^^
    (word64 bytes second + word64 bytes (second + 8))
  let high := (sums.high + mixSixteen bytes second (place + 16)) ^^^
    (word64 bytes first + word64 bytes (first + 8))
  { low, high }

/-- Join the accumulators of a medium input. -/
def joinSums (sums : Digest128) (size : Nat) : Digest128 :=
  let low := sums.low + sums.high
  let high := sums.low * prime64One + sums.high * prime64Four +
    UInt64.ofNat size * prime64Two
  { low := avalanche low, high := 0 - avalanche high }

/-- Digest of 17 to 128 bytes: blocks from both ends, the inner ones first. -/
def ofMedium (bytes : ByteArray) : Digest128 :=
  let size := bytes.size
  let start : Digest128 := { low := UInt64.ofNat size * prime64One, high := 0 }
  let pairs := (size - 1) / 32
  let sums := (List.range (pairs + 1)).reverse.foldl
    (fun sums pair =>
      mixPair bytes sums (16 * pair) (size - 16 * (pair + 1)) (32 * pair)) start
  joinSums sums size

/-- Digest of 129 to 240 bytes: blocks in order, then the last block again. -/
def ofLong (bytes : ByteArray) : Digest128 :=
  let size := bytes.size
  let start : Digest128 := { low := UInt64.ofNat size * prime64One, high := 0 }
  let sums := (List.range 4).foldl
    (fun sums pair => mixPair bytes sums (32 * pair) (32 * pair + 16) (32 * pair)) start
  let sums : Digest128 := { low := avalanche sums.low, high := avalanche sums.high }
  let sums := ((List.range (size / 32)).drop 4).foldl
    (fun sums pair =>
      mixPair bytes sums (32 * pair) (32 * pair + 16) (3 + 32 * (pair - 4))) sums
  let sums := mixPair bytes sums (size - 16) (size - 32) (136 - 17 - 16)
  joinSums sums size

/-- The eight accumulators of a long input. -/
abbrev Lanes := List UInt64

/-- Accumulators before the first stripe. -/
def initialLanes : Lanes :=
  [prime32Three, prime64One, prime64Two, prime64Three,
    prime64Four, prime32Two, prime64Five, prime32One]

/-- The lane that shares data with a lane. -/
def partner (lane : Nat) : Nat :=
  if lane % 2 = 0 then lane + 1 else lane - 1

/-- Add one stripe of 64 bytes to the accumulators. -/
def addStripe (bytes : ByteArray) (lanes : Lanes) (index place : Nat) : Lanes :=
  let add (lane : Nat) (sum : UInt64) : UInt64 :=
    let shared := word64 bytes (index + 8 * partner lane)
    let keyed := word64 bytes (index + 8 * lane) ^^^ word64 secret (place + 8 * lane)
    sum + shared + lowerHalf keyed * (keyed >>> 32)
  lanes.mapIdx add

/-- Scramble the accumulators at the end of a block. -/
def scrambleLanes (lanes : Lanes) : Lanes :=
  let scramble (lane : Nat) (sum : UInt64) : UInt64 :=
    (sum ^^^ sum >>> 47 ^^^ word64 secret (128 + 8 * lane)) * prime32One
  lanes.mapIdx scramble

/-- Number of stripes in a block. -/
def stripesPerBlock : Nat := 16

/-- Add a run of stripes that starts a block. -/
def addStripes (bytes : ByteArray) (lanes : Lanes) (block count : Nat) : Lanes :=
  (List.range count).foldl
    (fun lanes stripe =>
      addStripe bytes lanes (1024 * block + 64 * stripe) (8 * stripe)) lanes

/-- Join the accumulators with the secret from a place on. -/
def mergeLanes (lanes : Lanes) (place : Nat) (start : UInt64) : UInt64 :=
  let lane (index : Nat) : UInt64 := lanes.getD index 0
  avalanche <| (List.range 4).foldl
    (fun sum pair =>
      sum + foldedProduct (lane (2 * pair) ^^^ word64 secret (place + 16 * pair))
        (lane (2 * pair + 1) ^^^ word64 secret (place + 16 * pair + 8))) start

/-- Digest of more than 240 bytes. -/
def ofMany (bytes : ByteArray) : Digest128 :=
  let size := bytes.size
  let blocks := (size - 1) / 1024
  let lanes := (List.range blocks).foldl
    (fun lanes block => scrambleLanes (addStripes bytes lanes block stripesPerBlock))
    initialLanes
  let stripes := (size - 1 - 1024 * blocks) / 64
  let lanes := addStripes bytes lanes blocks stripes
  let lanes := addStripe bytes lanes (size - 64) (192 - 64 - 7)
  let length := UInt64.ofNat size
  { low := mergeLanes lanes 11 (length * prime64One)
    high := mergeLanes lanes (192 - 64 - 11) (~~~(length * prime64Two)) }

/-- The 128-bit digest of some bytes. -/
def digest (bytes : ByteArray) : Digest128 :=
  let size := bytes.size
  if size = 0 then ofEmpty
  else if size ≤ 3 then ofFew bytes
  else if size ≤ 8 then ofWord bytes
  else if size ≤ 16 then ofTwoWords bytes
  else if size ≤ 128 then ofMedium bytes
  else if size ≤ 240 then ofLong bytes
  else ofMany bytes

/-- A hexadecimal digit in lower case. -/
def hexDigit (value : Nat) : Char :=
  Nat.digitChar value

/-- The sixteen lower-case hexadecimal digits of a word. -/
def wordHex (value : UInt64) : List Char :=
  (List.range 16).reverse.map fun place =>
    hexDigit (value.toNat / Nat.pow 16 place % 16)

/-- The 32 lower-case hexadecimal digits of a digest. -/
def Digest128.hex (digest : Digest128) : String :=
  String.ofList (wordHex digest.high ++ wordHex digest.low)

end Xxh3
end Digest
end InventoryGauges

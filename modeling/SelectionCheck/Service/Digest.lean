import SelectionCheck.Text.Basic

/-!
# A digest of texts

Results are stored under a 64-bit digest of the query. The digest runs over the text in stripes of
four words, one word for each of four lanes, then over what is left in words, half words and
bytes, and at the end spreads every bit over the whole. Words are read with the low byte first,
and all arithmetic is modulo 2^64.
-/

namespace SelectionCheck.Digest

/-- The odd multipliers of the digest. -/
def prime₁ : UInt64 := 0x9E3779B185EBCA87
@[inherit_doc prime₁] def prime₂ : UInt64 := 0xC2B2AE3D27D4EB4F
@[inherit_doc prime₁] def prime₃ : UInt64 := 0x165667B19E3779F9
@[inherit_doc prime₁] def prime₄ : UInt64 := 0x85EBCA77C2B2AE63
@[inherit_doc prime₁] def prime₅ : UInt64 := 0x27D4EB2F165667C5

/-- A word with its bits moved `n` places to the left, those that fall out coming in on the right.
-/
def rotate (n x : UInt64) : UInt64 :=
  (x <<< n) ||| (x >>> (64 - n))

def word (bytes : Text) : UInt64 :=
  bytes.foldr (fun b n => n <<< 8 ||| b.toUInt64) 0

def round (lane input : UInt64) : UInt64 :=
  rotate 31 (lane + input * prime₂) * prime₁

structure Lanes where
  a : UInt64
  b : UInt64
  c : UInt64
  d : UInt64
deriving DecidableEq, Repr

namespace Lanes

def start : Lanes := ⟨prime₁ + prime₂, prime₂, 0, 0 - prime₁⟩

def stripe (lanes : Lanes) (text : Text) : Lanes :=
  ⟨round lanes.a (word (text.take 8)), round lanes.b (word ((text.drop 8).take 8)),
    round lanes.c (word ((text.drop 16).take 8)), round lanes.d (word ((text.drop 24).take 8))⟩

def stripes : (count : Nat) → Lanes → Text → Lanes × Text
  | 0, lanes, text => (lanes, text)
  | count + 1, lanes, text => stripes count (lanes.stripe text) (text.drop 32)

def merge (digest lane : UInt64) : UInt64 :=
  (digest ^^^ round 0 lane) * prime₁ + prime₄

def joined (lanes : Lanes) : UInt64 :=
  let sum := rotate 1 lanes.a + rotate 7 lanes.b + rotate 12 lanes.c + rotate 18 lanes.d
  merge (merge (merge (merge sum lanes.a) lanes.b) lanes.c) lanes.d

end Lanes

def takeWords : (count : Nat) → UInt64 → Text → UInt64 × Text
  | 0, digest, text => (digest, text)
  | count + 1, digest, text =>
    let mixed := rotate 27 (digest ^^^ round 0 (word (text.take 8))) * prime₁ + prime₄
    takeWords count mixed (text.drop 8)

def takeHalfWord (digest : UInt64) (text : Text) : UInt64 × Text :=
  if text.length < 4 then (digest, text)
  else (rotate 23 (digest ^^^ word (text.take 4) * prime₁) * prime₂ + prime₃, text.drop 4)

def takeBytes (digest : UInt64) (text : Text) : UInt64 :=
  text.foldl (fun digest b => rotate 11 (digest ^^^ b.toUInt64 * prime₅) * prime₁) digest

def avalanche (x : UInt64) : UInt64 :=
  let x := (x ^^^ (x >>> 33)) * prime₂
  let x := (x ^^^ (x >>> 29)) * prime₃
  x ^^^ (x >>> 32)

def ofText (text : Text) : UInt64 :=
  let length := text.length
  let (lanes, tail) := Lanes.stripes (length / 32) .start text
  let begun := if length < 32 then prime₅ else lanes.joined
  let (digest, tail) := takeWords (length % 32 / 8) (begun + length.toUInt64) tail
  let (digest, tail) := takeHalfWord digest tail
  avalanche (takeBytes digest tail)

end SelectionCheck.Digest

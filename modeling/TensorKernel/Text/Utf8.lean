
/-! Reading bytes as text. Bytes that are not text become a replacement
character, one for each longest run that could have begun a character. -/
namespace TensorKernel.Text

local instance power : Pow Nat Nat := instPowNat

def replacement : Char := Char.ofNat 0xfffd

def isContinuation (b : UInt8) : Bool := 0x80 ≤ b && b ≤ 0xbf

/-- Continuation bytes after a first byte, and the range of the first of them. -/
def continuations? (b : UInt8) : Option (Nat × UInt8 × UInt8) :=
  if 0xc2 ≤ b && b ≤ 0xdf then some (1, 0x80, 0xbf)
  else if b == 0xe0 then some (2, 0xa0, 0xbf)
  else if b == 0xed then some (2, 0x80, 0x9f)
  else if 0xe1 ≤ b && b ≤ 0xef then some (2, 0x80, 0xbf)
  else if b == 0xf0 then some (3, 0x90, 0xbf)
  else if 0xf1 ≤ b && b ≤ 0xf3 then some (3, 0x80, 0xbf)
  else if b == 0xf4 then some (3, 0x80, 0x8f)
  else none

def leadBits (count : Nat) (b : UInt8) : Nat := b.toNat % 2 ^ (6 - count)

/-- Takes up to `count` continuation bytes: how many there were, and their bits
appended to `bits`. -/
def takeContinuations : Nat → UInt8 → UInt8 → Nat → List UInt8 → Nat × Nat
  | 0, _, _, bits, _ => (0, bits)
  | _ + 1, _, _, bits, [] => (0, bits)
  | count + 1, low, high, bits, b :: rest =>
    if low ≤ b && b ≤ high then
      let (taken, bits) := takeContinuations count 0x80 0xbf (bits * 64 + b.toNat % 64) rest
      (taken + 1, bits)
    else (0, bits)

/-- The first character, and how many bytes after the first one belong to it. -/
def firstChar (b : UInt8) (rest : List UInt8) : Char × Nat :=
  if b < 0x80 then (Char.ofNat b.toNat, 0)
  else
    match continuations? b with
    | none => (replacement, 0)
    | some (count, low, high) =>
      let (taken, bits) := takeContinuations count low high (leadBits count b) rest
      (if taken = count then Char.ofNat bits else replacement, taken)

def decodeChars : List UInt8 → List Char
  | [] => []
  | b :: rest =>
    let (c, taken) := firstChar b rest
    c :: decodeChars (rest.drop taken)
termination_by bytes => bytes.length
decreasing_by simp only [List.length_drop, List.length_cons]; omega

def decode (bytes : List UInt8) : String := String.ofList (decodeChars bytes)

def encode (s : String) : List UInt8 := s.toUTF8.data.toList

end TensorKernel.Text

import TensorKernel.Text.Split

/-! White space: the characters with the Unicode property of that name, lines,
and text without white space at its ends. -/
namespace TensorKernel.Text

def isBlank (c : Char) : Bool :=
  let n := c.toNat
  (0x9 ≤ n && n ≤ 0xd) || n == 0x20 || n == 0x85 || n == 0xa0 || n == 0x1680
    || (0x2000 ≤ n && n ≤ 0x200a) || n == 0x2028 || n == 0x2029 || n == 0x202f || n == 0x205f
    || n == 0x3000

def trim (cs : List Char) : List Char :=
  ((cs.dropWhile isBlank).reverse.dropWhile isBlank).reverse

def firstNonBlank (text : String) : String :=
  match (split '\n' text.toList).find? fun line => !line.all isBlank with
  | some line => String.ofList (trim line)
  | none => ""

end TensorKernel.Text

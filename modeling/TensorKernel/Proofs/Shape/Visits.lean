import TensorKernel.Code.Source
import TensorKernel.Proofs.Shape.RowMajor

/-! The two ways in which a source file runs its block at every position: nested loops, and
one thread for each position that splits its index. Both are written out as code with a text
and a meaning. The texts are the ones in the source files, and the meanings agree. -/
namespace TensorKernel.Code

open List

variable {k : Nat}

/-- The index tuple that the coordinates `p0`, `p1`, … of a shape's axes make. -/
def tuple (rank : Nat) (axes : Nat → Int) : List Int := (range rank).map axes

def fill (axis : Nat) : List Nat → (Nat → Int) → Nat → Int
  | [], axes => axes
  | i :: p, axes => fill (axis + 1) p (Function.update axes axis i)

/-- `for (int64_t p = 0; p < bound; ++p)` for the coordinate of an axis. -/
structure Loop where
  axis : Nat
  bound : Nat

namespace Loop

def opening (l : Loop) : String :=
  let p := "p" ++ toString l.axis
  "for (int64_t " ++ p ++ " = 0; " ++ p ++ " < " ++ toString l.bound ++ "LL; ++" ++ p ++ ") \x7b"

def lines (block : List Command) (depth : Nat) : List Loop → List Line
  | [] => blockLines depth block
  | l :: ls => ⟨depth, l.opening⟩ :: lines block (depth + 1) ls ++ [⟨depth, "\x7d"⟩]

end Loop

/-! ### Threads -/

/-- A statement that splits a thread's index. -/
inductive Digit where
  /-- `int64_t rem = index;` -/
  | start
  /-- `const int64_t p = rem % dim;` -/
  | take (axis dim : Nat)
  /-- `rem /= dim;` -/
  | drop (dim : Nat)
  /-- `const int64_t p0 = rem;` -/
  | first

/-- What a thread knows while it splits its index. -/
structure Thread where
  index : Int
  rest : Int
  axes : Nat → Int

namespace Digit

def text : Digit → String
  | start => "int64_t rem = index;"
  | take axis dim => "const int64_t p" ++ toString axis ++ " = rem % " ++ toString dim ++ "LL;"
  | drop dim => "rem /= " ++ toString dim ++ "LL;"
  | first => "const int64_t p0 = rem;"

def line (digit : Digit) : Line := ⟨1, digit.text⟩

def run (t : Thread) : Digit → Thread
  | start => { t with rest := t.index }
  | take axis dim => { t with axes := Function.update t.axes axis (t.rest.tmod dim) }
  | drop dim => { t with rest := t.rest.tdiv dim }
  | first => { t with axes := Function.update t.axes 0 t.rest }

/-- Splits off the axes from `axis` on, the last one first. -/
def inner (axis : Nat) : List Nat → List Digit
  | [] => []
  | d :: ds => inner (axis + 1) ds ++ [take axis d, drop d]

end Digit

end TensorKernel.Code

import TensorKernel.Graph.Eval
import TensorKernel.Text.Sha256

/-! Memory of tensors as bytes, the least significant first. A kernel that expects
elements of another type than a buffer has reads the same bytes as its own type. -/
namespace TensorKernel

local instance Value.power : Pow Nat Nat := instPowNat

namespace Value

def bits (t : ElementType) (v : Value) : Nat :=
  match v with
  | bool b => b.toNat
  | int z => (z % (2 ^ t.bits : Nat)).toNat
  | single b => b.toNat
  | double b => b.toNat

def ofBits (t : ElementType) (n : Nat) : Value :=
  match t with
  | .bool => bool (n != 0)
  | .f32 => single (UInt32.ofNat n)
  | .f64 => double (UInt64.ofNat n)
  | t => int (t.wrap n)

end Value

namespace Buffer

def bytes (t : ElementType) (b : Buffer) : List UInt8 :=
  b.toList.flatMap fun v => Sha256.littleEndian t.bytes (v.bits t)

def number (bytes : List UInt8) : Nat := bytes.foldr (fun b n => b.toNat + 256 * n) 0

def ofBytes (t : ElementType) (bytes : List UInt8) : Buffer :=
  ((Sha256.pieces t.bytes bytes).map fun piece => Value.ofBits t (number piece)).toArray

def reinterpret (b : Buffer) (given expected : ElementType) : Buffer :=
  if given = expected then b else ofBytes expected (b.bytes given)

end Buffer
end TensorKernel

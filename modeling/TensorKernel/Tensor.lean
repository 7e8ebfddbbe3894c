import TensorKernel.Error
import TensorKernel.Value

/-! Dense row-major tensors. The number of elements is part of the type, so a
tensor always fills its shape. -/
namespace TensorKernel

structure Tensor where
  type : TensorType
  data : Array Value
  size_eq : data.size = type.shape.count

namespace Value

def ofDoubleBits (t : ElementType) (bits : UInt64) : Value :=
  match t with
  | .bool => bool (Float.ofBits bits != 0)
  | .f32 => single (narrowBits bits)
  | .f64 => double bits
  | t => int ((BinaryFormat.double.decode bits.toNat).saturate t)

end Value

namespace Tensor

def shape (t : Tensor) : Shape := t.type.shape

def element (t : Tensor) : ElementType := t.type.element

/-- A tensor of the given elements, which are assumed to be of the type. -/
def ofValues (type : TensorType) (data : Array Value) : Except Error Tensor :=
  if type.element.isBool then .error .boolElements
  else if h : data.size = type.shape.count then .ok ⟨type, data, h⟩
  else .error (.shapeMismatch "tensor"
    (toString type.shape.count ++ " elements for " ++ type.shape.text)
    (toString data.size ++ " elements"))

theorem type_of_ofValues {type : TensorType} {data : Array Value} {t : Tensor}
    (h : ofValues type data = .ok t) : t.type = type ∧ t.data = data := by
  unfold ofValues at h
  split at h
  · contradiction
  · split at h
    · cases h; exact ⟨rfl, rfl⟩
    · contradiction

def ofDoubleBits (type : TensorType) (values : Array UInt64) : Except Error Tensor :=
  ofValues type (values.map (Value.ofDoubleBits type.element))

def ofDoubles (type : TensorType) (values : Array Float) : Except Error Tensor :=
  ofDoubleBits type (values.map Float.toBits)

def full (type : TensorType) (bits : UInt64) : Except Error Tensor :=
  ofDoubleBits type (Array.replicate type.shape.count bits)

def zeros (type : TensorType) : Except Error Tensor :=
  ofValues type (Array.replicate type.shape.count (Value.zero type.element))

theorem zeros_isOk {type : TensorType} (h : type.element.isBool = false) :
    ∃ t, zeros type = .ok t ∧ t.type = type := by
  simp [zeros, ofValues, h]

def toDoubles (t : Tensor) : Array Float := t.data.map Value.toDouble

def elementsOf (t : Tensor) (requested : ElementType) : Except Error (Array Value) :=
  if t.element = requested then .ok t.data
  else .error (.message ("tensor holds " ++ t.element.name ++ " elements, requested "
    ++ requested.name))

def same (a b : Tensor) : Bool :=
  a.type = b.type && (a.data.zip b.data).all fun (x, y) => x.same y

def types (ts : List Tensor) : List TensorType := ts.map type

end Tensor
end TensorKernel

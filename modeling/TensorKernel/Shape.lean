import TensorKernel.ElementType
import TensorKernel.Text.Dump

/-! Dense row-major shapes: element count, strides, the order in which positions
are visited and the offset of a position. -/
namespace TensorKernel

variable {α : Type}

local instance Shape.zero : Zero Int := Zero.ofOfNat0

structure Shape where
  dims : List Nat
deriving DecidableEq

namespace Shape

def rank (s : Shape) : Nat := s.dims.length

def product : List Nat → Nat
  | [] => 1
  | d :: ds => d * product ds

def count (s : Shape) : Nat := product s.dims

def stridesOf : List Nat → List Nat
  | [] => []
  | _ :: ds => product ds :: stridesOf ds

def strides (s : Shape) : List Nat := stridesOf s.dims

theorem length_stridesOf (ds : List Nat) : (stridesOf ds).length = ds.length := by
  induction ds with
  | nil => rfl
  | cons d ds ih => simp [stridesOf, ih]

@[simp] theorem length_strides (s : Shape) : s.strides.length = s.rank := length_stridesOf s.dims

def offset (strides : List Nat) (indices : List Int) : Int :=
  (List.zipWith (fun (i : Int) (stride : Nat) => i * stride) indices strides).sum

def positionsOf : List Nat → List (List Nat)
  | [] => [[]]
  | d :: ds => (List.range d).flatMap fun i => (positionsOf ds).map (i :: ·)

/-- All positions, the last axis running fastest. -/
def positions (s : Shape) : List (List Nat) := positionsOf s.dims

theorem length_positionsOf (ds : List Nat) : (positionsOf ds).length = product ds := by
  induction ds with
  | nil => rfl
  | cons d ds ih => simp [positionsOf, product, List.length_flatMap, ih, List.map_const']

@[simp] theorem length_positions (s : Shape) : s.positions.length = s.count :=
  length_positionsOf s.dims

/-- Folds over the positions that start with `above`, which is held backwards. -/
def foldFrom {α : Type} (f : α → List Nat → α) (above : List Nat) : List Nat → α → α
  | [], a => f a above.reverse
  | d :: ds, a => d.fold (fun i _ a => foldFrom f (i :: above) ds a) a

def foldPositions {α : Type} (s : Shape) (f : α → List Nat → α) (a : α) : α :=
  if s.count = 0 then a else foldFrom f [] s.dims a

theorem foldFrom_eq (f : α → List Nat → α) (ds above : List Nat) (a : α) :
    foldFrom f above ds a = (positionsOf ds).foldl (fun a p => f a (above.reverse ++ p)) a := by
  induction ds generalizing above a with
  | nil => simp [foldFrom, positionsOf]
  | cons d ds ih =>
    simp only [foldFrom, positionsOf, ih]
    induction d with
    | zero => rfl
    | succ d ihd =>
      rw [Nat.fold_succ, ihd, List.range_succ, List.flatMap_append, List.foldl_append]
      simp [List.foldl_map]

theorem foldPositions_eq (s : Shape) (f : α → List Nat → α) (a : α) :
    s.foldPositions f a = s.positions.foldl f a := by
  unfold foldPositions
  split
  next h =>
    have hlen : s.positions.length = 0 := by rw [length_positions, h]
    rw [List.length_eq_zero_iff.1 hlen, List.foldl_nil]
  next => simp [foldFrom_eq, positions]

def text (s : Shape) : String := Dump.list (s.dims.map toString)

def dump (s : Shape) : String := Dump.tuple "Shape" [s.text]

end Shape

structure TensorType where
  shape : Shape
  element : ElementType
deriving DecidableEq

namespace TensorType

def text (t : TensorType) : String := t.element.name ++ t.shape.text

def dump (t : TensorType) : String :=
  Dump.record "TensorType" [("shape", t.shape.dump), ("dtype", t.element.tag)]

def listText (ts : List TensorType) : String := Dump.list (ts.map text)

def listDump (ts : List TensorType) : String := Dump.list (ts.map dump)

end TensorType
end TensorKernel

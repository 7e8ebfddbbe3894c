import Mathlib.Logic.Function.Basic
import TensorKernel.Graph.Eval
import TensorKernel.Proofs.Source.Program
import TensorKernel.Proofs.Typed

/-! What statements of generated code do. Phrases are evaluated in the types that the statements
give to their names, so nothing but the text is needed to run a program. -/
namespace TensorKernel

variable {t : ElementType} {x : Float} {z : Int}

namespace Code

/-- What stays the same while the statements of one position run. -/
structure Setting where
  types : NodeId → ElementType
  inputs : Array Buffer
  position : List Nat

structure Cells where
  values : NodeId → Value
  slots : VarId → Value
  outputs : Array Buffer

def notANumber : Float := Float.ofBits 0x7FF8000000000000

def infinite : Float := Float.ofBits 0x7FF0000000000000

namespace Word

def type (S : Setting) : Word → ElementType
  | node e => S.types e
  | position _ | plain _ | signed _ => .i64
  | unsigned _ => .u64
  | single _ => .f32
  | double _ _ | nan | infinity => .f64
  | slot _ | truth _ => .bool

def value (S : Setting) (c : Cells) : Word → Value
  | node e => c.values e
  | position axis => .int (S.position[axis]?.getD 0)
  | slot v => c.slots v
  | plain n => .int n
  | signed z => .int z
  | unsigned n => .int n
  | single x => .ofFloat32 x
  | double x _ => .ofFloat x
  | truth b => .bool b
  | nan => .ofFloat notANumber
  | infinity => .ofFloat infinite

end Word

namespace Head

/-- The type of what a head makes of phrases of type `t`. -/
def type (t : ElementType) : Head → ElementType
  | cast u | minusCast u => u
  | plain | minus | not | function _ _ | library _ | choice _ _ => t

/-- A head in front of one value of type `t`. -/
def applyOne (t : ElementType) (v : Value) : Head → Value
  | minus => UnaryOp.neg.apply t v
  | not => UnaryOp.not.apply t v
  | cast u => v.convert u
  | minusCast u => (UnaryOp.neg.apply t v).convert u
  | function (.unary op) _ | library op => op.apply t v
  | plain | function .remainder _ | function .power _ | function .arctangent _ | choice _ _ => v

/-- A head in front of two values of type `t`. -/
def applyTwo (t : ElementType) (v w : Value) : Head → Value
  | function .remainder _ => BinaryOp.mod.apply t v w
  | function .power _ => BinaryOp.pow.apply t v w
  | function .arctangent _ => BinaryOp.atan2.apply t v w
  | choice greatest _ => (if greatest then BinaryOp.max else BinaryOp.min).apply t v w
  | plain | minus | not | cast _ | minusCast _ | function (.unary _) _ | library _ => v

end Head

namespace Phrase

def type (S : Setting) : Phrase → ElementType
  | word w => w.type S
  | apply h x | pair h x _ | joined h _ x _ => h.type (x.type S)

def value (S : Setting) (c : Cells) : Phrase → Value
  | word w => w.value S c
  | apply h x => h.applyOne (x.type S) (x.value S c)
  | pair h x y => h.applyTwo (x.type S) (x.value S c) (y.value S c)
  | joined h op x y => h.applyOne (x.type S) (op.apply (x.type S) (x.value S c) (y.value S c))

end Phrase

def Summand.value (S : Setting) (c : Cells) (s : Summand) : Int :=
  (s.index.value S c).toInt * (s.step.getD 1 : Nat)

def Offset.value (S : Setting) (c : Cells) (o : Offset) : Int :=
  (o.first :: o.others).foldr (fun s sum => s.value S c + sum) 0

def Expression.value (S : Setting) (c : Cells) : Expression → Value
  | load k offset => Buffer.load (S.inputs.getD k #[]) (offset.value S c)
  | phrase x => x.value S c

mutual

def Statement.run (S : Setting) (c : Cells) : Statement → Cells
  | .define _ e x => { c with values := Function.update c.values e (x.value S c) }
  | .declare _ v x | .assign v x => { c with slots := Function.update c.slots v (x.value S c) }
  | .store k offset x => { c with
      outputs := c.outputs.modify k fun b => Buffer.put b (offset.value S c) (x.value S c) }
  | .choose guard body others =>
    if (guard.value S c).isTrue then runBlock S c body else runOthers S c others

def runBlock (S : Setting) (c : Cells) : List Statement → Cells
  | [] => c
  | s :: rest => runBlock S (s.run S c) rest

def runOthers (S : Setting) (c : Cells) : List Alternative → Cells
  | [] => c
  | .mk none body :: _ => runBlock S c body
  | .mk (some guard) body :: rest =>
    if (guard.value S c).isTrue then runBlock S c body else runOthers S c rest

end

mutual

def Statement.definitions : Statement → List (NodeId × ElementType)
  | .define type e _ => [(e, type)]
  | .declare .. | .assign .. | .store .. => []
  | .choose _ body others => definitionsOf body ++ definitionsOfOthers others

def definitionsOf : List Statement → List (NodeId × ElementType)
  | [] => []
  | s :: rest => s.definitions ++ definitionsOf rest

def definitionsOfOthers : List Alternative → List (NodeId × ElementType)
  | [] => []
  | .mk _ body :: rest => definitionsOf body ++ definitionsOfOthers rest

end

def typeIn (program : List Statement) (e : NodeId) : ElementType :=
  ((definitionsOf program).lookup e).getD .bool

def runAt (program : List Statement) (inputs outputs : Array Buffer) (position : List Nat) :
    Array Buffer :=
  (runBlock ⟨typeIn program, inputs, position⟩ ⟨fun _ => default, fun _ => default, outputs⟩
    program).outputs

end Code

theorem ElementType.wrap_of_inRange (h : t.InRange z) : t.wrap z = z := by
  have hb : t.bits = t.bits - 1 + 1 := by cases t <;> rfl
  have hp : 2 ^ t.bits = 2 * 2 ^ (t.bits - 1) := by rw [hb, Nat.pow_succ]; simp [Nat.mul_comm]
  unfold InRange minValue maxValue at h
  unfold wrap
  generalize 2 ^ (t.bits - 1) = m at *
  rw [hp] at h ⊢
  split
  next hs =>
    rw [if_pos hs, if_pos hs] at h
    exact Int.bmod_eq_of_le (by omega) (by omega)
  next hs =>
    rw [if_neg hs, if_neg hs] at h
    exact Int.emod_eq_of_lt (by omega) (by omega)

theorem ElementType.wrap_wrap (t : ElementType) (z : Int) : t.wrap (t.wrap z) = t.wrap z :=
  wrap_of_inRange (t.wrap_inRange z)

theorem Literal.cast_kind (v : Literal) (t : ElementType) : match v.cast t with
    | .bool _ => t = .bool
    | .int _ | .uint _ => t.isIntegral = true
    | .float _ => t.isFloat = true := by
  cases t <;> rfl

theorem Value.convert_of_isIntegral (h : t.isIntegral = true) (v : Value) :
    v.convert t = .int (t.wrap v.toInt) := by
  rw [← ElementType.fastWrap_eq]
  cases t <;> cases h <;> rfl

namespace Code

/-! The value of a literal. -/

section
variable (S : Setting) (c : Cells)

theorem value_integerPhrase (z : Int) :
    (integerPhrase z).value S c = .int z ∧ (integerPhrase z).type S = .i64 := by
  unfold integerPhrase
  split
  next h =>
    subst h
    exact ⟨show BinaryOp.sub.apply .i64 (.int (-9223372036854775807)) (.int 1) = _ by decide +kernel, rfl⟩
  · exact ⟨rfl, rfl⟩

theorem eq_notANumber (h : decodeDouble x = .nan) : x = notANumber :=
  decodeDouble_inj (h.trans (by decide +kernel))

theorem eq_infinite {negative : Bool} (h : decodeDouble x = .infinite negative) :
    x = if negative then -infinite else infinite := by
  apply decodeDouble_inj
  rw [h]
  cases negative <;> decide +kernel

theorem convert_ofFloat (ht : t.isFloat = true) (hx : Float.ofBits x.toBits = x) :
    (Value.ofFloat x).convert t
      = if t = .f32 then .ofFloat32 x.toFloat32 else .ofFloat x := by
  cases t <;> cases ht
  · exact congrArg (fun y => Value.ofFloat32 (Float.toFloat32 y)) hx
  · exact congrArg Value.ofFloat hx

theorem value_floatPhrase (ht : t.isFloat = true) (x : Float) :
    (floatPhrase t x).value S c = (if t = .f32 then .ofFloat32 x.toFloat32 else .ofFloat x) ∧
      (floatPhrase t x).type S = t := by
  unfold floatPhrase
  split
  next h =>
    rw [eq_notANumber h]
    exact ⟨convert_ofFloat ht rfl, rfl⟩
  next negative h =>
    rw [eq_infinite h]
    cases negative with
    | false => exact ⟨convert_ofFloat ht rfl, rfl⟩
    | true =>
      have hneg : UnaryOp.neg.apply .f64 (.ofFloat infinite) = .ofFloat (-infinite) := by
        decide +kernel
      have hbits : Float.ofBits (-infinite).toBits = -infinite := decodeDouble_inj (by decide +kernel)
      exact ⟨(congrArg (Value.convert t) hneg).trans (convert_ofFloat ht hbits), rfl⟩
  next s m q h =>
    split
    next hf => exact ⟨rfl, hf.symm⟩
    next hf =>
      refine ⟨rfl, ?_⟩
      cases t <;> cases ht
      · exact absurd rfl hf
      · rfl

theorem value_cast (ht : t.isIntegral = true) (hz : t.InRange z) :
    (Value.int z).convert t = .int z := by
  rw [Value.convert_of_isIntegral ht]
  exact congrArg Value.int (ElementType.wrap_of_inRange hz)

theorem value_literalPhrase (v : Literal) (t : ElementType) :
    (literalPhrase v t).value S c = .ofLiteral v t ∧ (literalPhrase v t).type S = t := by
  have hrange (ht : t.isIntegral = true) := v.inRange_cast ht
  have hkind := v.cast_kind t
  unfold literalPhrase Value.ofLiteral
  cases h : v.cast t with
  | bool b =>
    rw [h] at hkind
    exact ⟨rfl, hkind.symm⟩
  | int z =>
    rw [h] at hrange hkind
    refine ⟨?_, rfl⟩
    exact (congrArg (Value.convert t) (value_integerPhrase S c z.toInt).1).trans
      (value_cast hkind (hrange hkind))
  | uint n =>
    rw [h] at hrange hkind
    exact ⟨value_cast hkind (hrange hkind), rfl⟩
  | float x =>
    rw [h] at hkind
    exact value_floatPhrase S c hkind x

end

end Code
end TensorKernel

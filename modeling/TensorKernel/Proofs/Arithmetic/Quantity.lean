import TensorKernel.Proofs.Arithmetic.Residue

/-! Integer phrases by the rules of the language they are written in. A token has the type of its
suffix, operands narrower than an int are computed as one, two operands meet in a common type, and
what leaves the range of a signed type has no meaning. Nothing here is taken from the meaning that a
graph gives to its operations. -/
namespace TensorKernel

variable {z : Int} {t : ElementType}

namespace ElementType

/-- The type in which an operand is computed: nothing is narrower than an int. -/
def widened (t : ElementType) : ElementType := if t.bits < 32 then .i32 else t

/-- The type in which two widened operands meet: the wider one, and of two equally wide ones the
unsigned one. -/
def common (t u : ElementType) : ElementType :=
  if t.widened.bits = u.widened.bits then (if t.widened.isUnsigned then t.widened else u.widened)
  else if t.widened.bits < u.widened.bits then u.widened else t.widened

theorem common_self (t : ElementType) : t.common t = t.widened := by cases t <;> rfl

theorem isIntegral_widened (ht : t.isIntegral = true) : t.widened.isIntegral = true := by
  cases t <;> cases ht <;> rfl

theorem InRange.mono {u : ElementType} (h : t.InRange z) (hmin : u.minValue ≤ t.minValue)
    (hmax : t.maxValue ≤ u.maxValue) : u.InRange z :=
  ⟨hmin.trans h.1, h.2.trans hmax⟩

theorem InRange.widened (h : t.InRange z) (ht : t.isIntegral = true) : t.widened.InRange z := by
  have hle : t.widened.minValue ≤ t.minValue ∧ t.maxValue ≤ t.widened.maxValue := by
    cases t <;> cases ht <;> decide
  exact h.mono hle.1 hle.2

/-- Where two operands meet in a signed type, both keep their values. -/
theorem wrap_common {u : ElementType} (ht : t.isIntegral = true) (hu : u.isIntegral = true)
    (hs : (t.common u).isSigned = true) {x y : Int} (hx : t.InRange x) (hy : u.InRange y) :
    (t.common u).wrap x = x ∧ (t.common u).wrap y = y := by
  have hle : ((t.common u).minValue ≤ t.minValue ∧ t.maxValue ≤ (t.common u).maxValue)
      ∧ (t.common u).minValue ≤ u.minValue ∧ u.maxValue ≤ (t.common u).maxValue := by
    cases t <;> cases ht <;> cases u <;> cases hu <;> cases hs <;> decide
  exact ⟨wrap_of_inRange (hx.mono hle.1.1 hle.1.2), wrap_of_inRange (hy.mono hle.2.1 hle.2.2)⟩

theorem isUnsigned_carrier (t : ElementType) : t.carrier.isUnsigned = true := by cases t <;> rfl

theorem widened_carrier (t : ElementType) : t.carrier.widened = t.carrier := by cases t <;> rfl

end ElementType

namespace Code

/-- An integer in the range of its type. -/
structure Quantity where
  type : ElementType
  value : Int
  integral : type.isIntegral = true
  inRange : type.InRange value
deriving DecidableEq

namespace Quantity

def of? (t : ElementType) (z : Int) : Option Quantity :=
  if h : t.isIntegral = true ∧ t.InRange z then some ⟨t, z, h.1, h.2⟩ else none

/-- Every conversion between integral types is a reduction. -/
def convert? (t : ElementType) (q : Quantity) : Option Quantity := of? t (t.wrap q.value)

/-- A result in the type of its operation. Unsigned arithmetic wraps, signed arithmetic must not
overflow. -/
def settle? (t : ElementType) (z : Int) : Option Quantity :=
  if t.isUnsigned then of? t (t.wrap z) else of? t z

/-- An operation on two integers of one type. -/
def compute? (op : BinaryOp) (t : ElementType) (x y : Int) : Option Quantity :=
  match op with
  | .add => settle? t (x + y)
  | .sub => settle? t (x - y)
  | .mul => settle? t (x * y)
  | .div => if y = 0 then none else settle? t (x.tdiv y)
  -- A remainder has a meaning only beside its quotient.
  | .mod => if y = 0 then none else (settle? t (x.tdiv y)).bind fun _ => settle? t (x.tmod y)
  | _ => none

def operate? (op : BinaryOp) (a b : Quantity) : Option Quantity :=
  let t := a.type.common b.type
  compute? op t (t.wrap a.value) (t.wrap b.value)

def zero : Quantity := ⟨.i32, 0, rfl, by decide⟩

/-- A minus is a difference from zero. -/
def negate? (q : Quantity) : Option Quantity := operate? .sub zero q

theorem of?_eq_some (ht : t.isIntegral = true) (hz : t.InRange z) : of? t z = some ⟨t, z, ht, hz⟩ :=
  dif_pos ⟨ht, hz⟩

theorem settle?_of_isUnsigned (h : t.isUnsigned = true) (z : Int) :
    settle? t z = of? t (t.wrap z) :=
  if_pos h

theorem settle?_of_inRange (h : t.InRange z) : settle? t z = of? t z := by
  unfold settle?
  rw [ElementType.wrap_of_inRange h, ite_self]

theorem operate?_eq_compute? (op : BinaryOp) {a b : Quantity} (ha : a.type = t) (hb : b.type = t) :
    operate? op a b = compute? op t.widened a.value b.value := by
  have hwrap (q : Quantity) : q.type.widened.wrap q.value = q.value :=
    ElementType.wrap_of_inRange (q.inRange.widened q.integral)
  have hwa := hwrap a
  have hwb := hwrap b
  rw [ha] at hwa
  rw [hb] at hwb
  unfold operate?
  dsimp only
  rw [ha, hb, ElementType.common_self, hwa, hwb]

end Quantity

/-- The digits of a number, and the type that its suffix gives them. -/
def Word.token? : Word → Option (Nat × ElementType)
  | plain n => some (n, if ElementType.i32.InRange n then .i32 else .i64)
  | signed z => some (z.natAbs, .i64)
  | unsigned n => some (n, .u64)
  | _ => none

structure Holdings where
  node : NodeId → Option Quantity
  axis : Nat → Option Quantity

/-- A sign is no part of a token, it negates what the token stands for. -/
def Word.quantity? (H : Holdings) : Word → Option Quantity
  | node e => H.node e
  | position axis => H.axis axis
  | signed z => (Quantity.of? .i64 z.natAbs).bind fun q => if z < 0 then q.negate? else some q
  | w => w.token?.bind fun (n, t) => Quantity.of? t n

def Head.quantity? (q : Quantity) : Head → Option Quantity
  | plain => some q
  | minus => q.negate?
  | cast t => q.convert? t
  | minusCast t => (q.convert? t).bind (·.negate?)
  | _ => none

namespace Phrase

def quantity? (H : Holdings) : Phrase → Option Quantity
  | word w => w.quantity? H
  | apply h x => (x.quantity? H).bind h.quantity?
  | joined h op x y => (x.quantity? H).bind fun a => (y.quantity? H).bind fun b =>
      (Quantity.operate? op a b).bind h.quantity?
  | pair _ _ _ => none

def words : Phrase → List Word
  | word w => [w]
  | apply _ x => x.words
  | pair _ x y | joined _ _ x y => x.words ++ y.words

/-- The phrase has a meaning: this integer, in this type. -/
def Denotes (H : Holdings) (x : Phrase) (t : ElementType) (z : Int) : Prop :=
  ∃ q, x.quantity? H = some q ∧ q.type = t ∧ q.value = z

variable {H : Holdings}

theorem denotes_of_eq {x : Phrase} (ht : t.isIntegral = true) (hz : t.InRange z)
    (h : x.quantity? H = Quantity.of? t z) : x.Denotes H t z :=
  ⟨_, h.trans (Quantity.of?_eq_some ht hz), rfl, rfl⟩

namespace Denotes

variable {x y : Phrase} {t u : ElementType} {a b : Int}

theorem inRange (h : x.Denotes H t a) : t.InRange a := by
  obtain ⟨q, -, rfl, rfl⟩ := h
  exact q.inRange

theorem isIntegral (h : x.Denotes H t a) : t.isIntegral = true := by
  obtain ⟨q, -, rfl, -⟩ := h
  exact q.integral

theorem unique (h : x.Denotes H t a) (h' : x.Denotes H u b) : t = u ∧ a = b := by
  obtain ⟨q, hq, rfl, rfl⟩ := h
  obtain ⟨r, hr, rfl, rfl⟩ := h'
  cases hq.symm.trans hr
  exact ⟨rfl, rfl⟩

theorem cast (h : x.Denotes H t a) (hu : u.isIntegral = true) :
    (apply (.cast u) x).Denotes H u (u.wrap a) := by
  obtain ⟨q, hq, -, rfl⟩ := h
  refine denotes_of_eq hu (u.wrap_inRange q.value) ?_
  rw [quantity?, hq]
  rfl

theorem joined {op : BinaryOp} {c : Int} (hx : x.Denotes H t a) (hy : y.Denotes H t b)
    (hc : Quantity.compute? op t.widened a b = Quantity.of? t.widened c)
    (hrange : t.widened.InRange c) (hu : u.isIntegral = true) :
    (Phrase.joined (.cast u) op x y).Denotes H u (u.wrap c) := by
  have ht := ElementType.isIntegral_widened hx.isIntegral
  obtain ⟨p, hp, hpt, rfl⟩ := hx
  obtain ⟨q, hq, hqt, rfl⟩ := hy
  refine denotes_of_eq hu (u.wrap_inRange c) ?_
  rw [quantity?, hp, hq, Option.bind_some, Option.bind_some,
    Quantity.operate?_eq_compute? op hpt hqt, hc, Quantity.of?_eq_some ht hrange]
  rfl

end Denotes

end Phrase

end Code
end TensorKernel

import Mathlib.Algebra.BigOperators.Ring.Finset
import Mathlib.Algebra.MvPolynomial.PDeriv
import Mathlib.Tactic.LinearCombination
import TensorKernel.Proofs.Tape.Typing
import TensorKernel.Tensor

/-! Gradients in exact arithmetic are derivatives. The tape is run over tensors with elements in
a commutative ring; an element of a value is a polynomial in the same element of the leaves, and
the sweep gives the formal derivative of that polynomial. -/
namespace TensorKernel

open List Tape

variable {n : Nat}

/-- A tensor with elements in a ring, in row-major order. -/
structure ExactTensor (R : Type) where
  type : TensorType
  data : List R
  length_eq : data.length = type.shape.count

namespace ExactTensor

variable {R : Type}

def element [Zero R] (a : ExactTensor R) (e : Nat) : R := a.data.getD e 0

def mapElements (f : R → R) (a : ExactTensor R) : ExactTensor R :=
  ⟨a.type, a.data.map f, by simp [a.length_eq]⟩

def zipElements (f : R → R → R) (a b : ExactTensor R) : Except Error (ExactTensor R) :=
  if h : a.type = b.type then
    .ok ⟨a.type, a.data.zipWith f b.data, by simp [a.length_eq, b.length_eq, h]⟩
  else .error (.shapeMismatch "host" a.type.text b.type.text)

def full (type : TensorType) (x : R) : ExactTensor R :=
  ⟨type, replicate type.shape.count x, by simp⟩

/-- The arithmetic of the tape without rounding, and without calls. -/
def rules [CommRing R] : TapeRules (Except Error) (ExactTensor R) R Empty where
  add a b := zipElements (· + ·) a b
  mul a b := zipElements (· * ·) a b
  square a := .ok (mapElements (fun x => x * x) a)
  scale a factor := .ok (mapElements (· * factor) a)
  squareGrad g a := zipElements (fun g x => 2 * g * x) g a
  ones a := .ok (full a.type 1)
  zeros a := .ok (full a.type 0)
  call c _ := nomatch c
  callGrad c _ _ := nomatch c
  absent id :=
    .error (.message ("host tensor " ++ toString id ++ " does not belong to this graph"))

/-! ### Elements -/

theorem element_mapElements [Zero R] {f : R → R} (hf : f 0 = 0) (a : ExactTensor R) (e : Nat) :
    (mapElements f a).element e = f (a.element e) := by
  rw [element, element, mapElements, getD_eq_getElem?_getD, getD_eq_getElem?_getD,
    getElem?_map]
  cases a.data[e]? with
  | none => exact hf.symm
  | some x => rfl

theorem zipElements_eq_ok {f : R → R → R} {a b c : ExactTensor R}
    (h : zipElements f a b = .ok c) : b.type = a.type ∧ c.type = a.type := by
  rw [zipElements] at h
  split at h
  next hab =>
    cases h
    exact ⟨hab.symm, rfl⟩
  next => cases h

theorem element_zipElements [Zero R] {f : R → R → R} (hf : f 0 0 = 0) {a b c : ExactTensor R}
    (h : zipElements f a b = .ok c) (e : Nat) : c.element e = f (a.element e) (b.element e) := by
  rw [zipElements] at h
  split at h
  next hab =>
    cases h
    have hlength : a.data.length = b.data.length := by rw [a.length_eq, b.length_eq, hab]
    simp only [element, getD_eq_getElem?_getD, getElem?_zipWith]
    by_cases he : e < a.data.length
    · have hb : e < b.data.length := hlength ▸ he
      simp [he, hb]
    · have ha : a.data[e]? = none := getElem?_eq_none (by omega)
      have hb : b.data[e]? = none := getElem?_eq_none (by omega)
      simp [ha, hb, hf]
  next => cases h

theorem element_full [Zero R] (type : TensorType) (x : R) (e : Nat) :
    (full type x).element e = if e < type.shape.count then x else 0 := by
  rw [element, full, getD_eq_getElem?_getD]
  split
  next he => simp [he]
  next he => simp [he]

/-- Exact tensors by their type. There are no calls. -/
def typing : Typing (ExactTensor R) Empty TensorType where
  type := ExactTensor.type
  good _ := True
  takes c := nomatch c
  gives c := nomatch c

theorem zipElements_isOk (f : R → R → R) {a b : ExactTensor R} (h : b.type = a.type) :
    ∃ c, zipElements f a b = .ok c ∧ c.type = a.type := by
  rw [zipElements, dif_pos h.symm]
  exact ⟨_, rfl, rfl⟩

theorem rules_safe [CommRing R] : (rules : TapeRules _ (ExactTensor R) R Empty).Safe typing where
  add _ _ _ h := zipElements_isOk _ h
  mul _ _ _ h := zipElements_isOk _ h
  squareGrad _ _ _ h := zipElements_isOk _ h
  scale _ _ _ := ⟨_, rfl, rfl⟩
  ones _ _ := ⟨_, rfl, rfl⟩
  zeros _ _ := ⟨_, rfl, rfl⟩

theorem rules_checks [CommRing R] : (rules : TapeRules _ (ExactTensor R) R Empty).Checks typing where
  absent _ _ h := nomatch h
  add _ _ _ h := zipElements_eq_ok h
  mul _ _ _ h := zipElements_eq_ok h
  square _ _ h := by cases h; rfl
  scale _ _ _ h := by cases h; rfl
  call c := nomatch c

end ExactTensor

abbrev ExactTape (R : Type) := Tape (ExactTensor R) R Empty

namespace ExactTape
open ExactTensor MvPolynomial

variable {R : Type} [CommRing R] {node : TapeNode (ExactTensor R) R}

/-- Tapes made of leaves and arithmetic. -/
inductive Built : ExactTape R → Prop where
  | empty : Built Tape.empty
  | constant {t : ExactTape R} (h : Built t) (value : ExactTensor R) : Built (t.constant value).2
  | parameter {t : ExactTape R} (h : Built t) (value : ExactTensor R) :
    Built (t.parameter value).2
  | add {t t' : ExactTape R} {a b id : Nat} (h : Built t)
    (hadd : t.add rules a b = .ok (id, t')) : Built t'
  | mul {t t' : ExactTape R} {a b id : Nat} (h : Built t)
    (hmul : t.mul rules a b = .ok (id, t')) : Built t'
  | square {t t' : ExactTape R} {a id : Nat} (h : Built t)
    (hsquare : t.square rules a = .ok (id, t')) : Built t'
  | scale {t t' : ExactTape R} {a id : Nat} {factor : R} (h : Built t)
    (hscale : t.scale rules a factor = .ok (id, t')) : Built t'

/-- One element of a value on the tape, zero where there is none. -/
def elementAt (t : ExactTape R) (place : Nat × Nat) : R :=
  match t.nodes[place.1]? with
  | some node => node.value.element place.2
  | none => 0

/-- An element of an operation by the same element of its operands; a leaf at `k` is a
variable of its own. -/
noncomputable def opFormula (k e : Nat) (p : Nat → MvPolynomial (Nat × Nat) R) :
    TapeOp R → MvPolynomial (Nat × Nat) R
  | .constant | .parameter | .result _ _ => X (k, e)
  | .add a b => p a + p b
  | .mul a b => p a * p b
  | .square a => p a * p a
  | .scale a factor => p a * C factor

/-- The formulas of the first `n` values, see `formula`. -/
noncomputable def formulasBelow (t : ExactTape R) (w e : Nat) :
    Nat → Nat → MvPolynomial (Nat × Nat) R
  | 0 => fun _ => 0
  | n + 1 =>
    let before := t.formulasBelow w e n
    Function.update before n (if n = w then X (w, e) else
      match t.nodes[n]? with
      | some node => opFormula n e before node.op
      | none => 0)

/-- The element `e` of the value `k` as a polynomial in the leaves and in the value `w`, which
is taken for an input. -/
noncomputable def formula (t : ExactTape R) (w e k : Nat) : MvPolynomial (Nat × Nat) R :=
  t.formulasBelow w e (k + 1) k

/-! ### What the tape records -/

variable {t : ExactTape R} {w e k : Nat}

/-- The value `y` is what the operation gives on the values `x`. -/
def Computes (x : Nat → R) (y : R) : TapeOp R → Prop
  | .constant | .parameter | .result _ _ => True
  | .add a b => y = x a + x b
  | .mul a b => y = x a * x b
  | .square a => y = x a * x a
  | .scale a factor => y = x a * factor

/-- The values on the tape are those of its operations. -/
structure Recorded (t : ExactTape R) : Prop where
  sound : t.Sound typing
  computes : ∀ (id : Nat) (node : TapeNode (ExactTensor R) R), t.nodes[id]? = some node →
    ∀ e, Computes (fun a => t.elementAt (a, e)) (t.elementAt (id, e)) node.op

theorem Computes.congr {x x' : Nat → R} {y : R} {op : TapeOp R} (h : Computes x y op)
    (hx : ∀ a ∈ op.operands, x' a = x a) : Computes x' y op := by
  cases op <;> simp_all [Computes, TapeOp.operands]

theorem elementAt_push_of_lt {value : ExactTensor R} {op : TapeOp R} {a : Nat}
    (ha : a < t.nodes.size) (e : Nat) :
    elementAt (t.push value op).2 (a, e) = t.elementAt (a, e) := by
  rw [elementAt, elementAt, Tape.push]
  rw [Array.getElem?_push, if_neg (by omega)]

theorem elementAt_push_self (value : ExactTensor R) (op : TapeOp R) (e : Nat) :
    elementAt (t.push value op).2 (t.nodes.size, e) = value.element e := by
  rw [elementAt, Tape.push]
  rw [Array.getElem?_push_size]

theorem Recorded.push (h : Recorded t) {value : ExactTensor R} {op : TapeOp R}
    (hsound : (t.push value op).2.Sound typing) (hlt : ∀ a ∈ op.operands, a < t.nodes.size)
    (hop : ∀ e, Computes (fun a => t.elementAt (a, e)) (value.element e) op) :
    Recorded (t.push value op).2 := by
  refine ⟨hsound, ?_⟩
  intro id node hn e
  have hcases : t.nodes[id]? = some node ∨ id = t.nodes.size ∧ node = ⟨value, op⟩ := by
    rw [Tape.push] at hn
    rw [Array.getElem?_push] at hn
    split at hn
    next heq => exact .inr ⟨heq, (Option.some.inj hn).symm⟩
    next => exact .inl hn
  rcases hcases with hn | ⟨rfl, rfl⟩
  · have hid := (Array.getElem?_eq_some_iff.1 hn).1
    rw [elementAt_push_of_lt hid]
    apply (h.computes id node hn e).congr
    intro a ha
    have hlt := h.sound.ordered.operand id node hn a ha
    exact elementAt_push_of_lt (by omega) e
  · rw [elementAt_push_self]
    apply (hop e).congr
    intro a ha
    exact elementAt_push_of_lt (hlt a ha) e

theorem elementAt_of_value {a : Nat} {x : ExactTensor R} (h : t.value rules a = .ok x) :
    a < t.nodes.size ∧ ∀ e, t.elementAt (a, e) = x.element e := by
  refine ⟨(value_eq_ok rules_checks h).1, fun e => ?_⟩
  rw [Tape.value] at h
  rw [elementAt]
  cases hn : t.nodes[a]? with
  | none =>
    rw [hn] at h
    cases h
  | some node =>
    rw [hn] at h
    cases h
    rfl

theorem Built.recorded (h : Built t) : Recorded t := by
  induction h with
  | empty => exact ⟨sound_empty, by simp [Tape.empty]⟩
  | constant _ value ih =>
    exact ih.push (ih.sound.leaf trivial rfl rfl) (by simp [TapeOp.operands]) fun _ => trivial
  | parameter _ value ih =>
    exact ih.push (ih.sound.leaf trivial rfl rfl) (by simp [TapeOp.operands]) fun _ => trivial
  | add _ hadd ih =>
    have hsound := (ih.sound.binary rules_checks rfl rfl rules_checks.add hadd).1
    obtain ⟨x, hx, hadd⟩ := bind_eq_ok.1 hadd
    obtain ⟨y, hy, hadd⟩ := bind_eq_ok.1 hadd
    obtain ⟨z, hz, hadd⟩ := bind_eq_ok.1 hadd
    cases hadd
    obtain ⟨ha, hxe⟩ := elementAt_of_value hx
    obtain ⟨hb, hye⟩ := elementAt_of_value hy
    apply ih.push hsound
    · simp [TapeOp.operands, ha, hb]
    · intro e
      rw [Computes, element_zipElements (by simp) hz, hxe, hye]
  | mul _ hmul ih =>
    have hsound := (ih.sound.binary rules_checks rfl rfl rules_checks.mul hmul).1
    obtain ⟨x, hx, hmul⟩ := bind_eq_ok.1 hmul
    obtain ⟨y, hy, hmul⟩ := bind_eq_ok.1 hmul
    obtain ⟨z, hz, hmul⟩ := bind_eq_ok.1 hmul
    cases hmul
    obtain ⟨ha, hxe⟩ := elementAt_of_value hx
    obtain ⟨hb, hye⟩ := elementAt_of_value hy
    apply ih.push hsound
    · simp [TapeOp.operands, ha, hb]
    · intro e
      rw [Computes, element_zipElements (by simp) hz, hxe, hye]
  | square _ hsquare ih =>
    have hsound := (ih.sound.unary rules_checks rfl rfl rules_checks.square hsquare).1
    obtain ⟨x, hx, hsquare⟩ := bind_eq_ok.1 hsquare
    cases hsquare
    obtain ⟨ha, hxe⟩ := elementAt_of_value hx
    apply ih.push hsound
    · simp [TapeOp.operands, ha]
    · intro e
      rw [Computes, element_mapElements (by simp), hxe]
  | scale _ hscale ih =>
    have hsound := (ih.sound.unary rules_checks rfl rfl (rules_checks.scale · _) hscale).1
    obtain ⟨x, hx, hscale⟩ := bind_eq_ok.1 hscale
    cases hscale
    obtain ⟨ha, hxe⟩ := elementAt_of_value hx
    apply ih.push hsound
    · simp [TapeOp.operands, ha]
    · intro e
      rw [Computes, element_mapElements (by simp), hxe]

/-! ### Formulas and their derivatives -/

theorem formulasBelow_of_lt (h : k < n) : t.formulasBelow w e n k = t.formula w e k := by
  induction n with
  | zero => omega
  | succ n ih =>
    by_cases hk : k = n
    · subst hk
      rfl
    · rw [formulasBelow, Function.update_of_ne hk, ih (by omega)]

theorem formula_self (t : ExactTape R) (w e : Nat) : t.formula w e w = X (w, e) := by
  simp [formula, formulasBelow]

theorem opFormula_congr {p q : Nat → MvPolynomial (Nat × Nat) R} {op : TapeOp R}
    (h : ∀ a ∈ op.operands, p a = q a) : opFormula k e p op = opFormula k e q op := by
  cases op <;> simp_all [opFormula, TapeOp.operands]

theorem formula_eq (h : t.Ordered) (hn : t.nodes[k]? = some node) (hk : k ≠ w) :
    t.formula w e k = opFormula k e (t.formula w e) node.op := by
  rw [formula, formulasBelow, Function.update_self, if_neg hk, hn]
  apply opFormula_congr
  intro a ha
  exact formulasBelow_of_lt (h.operand k node hn a ha)

/-- At the recorded values a formula has the recorded value. -/
theorem eval_formula (h : Recorded t) (hk : k < t.nodes.size) :
    eval t.elementAt (t.formula w e k) = t.elementAt (k, e) := by
  induction k using Nat.strongRecOn with
  | ind k ih =>
    by_cases hkw : k = w
    · subst hkw
      rw [formula_self, eval_X]
    · have hn := Array.getElem?_eq_getElem hk
      have hcomputes := h.computes k _ hn e
      have heval (a : Nat) (ha : a ∈ t.nodes[k].op.operands) :
          eval t.elementAt (t.formula w e a) = t.elementAt (a, e) := by
        have hlt := h.sound.ordered.operand k _ hn a ha
        exact ih a hlt (by omega)
      rw [formula_eq h.sound.ordered hn hkw]
      generalize t.nodes[k].op = op at hcomputes heval
      cases op with
      | constant => rw [opFormula, eval_X]
      | parameter => rw [opFormula, eval_X]
      | result call j => rw [opFormula, eval_X]
      | add a b =>
        rw [opFormula, map_add, heval a (by simp [TapeOp.operands]),
          heval b (by simp [TapeOp.operands])]
        exact hcomputes.symm
      | mul a b =>
        rw [opFormula, map_mul, heval a (by simp [TapeOp.operands]),
          heval b (by simp [TapeOp.operands])]
        exact hcomputes.symm
      | square a =>
        rw [opFormula, map_mul, heval a (by simp [TapeOp.operands])]
        exact hcomputes.symm
      | scale a factor =>
        rw [opFormula, map_mul, heval a (by simp [TapeOp.operands]), eval_C]
        exact hcomputes.symm

/-- The derivatives of an operation by its operands, slot by slot. -/
def weights (x : Nat → R) : TapeOp R → List R
  | .constant | .parameter | .result _ _ => []
  | .add _ _ => [1, 1]
  | .mul a b => [x b, x a]
  | .square a => [2 * x a]
  | .scale _ factor => [factor]

/-- The derivative of the value `k` by the value `w`, at the recorded values. -/
noncomputable def slope (t : ExactTape R) (w e k : Nat) : R :=
  eval t.elementAt (pderiv (w, e) (t.formula w e k))

theorem slope_self (t : ExactTape R) (w e : Nat) : t.slope w e w = 1 := by
  rw [slope, formula_self, pderiv_X_self, map_one]

/-- The chain rule at one node. -/
theorem slope_eq (h : Recorded t) (hn : t.nodes[k]? = some node) (hk : k ≠ w) : t.slope w e k =
      ((node.op.operands.zip (weights (fun a => t.elementAt (a, e)) node.op)).map
        fun pair => pair.2 * t.slope w e pair.1).sum := by
  have heval (a : Nat) (ha : a ∈ node.op.operands) :
      eval t.elementAt (t.formula w e a) = t.elementAt (a, e) := by
    have hlt := h.sound.ordered.operand k node hn a ha
    have hbound := (Array.getElem?_eq_some_iff.1 hn).1
    exact eval_formula h (by omega)
  have hne : ((k, e) : Nat × Nat) ≠ (w, e) := fun heq => hk (congrArg Prod.fst heq)
  rw [slope, formula_eq h.sound.ordered hn hk]
  simp only [slope]
  generalize node.op = op at heval
  cases op with
  | constant => simp [opFormula, weights, pderiv_X_of_ne hne]
  | parameter => simp [opFormula, weights, pderiv_X_of_ne hne]
  | result call j => simp [opFormula, weights, pderiv_X_of_ne hne]
  | add a b => simp [opFormula, weights, TapeOp.operands]
  | mul a b =>
    simp only [TapeOp.operands, mem_cons, not_mem_nil, or_false, forall_eq_or_imp,
      forall_eq] at heval
    simp [opFormula, weights, TapeOp.operands, heval]
    ring
  | square a =>
    simp only [TapeOp.operands, mem_cons, not_mem_nil, or_false, forall_eq] at heval
    simp [opFormula, weights, TapeOp.operands, heval]
    ring
  | scale a factor => simp [opFormula, weights, TapeOp.operands, mul_comm]

omit [CommRing R] in
theorem isResult_eq_false (h : t.Ordered) (hn : t.nodes[k]? = some node) :
    node.op.isResult = false := by
  obtain ⟨value, op⟩ := node
  cases op with
  | result call j =>
    obtain ⟨c, -, -⟩ := h.result k value call j hn
    exact nomatch c.callee
  | _ => rfl

theorem slope_eq_zero (h : Recorded t) (hk : k < t.nodes.size) (hd : ¬ t.Depends k w) :
    t.slope w e k = 0 := by
  induction k using Nat.strongRecOn with
  | ind k ih =>
    have hkw : k ≠ w := by
      rintro rfl
      exact hd .refl
    have hn := Array.getElem?_eq_getElem hk
    rw [slope_eq h hn hkw]
    apply sum_eq_zero
    intro x hx
    obtain ⟨⟨a, weight⟩, hpair, rfl⟩ := mem_map.1 hx
    have ha := (of_mem_zip hpair).1
    have hlt := h.sound.ordered.operand k _ hn a ha
    have hoperand : a ∈ t.operands k := by
      rw [operands_eq hn (isResult_eq_false h.sound.ordered hn)]
      exact ha
    rw [ih a hlt (by omega) fun had => hd (.head hoperand had), mul_zero]

/-! ### Gradients are derivatives -/

variable {output : Nat} {g : Nat → Option (ExactTensor R)} {parts : Nat → List (ExactTensor R)}

/-- An element of the gradient of a value, zero where there is none. -/
def adjoint (g : Nat → Option (ExactTensor R)) (e k : Nat) : R :=
  match g k with
  | some grad => grad.element e
  | none => 0

theorem element_foldlM {first total : ExactTensor R} {rest : List (ExactTensor R)}
    (h : rest.foldlM rules.add first = .ok total) (e : Nat) :
    total.element e = first.element e + (rest.map (element · e)).sum := by
  induction rest generalizing first with
  | nil =>
    cases h
    simp
  | cons part rest ih =>
    rw [foldlM_cons] at h
    obtain ⟨next, hnext, h⟩ := bind_eq_ok.1 h
    rw [ih h, element_zipElements (add_zero 0) hnext, map_cons, sum_cons, add_assoc]

theorem element_passOp {op : TapeOp R} {grad : ExactTensor R} {passed : List (ExactTensor R)}
    (h : t.passOp rules op grad = .ok passed) (e : Nat) : passed.map (element · e) =
      (weights (fun a => t.elementAt (a, e)) op).map (grad.element e * ·) := by
  cases op with
  | constant => cases h; rfl
  | parameter => cases h; rfl
  | result call j => cases h; rfl
  | add a b =>
    cases h
    simp [weights]
  | mul a b =>
    obtain ⟨y, hy, h⟩ := bind_eq_ok.1 h
    obtain ⟨left, hleft, h⟩ := bind_eq_ok.1 h
    obtain ⟨x, hx, h⟩ := bind_eq_ok.1 h
    obtain ⟨right, hright, h⟩ := bind_eq_ok.1 h
    cases h
    simp [weights, element_zipElements (by simp) hleft, element_zipElements (by simp) hright,
      (elementAt_of_value hx).2, (elementAt_of_value hy).2]
  | square a =>
    obtain ⟨x, hx, h⟩ := bind_eq_ok.1 h
    obtain ⟨part, hpart, h⟩ := bind_eq_ok.1 h
    cases h
    simp only [map_cons, map_nil, weights, (elementAt_of_value hx).2,
      element_zipElements (by simp) hpart]
    ring_nf
  | scale a factor =>
    cases h
    simp [weights, element_mapElements]

omit [CommRing R] in
theorem consumes_iff (h : t.Ordered) (hk : k < t.nodes.size) :
    t.Consumes output k ↔ t.Depends output k := by
  have hn := Array.getElem?_eq_getElem hk
  rw [Tape.Consumes, group_eq hn (isResult_eq_false h hn)]
  simp

theorem element_parts (h : t.Ordered) (hg : t.IsGradient rules output g parts)
    (hn : t.nodes[k]? = some node) (hk : t.Consumes output k) (e : Nat) :
    (parts k).map (element · e) =
      (weights (fun a => t.elementAt (a, e)) node.op).map (adjoint g e k * ·) := by
  have hbound := (Array.getElem?_eq_some_iff.1 hn).1
  obtain ⟨grad, hgrad⟩ :=
    Option.isSome_iff_exists.1 (hg.isSome_of_depends ((consumes_iff h hbound).1 hk))
  have hpassed := (hg.passed k hk).1
  rw [passes_op hn (isResult_eq_false h hn) hgrad] at hpassed
  rw [element_passOp hpassed, adjoint, hgrad]

/-- All parts that are passed on, with where they go. -/
noncomputable def flow (t : ExactTape R) (output : Nat) (parts : Nat → List (ExactTensor R)) :
    List (Nat × ExactTensor R) :=
  (t.consumers output).flatMap fun k => (t.operands k).zip (parts k)

/-- A gradient is the seed and what flows into it. -/
theorem adjoint_eq (h : t.Ordered) (hg : t.IsGradient rules output g parts) (e id : Nat) :
    adjoint g e id = (if id = output then adjoint g e output else 0) +
      ((Tape.slots id (flow t output parts)).map (element · e)).sum := by
  by_cases hid : t.Depends output id ∧ id ≠ output
  · obtain ⟨first, rest, total, hlist, htotal, hgrad⟩ := hg.sum id hid.1 hid.2
    rw [if_neg hid.2, zero_add, flow, slots_flatMap, hlist, adjoint, hgrad, map_cons, sum_cons]
    exact element_foldlM htotal e
  · have hnil : Tape.slots id (flow t output parts) = [] := by
      rw [flow, slots_flatMap, flatMap_eq_nil_iff]
      intro k hk
      apply slots_eq_nil
      intro hmem
      have hconsumes := (mem_consumers.1 hk).2
      apply hid
      refine ⟨h.depends_iff.2 (.inr ⟨k, hconsumes, hmem⟩), ?_⟩
      have hlt := h.lt_of_mem_operands hmem
      have hle := h.le_of_consumes hconsumes
      omega
    rw [hnil, map_nil, sum_nil, add_zero]
    split
    next heq => rw [heq]
    next hne =>
      have hd : ¬ t.Depends output id := fun hd => hid ⟨hd, hne⟩
      rw [adjoint, hg.absent id hd]

theorem sum_slots {pairs : List (Nat × ExactTensor R)} (h : ∀ p ∈ pairs, p.1 < n) (d : Nat → R)
    (e : Nat) :
    ∑ id ∈ Finset.range n, d id * ((Tape.slots id pairs).map (element · e)).sum =
      (pairs.map fun p => d p.1 * p.2.element e).sum := by
  induction pairs with
  | nil => simp [Tape.slots]
  | cons p pairs ih =>
    have hp := h p (mem_cons_self ..)
    have hone (id : Nat) : d id * ((Tape.slots id (p :: pairs)).map (element · e)).sum =
        (if id = p.1 then d id * p.2.element e else 0) +
          d id * ((Tape.slots id pairs).map (element · e)).sum := by
      rw [slots_cons, map_append, sum_append, mul_add]
      congr 1
      by_cases hid : p.1 = id
      · simp [hid]
      · simp [hid, Ne.symm hid]
    simp only [hone, Finset.sum_add_distrib]
    rw [ih fun q hq => h q (mem_cons_of_mem p hq), map_cons, sum_cons,
      Finset.sum_ite_eq' _ _ fun id => d id * p.2.element e, if_pos (Finset.mem_range.2 hp)]

theorem sum_filter {p : Nat → Bool} {f : Nat → R} {ks : List Nat}
    (h : ∀ k ∈ ks, p k = false → f k = 0) : ((ks.filter p).map f).sum = (ks.map f).sum := by
  induction ks with
  | nil => rfl
  | cons k ks ih =>
    have hrest := ih fun j hj => h j (mem_cons_of_mem k hj)
    cases hk : p k with
    | true => rw [filter_cons_of_pos hk, map_cons, sum_cons, hrest,
        map_cons, sum_cons]
    | false => rw [filter_cons_of_neg (by simp [hk]), hrest, map_cons, sum_cons,
        h k (mem_cons_self ..) hk, zero_add]

theorem sum_consumers {f : Nat → R} (h : ∀ k ≤ output, ¬ t.Consumes output k → f k = 0) :
    ((t.consumers output).map f).sum = ∑ k ∈ Finset.range (output + 1), f k := by
  rw [Tape.consumers, sum_filter, map_reverse, sum_reverse]
  · rw [Finset.sum, Finset.range_val, Multiset.range, Multiset.map_coe, Multiset.sum_coe]
  · intro k hk hnot
    rw [mem_reverse, mem_range] at hk
    exact h k (by omega) (by simpa using hnot)

theorem sum_weights (h : Recorded t) (hn : t.nodes[k]? = some node) (w e : Nat) :
    ((node.op.operands.zip (weights (fun a => t.elementAt (a, e)) node.op)).map
      fun pair => pair.2 * t.slope w e pair.1).sum = t.slope w e k - if k = w then 1 else 0 := by
  by_cases hk : k = w
  · subst hk
    rw [if_pos rfl, slope_self, sub_self]
    apply sum_eq_zero
    intro x hx
    obtain ⟨⟨a, weight⟩, hpair, rfl⟩ := mem_map.1 hx
    have hlt := h.sound.ordered.operand k _ hn a (of_mem_zip hpair).1
    have hbound := (Array.getElem?_eq_some_iff.1 hn).1
    rw [slope_eq_zero h (by omega), mul_zero]
    intro hd
    have hle := h.sound.ordered.le_of_depends hd
    omega
  · rw [if_neg hk, sub_zero, slope_eq h hn hk]

theorem sum_parts (h : Recorded t) (hg : t.IsGradient rules output g parts)
    (hout : output < t.nodes.size) (hk : t.Consumes output k) (w e : Nat) :
    (((t.operands k).zip (parts k)).map fun p => t.slope w e p.1 * p.2.element e).sum =
      adjoint g e k * (t.slope w e k - if k = w then 1 else 0) := by
  have hle := h.sound.ordered.le_of_consumes hk
  have hn := Array.getElem?_eq_getElem (show k < t.nodes.size by omega)
  have hparts := element_parts h.sound.ordered hg hn hk e
  have hsplit : ((t.operands k).zip (parts k)).map (fun p => t.slope w e p.1 * p.2.element e) =
      ((t.operands k).zip ((parts k).map (element · e))).map fun p => t.slope w e p.1 * p.2 := by
    rw [zip_map_right, map_map]
    rfl
  rw [hsplit, hparts, operands_eq hn (isResult_eq_false h.sound.ordered hn),
    ← sum_weights h hn, ← sum_map_mul_left, zip_map_right, map_map]
  congr 1
  apply map_congr_left
  intro p _
  simp only [Function.comp_apply, Prod.map_fst, Prod.map_snd, id_eq]
  ring

/-- What arrives at `w` is the derivative of `output` by it. -/
theorem adjoint_eq_slope (h : Recorded t) (hg : t.IsGradient rules output g parts)
    (hout : output < t.nodes.size) (hw : t.Depends output w) (e : Nat) :
    adjoint g e w = t.slope w e output * adjoint g e output := by
  have hle := h.sound.ordered.le_of_depends hw
  have hflow : ∀ p ∈ flow t output parts, p.1 < output + 1 := by
    intro p hp
    obtain ⟨k, hk, hpair⟩ := mem_flatMap.1 hp
    have hlt := h.sound.ordered.lt_of_mem_operands (of_mem_zip hpair).1
    have hbound := (mem_consumers.1 hk).1
    omega
  -- The sum of all gradients, weighed by how the values depend on `w`, is taken twice: by the
  -- value that a part goes to, and by the consumer that it comes from.
  have htarget : ∑ k ∈ Finset.range (output + 1), t.slope w e k * adjoint g e k =
      t.slope w e output * adjoint g e output +
        ((flow t output parts).map fun p => t.slope w e p.1 * p.2.element e).sum := by
    rw [← sum_slots hflow, Finset.sum_congr rfl fun k _ =>
      congrArg (t.slope w e k * ·) (adjoint_eq h.sound.ordered hg e k)]
    simp only [mul_add, Finset.sum_add_distrib, mul_ite, mul_zero]
    rw [Finset.sum_ite_eq' _ _ fun k => t.slope w e k * adjoint g e output,
      if_pos (Finset.mem_range.2 (Nat.lt_succ_self output))]
  have hsource : ((flow t output parts).map fun p => t.slope w e p.1 * p.2.element e).sum =
      ∑ k ∈ Finset.range (output + 1),
        adjoint g e k * (t.slope w e k - if k = w then 1 else 0) := by
    rw [flow, map_flatMap, flatMap_def, sum_flatten, map_map,
      ← sum_consumers (t := t)]
    · congr 1
      apply map_congr_left
      intro k hk
      exact sum_parts h hg hout (mem_consumers.1 hk).2 w e
    · intro k hk hnot
      rw [consumes_iff h.sound.ordered (by omega)] at hnot
      rw [adjoint, hg.absent k hnot, zero_mul]
  have hinput : ∑ k ∈ Finset.range (output + 1),
      adjoint g e k * (t.slope w e k - if k = w then 1 else 0) =
      ∑ k ∈ Finset.range (output + 1), t.slope w e k * adjoint g e k - adjoint g e w := by
    simp only [mul_sub, Finset.sum_sub_distrib, mul_ite, mul_one, mul_zero]
    rw [Finset.sum_ite_eq' _ _ fun k => adjoint g e k, if_pos (Finset.mem_range.2 (by omega))]
    simp only [mul_comm]
  rw [hsource, hinput] at htarget
  linear_combination htarget

/-! ### The whole of it -/

theorem serves (t : ExactTape R) : t.Serves rules typing Empty.elim := by
  intro call c
  exact c.callee.elim

theorem complete (t : ExactTape R) : t.Complete rules := by
  intro call c
  exact c.callee.elim

omit [CommRing R] in
theorem refusalAt_eq_none (t : ExactTape R) (k : Nat) :
    t.refusalAt (Empty.elim : Empty → Option Error) k = none := by
  rw [Tape.refusalAt]
  split
  · rw [Option.bind_eq_bind, Option.bind_eq_none_iff]
    intro c
    exact c.callee.elim
  · rfl

theorem Recorded.sweep_isOk (h : Recorded t) (hout : output < t.nodes.size) :
    ∃ grads, t.sweep rules output = .ok grads ∧ t.GradsTyped typing (grads.lookup ·) := by
  rw [← sweepTo_zero]
  exact sweepTo_typed h.sound.ordered h.sound.typed rules_safe (serves t) (complete t) hout
    (Nat.zero_le _) fun k _ _ => refusalAt_eq_none t k

theorem typeAt_of_depends (h : Recorded t) (hd : t.Depends output w) (hout : output < t.nodes.size) :
    t.typeAt typing w = t.typeAt typing output := by
  induction hd with
  | refl => rfl
  | @tail k a hk ha ih =>
    have hle := h.sound.ordered.le_of_depends hk
    have hn := Array.getElem?_eq_getElem (show k < t.nodes.size by omega)
    rw [operands_eq hn (isResult_eq_false h.sound.ordered hn)] at ha
    rw [h.sound.typed.operand k _ hn a ha, ← ih, Tape.typeAt, hn]
    rfl

theorem adjoint_output (hg : t.IsGradient rules output g parts) {type : TensorType}
    (ht : t.typeAt typing output = some type) (he : e < type.shape.count) :
    adjoint g e output = 1 := by
  obtain ⟨value, ones, hvalue, hones, hseed⟩ := hg.seed
  cases hones
  have htype := (value_eq_ok rules_checks hvalue).2
  rw [ht] at htype
  have hsame : type = value.type := Option.some.inj htype
  rw [adjoint, hseed]
  dsimp only
  rw [element_full, if_pos (hsame ▸ he)]

/-- Gradients in exact arithmetic always exist, and each element of them is the formal derivative
of the output's element by the same element of the value asked for, which is taken for an input;
it is zero if the output does not depend on that value. -/
theorem gradients_eq_derivative (h : Built t) (hout : output < t.length) {wrt : List Nat}
    (hwrt : ∀ w ∈ wrt, w < t.length) :
    ∃ grads, t.gradients rules output wrt = .ok grads ∧ List.Forall₂ (fun w grad =>
      t.typeAt typing w = some grad.type ∧ ∀ e < grad.type.shape.count,
        eval t.elementAt (t.formula w e output) = t.elementAt (output, e) ∧
        grad.element e = eval t.elementAt (pderiv (w, e) (t.formula w e output)) ∧
        (¬ t.Depends output w → grad.element e = 0)) wrt grads := by
  have hrec := h.recorded
  obtain ⟨store, hstore, htyped⟩ := hrec.sweep_isOk hout
  obtain ⟨parts, hg⟩ := isGradient_of_sweep hrec.sound.ordered (complete t) hstore
  rw [Tape.gradients, hstore, ok_bind]
  apply mapM_isOk
  intro w hw
  have hbound : w < t.nodes.size := hwrt w hw
  have hn := Array.getElem?_eq_getElem hbound
  have hwtype : t.typeAt typing w = some t.nodes[w].value.type := by
    rw [Tape.typeAt, hn]
    rfl
  obtain ⟨grad, hgrad, htype⟩ :=
    gradAt_of_typeAt hrec.sound.typed rules_safe htyped hwtype
  have hgradtype : t.typeAt typing w = some grad.type := by rw [hwtype, ← htype]; rfl
  refine ⟨grad, hgrad, hgradtype, ?_⟩
  intro e he
  rw [Tape.gradAt] at hgrad
  by_cases hd : t.Depends output w
  · obtain ⟨found, hfound⟩ := Option.isSome_iff_exists.1 (hg.isSome_of_depends hd)
    rw [hfound] at hgrad
    cases hgrad
    have hslope := adjoint_eq_slope hrec hg hout hd e
    have hone := adjoint_output hg ((typeAt_of_depends hrec hd hout).symm.trans hgradtype) he
    rw [hone, mul_one, adjoint, hfound] at hslope
    exact ⟨eval_formula hrec hout, hslope, fun hnot => absurd hd hnot⟩
  · have hnone : store.lookup w = none := hg.absent w hd
    rw [hnone] at hgrad
    obtain ⟨value, -, hzeros⟩ := bind_eq_ok.1 hgrad
    cases hzeros
    have hzero : (full value.type (0 : R)).element e = 0 := by rw [element_full, ite_self]
    refine ⟨eval_formula hrec hout, ?_, fun _ => hzero⟩
    rw [hzero]
    exact (slope_eq_zero hrec hout hd).symm

def point (x : Int) : ExactTensor Int := ⟨⟨⟨[1]⟩, .f64⟩, [x], rfl⟩

/-- The value of `x * x + x` at three. -/
def parabola : ExactTape Int :=
  ⟨#[⟨point 3, .parameter⟩, ⟨point 9, .mul 0 0⟩, ⟨point 12, .add 1 0⟩], #[]⟩

theorem built_parabola : Built parabola := by
  have hleaf : Built ⟨#[⟨point 3, .parameter⟩], #[]⟩ := .parameter .empty (point 3)
  have hsquare : Built ⟨#[⟨point 3, .parameter⟩, ⟨point 9, .mul 0 0⟩], #[]⟩ :=
    @Built.mul Int _ _ _ 0 0 1 hleaf rfl
  exact @Built.add Int _ _ _ 1 0 2 hsquare rfl

/-- The derivative by `x` is seven, and by the square, as an input of its own, it is one. -/
theorem gradients_eq_derivative_parabola : Built parabola ∧
    parabola.gradients rules 2 [0, 1] = .ok [point 7, point 1] ∧
    eval parabola.elementAt (pderiv (0, 0) (parabola.formula 0 0 2)) = 7 ∧
    eval parabola.elementAt (pderiv (1, 0) (parabola.formula 1 0 2)) = 1 := by
  have hrun : parabola.gradients rules 2 [0, 1] = .ok [point 7, point 1] := rfl
  obtain ⟨grads, hgrads, hall⟩ := gradients_eq_derivative built_parabola
    (show 2 < 3 by decide) (show ∀ w ∈ [0, 1], w < 3 by decide)
  rw [hrun] at hgrads
  cases hgrads
  obtain ⟨⟨-, hx⟩, hrest⟩ := List.forall₂_cons.1 hall
  obtain ⟨⟨-, hsquare⟩, -⟩ := List.forall₂_cons.1 hrest
  exact ⟨built_parabola, hrun, (hx 0 (by decide)).2.1.symm, (hsquare 0 (by decide)).2.1.symm⟩

end ExactTape
end TensorKernel

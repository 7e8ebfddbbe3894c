import TensorKernel.Proofs.Run.Evaluated
import TensorKernel.Proofs.Source.Simulation

/-! Integers stay in the ranges of their types. If the elements of the inputs and the coordinates
of the position are in range, so is all that nodes and variables of an integral type ever hold. -/
namespace TensorKernel

open ElementType

variable {t : ElementType} {v : Value}

theorem ElementType.inRange_zero (t : ElementType) : t.InRange 0 := by cases t <;> decide

namespace Value

/-- An integer of the type, if the type is one of integers. -/
def InRange (t : ElementType) (v : Value) : Prop :=
  t.isIntegral = true → ∃ z, v = .int z ∧ t.InRange z

instance (t : ElementType) : (v : Value) → Decidable (v.InRange t)
  | .int z => decidable_of_iff (t.isIntegral = true → t.InRange z) (by simp [InRange])
  | .bool _ | .single _ | .double _ =>
    decidable_of_iff (t.isIntegral = false) (by simp [InRange])

theorem inRange_default (t : ElementType) : InRange t default := fun _ => ⟨0, rfl, t.inRange_zero⟩

theorem inRange_convert (t : ElementType) (v : Value) : (v.convert t).InRange t :=
  fun ht => ⟨_, convert_of_isIntegral ht v, t.wrap_inRange v.toInt⟩

theorem inRange_ofLiteral (v : Literal) (t : ElementType) : (ofLiteral v t).InRange t := by
  intro ht
  have hrange := v.inRange_cast ht
  unfold ofLiteral
  cases h : v.cast t <;> rw [h] at hrange
  case bool => cases hrange
  case float => cases hrange
  case int z => exact ⟨z.toInt, rfl, hrange⟩
  case uint n => exact ⟨n.toNat, rfl, hrange⟩

theorem InRange.toInt (h : v.InRange t) (ht : t.isIntegral = true) : t.InRange v.toInt := by
  obtain ⟨z, rfl, hz⟩ := h ht
  exact hz

end Value

theorem UnaryOp.inRange_apply {op : UnaryOp} {a : ElementType} (h : op.resultType? a = some t)
    (hv : v.InRange (op.operandType a)) : (op.apply (op.operandType a) v).InRange t := by
  intro ht
  rcases resultType?_cases h with ⟨rfl, -⟩ | ⟨hsame, -⟩
  · cases ht
  rw [← hsame] at hv ⊢
  unfold apply
  split
  · cases h
    cases ht
  · cases h
    cases ht
  · cases h
    cases ht
  · cases h
    cases ht
  · have hint := op.onInt_meets t.wrap_inRange (hv.toInt ht)
    cases t <;> cases ht <;> exact ⟨_, rfl, hint⟩

theorem BinaryOp.inRange_apply {op : BinaryOp} {a b : ElementType} (h : op.resultType? a b = some t)
    {x y : Value} (hx : x.InRange (op.operandType a b)) (hy : y.InRange (op.operandType a b)) :
    (op.apply (op.operandType a b) x y).InRange t := by
  intro ht
  by_cases htruth : (op.isComparison || op.isLogical) = true
  · rw [resultType?, if_pos htruth] at h
    cases h
    cases ht
  · have hnumber := Bool.eq_false_iff.2 htruth
    obtain ⟨rfl, -⟩ := resultType?_numeric hnumber h
    obtain ⟨hc, hl⟩ := Bool.or_eq_false_iff.1 hnumber
    rw [apply_of_isIntegral hc hl ht]
    exact ⟨_, rfl, op.onInts_meets (wrap_inRange _) (inRange_zero _) (hx.toInt ht) (hy.toInt ht)⟩

namespace Surroundings

variable {S : Surroundings} {f : Frame}

/-- What a run is given is in range. -/
structure Ranged (S : Surroundings) : Prop where
  inputs : ∀ (k : Nat) (type : TensorType), S.graph.inputs[k]? = some type →
    ∀ v ∈ S.inputs.getD k #[], v.InRange type.element
  position : ∀ i ∈ S.position, ElementType.i64.InRange i

instance (S : Surroundings) : Decidable S.Ranged :=
  decidable_of_iff ((∀ k < S.graph.inputs.length, ∀ type ∈ S.graph.inputs[k]?,
      ∀ v ∈ (S.inputs.getD k #[]).toList, v.InRange type.element) ∧
      ∀ i ∈ S.position, ElementType.i64.InRange i) ⟨
    fun h => ⟨fun k type hk v hv => h.1 k (List.getElem?_eq_some_iff.1 hk).1 type hk v
      (Array.mem_toList_iff.2 hv), h.2⟩,
    fun h => ⟨fun k _ type hk v hv => h.inputs k type hk v (Array.mem_toList_iff.1 hv), h.position⟩⟩

theorem Ranged.coordinate (hr : S.Ranged) (axis : Nat) :
    ElementType.i64.InRange ((S.position[axis]?.getD 0 : Nat) : Int) := by
  cases h : S.position[axis]? with
  | none => exact ElementType.i64.inRange_zero
  | some i => exact hr.position i (List.mem_of_getElem? h)

theorem closed_inRange (hr : S.Ranged) : S.Closed fun t v => v.InRange t where
  zero := Value.inRange_default
  literal := Value.inRange_ofLiteral
  convert := Value.inRange_convert
  coordinate axis := fun _ => ⟨_, rfl, hr.coordinate axis⟩
  inputs := hr.inputs
  unary := UnaryOp.inRange_apply
  binary h hx hy := BinaryOp.inRange_apply h hx hy

theorem inRange_value (hg : S.graph.WellTyped) (hr : S.Ranged)
    (h : S.Everywhere (fun t v => v.InRange t) f) (e : NodeId) :
    (S.value f e).InRange (S.graph.nodeType e) :=
  (closed_inRange hr).value hg h e

theorem everywhere_final (hg : S.graph.WellTyped) (hr : S.Ranged) (outputs : Array Buffer) :
    S.Everywhere (fun t v => v.InRange t) (S.final outputs) := by
  refine Everywhere.stepBlock ((closed_inRange hr).keeps hg) ⟨fun e => ?_, fun v => ?_⟩ S.graph.body
  · rw [start, getD_replicate]
    exact Value.inRange_default _
  · rw [start, getD_replicate]
    exact Value.inRange_default _

end Surroundings
end TensorKernel

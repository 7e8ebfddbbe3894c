import TensorKernel.Proofs.Draft.Move

/-! Operands of other recordings. Whatever a call does with one, the mistake is noted,
and an error that was noted keeps a capture from finishing. -/
namespace TensorKernel

variable {r : Recording} {o : Operand} {x : Expr} {v : Variable} {os : List Operand} {op : BinaryOp}
  {other type : ElementType} {t : OutputTensor} {xs : List Expr}

namespace Recording

theorem owner_of_operandError? (h : r.operandError? x = none) : x.owner = r.id := by
  unfold operandError? at h
  split at h
  · cases h
  next ho => exact Decidable.of_not_not ho

theorem error_addNode (r : Recording) (op : Op) (type : ElementType) :
    (r.addNode op type).error = r.error := by
  unfold addNode
  split <;> rfl

theorem owner_of_pushNode {op : Op} (h : (r.pushNode op type xs).2.error = none) :
    r.error = none ∧ ∀ x ∈ xs, x.owner = r.id := by
  rw [pushNode_eq, error_addNode, note_error_eq_none_iff] at h
  refine ⟨h.1, fun x hx => owner_of_operandError? ?_⟩
  exact (r.operandsError?_eq_none_iff xs).1 h.2 x hx

/-- An operand that is an expression is one of this recording. -/
def Native (r : Recording) : Operand → Prop
  | .expr x => x.owner = r.id
  | .literal _ => True

theorem id_operand (r : Recording) (o : Operand) (other : ElementType) :
    (r.operand o other).2.id = r.id := by
  cases o with
  | expr x => rfl
  | literal v => exact r.id_pushNode _ _ _

theorem native_of_operand (h : (r.operand o other).1.owner = (r.operand o other).2.id) :
    r.Native o := by
  cases o with
  | expr x => exact h
  | literal v => trivial

theorem owner_of_binary {y : Expr} (h : (r.binary op x y).2.error = none) : y.owner = r.id := by
  unfold binary at h
  split at h
  · exact (owner_of_pushNode h).2 y (by simp)
  · exact absurd (note_error_eq_none_iff.1 (owner_of_pushNode h).1).2 (by simp)

theorem native_of_binaryWith (h : (r.binaryWith op x o).2.error = none) : r.Native o := by
  have h : ((r.operand o x.type).2.binary op x (r.operand o x.type).1).2.error = none := h
  exact native_of_operand (owner_of_binary h)

theorem native_of_declare (h : (r.declare o type).2.error = none) : r.Native o := by
  have h : ((r.operand o type).2.checkOperand (r.operand o type).1).error = none := h
  exact native_of_operand (owner_of_operandError? (note_error_eq_none_iff.1 h).2)

theorem owner_of_assign (h : (r.assign v x).error = none) : r.error = none ∧ x.owner = r.id := by
  unfold assign at h
  dsimp only at h
  split at h
  next hx => exact ⟨(note_error_eq_none_iff.1 h).1, owner_of_operandError? hx⟩
  · exact absurd (note_error_eq_none_iff.1 h).2 (by simp)

theorem native_of_set (h : (r.set v o).error = none) : r.Native o :=
  native_of_operand (owner_of_assign (v := v) h).2

theorem native_of_update (h : (r.update v op o).error = none) : r.Native o := by
  have h : (((r.get v).2.binaryWith op (r.get v).1 o).2.assign v
      ((r.get v).2.binaryWith op (r.get v).1 o).1).error = none := h
  have ho := native_of_binaryWith (owner_of_assign h).1
  cases o with
  | expr x => exact Eq.trans ho ((r.checkVariable v).id_pushNode _ _ _)
  | literal v => trivial

theorem mem_indexExprs (h : .expr x ∈ os) : x ∈ (r.indexExprs os).1 := by
  induction os generalizing r with
  | nil => cases h
  | cons o rest ih =>
    rcases List.mem_cons.1 h with rfl | h
    · exact List.mem_cons_self
    · exact List.mem_cons_of_mem _ (ih h)

theorem id_indexExprs (r : Recording) (os : List Operand) : (r.indexExprs os).2.id = r.id := by
  induction os generalizing r with
  | nil => rfl
  | cons o rest ih => exact (ih _).trans (r.id_operand o .i64)

theorem native_of_indexExprs (h : ∀ x ∈ (r.indexExprs os).1, x.owner = r.id) :
    ∀ o ∈ os, r.Native o := by
  intro o ho
  cases o with
  | expr x => exact h x (mem_indexExprs ho)
  | literal v => trivial

theorem native_of_element {t : InputTensor} (h : (r.element t os).2.error = none) :
    ∀ o ∈ os, r.Native o := by
  refine native_of_indexExprs fun x hx => ?_
  exact ((owner_of_pushNode h).2 x hx).trans (r.id_indexExprs os)

theorem owner_of_store (h : (r.store t xs x).error = none) :
    (∀ y ∈ xs, y.owner = r.id) ∧ x.owner = r.id := by
  unfold store at h
  split at h
  · exact absurd (note_error_eq_none_iff.1 h).2 (by simp)
  · split at h
    next hx =>
      have hall := (r.operandsError?_eq_none_iff _).1 hx
      refine ⟨fun y hy => ?_, owner_of_operandError? (hall x List.mem_cons_self)⟩
      exact owner_of_operandError? (hall y (List.mem_cons_of_mem _ hy))
    · exact absurd (note_error_eq_none_iff.1 h).2 (by simp)

theorem native_of_setElement (h : (r.setElement t os o).error = none) :
    (∀ p ∈ os, r.Native p) ∧ r.Native o := by
  let p := r.indices (.output t.index) t.type.shape.rank os
  have h : ((p.2.operand o t.type.element).2.store t p.1 (p.2.operand o t.type.element).1).error
      = none := h
  have hid : (p.2.operand o t.type.element).2.id = r.id :=
    (p.2.id_operand o _).trans (r.id_indexExprs os)
  obtain ⟨hxs, hx⟩ := owner_of_store h
  rw [hid] at hxs hx
  refine ⟨native_of_indexExprs hxs, ?_⟩
  cases o with
  | expr x => exact hx
  | literal v => trivial

end Recording

namespace Draft
open Recording

/-- The recording looks at an operand of another recording. The continuation of a closed chain
looks at nothing. -/
def Mixes (s : Draft) : Call → Prop
  | .binary _ _ o | .declare o _ | .assign _ o | .update _ _ o => ¬s.recording.Native o
  | .element _ os => ¬∀ o ∈ os, s.recording.Native o
  | .store _ os o => ¬((∀ p ∈ os, s.recording.Native p) ∧ s.recording.Native o)
  | .branch cond => cond.owner ≠ s.recording.id
  | .elif key cond => (∃ t, s.chains[key]? = some t ∧ t.chain.closed = false) ∧
      cond.owner ≠ s.recording.id
  | .constant _ _ | .unary _ _ | .binaryFrom _ _ _ | .cast _ _ | .get _ | .output _
  | .outputLike _ | .positionIn _ | .otherwise _ | .leave | .abandon => False

theorem error_of_mixes {s : Draft} {c : Call} (hm : s.Mixes c) :
    (s.perform c).recording.error ≠ none := by
  intro he
  cases c with
  | binary op x o => exact hm (native_of_binaryWith he)
  | element t os => exact hm (native_of_element he)
  | declare o type => exact hm (native_of_declare he)
  | assign v o => exact hm (native_of_set he)
  | update v op o => exact hm (native_of_update he)
  | store t os o => exact hm (native_of_setElement he)
  | branch x => exact hm (owner_of_operandError? (note_error_eq_none_iff.1 he).2)
  | elif key x =>
    obtain ⟨⟨t, ht, hopen⟩, ho⟩ := hm
    refine ho (owner_of_operandError? (r := s.recording) ?_)
    simp only [perform, ht, reopenElif, hopen, Bool.false_eq_true, if_false] at he
    split at he
    next place q hq =>
      obtain ⟨-, before, chain, bound, sealed, h⟩ := reopened_of_reopen hq
      exact (note_error_eq_none_iff.1 (h.keeps.error he)).2
    · exact (note_error_eq_none_iff.1 he).2
  | constant | unary | binaryFrom | cast | get | output | outputLike | positionIn | otherwise
  | leave | abandon => exact hm

theorem Leads.keeps {rule : Draft → Call → Prop} {s t : Draft} (h : Leads rule s t)
    (hs : s.Holds) : s.recording.Keeps t.recording := by
  induction h with
  | refl => exact .rfl
  | call hl hc _ ih => exact ih.trans (move_perform (hl.holds hs) hc).keeps

end Draft
end TensorKernel

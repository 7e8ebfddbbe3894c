import TensorKernel.Proofs.Direct.Built
import TensorKernel.Proofs.Draft.Move

/-! What a graph shows of itself. Outputs and positions are declared by calls of their own, and
all others leave them as they are. -/
namespace TensorKernel

namespace Recording

variable {r q : Recording}

/-- What a graph shows of itself: its results, and the positions that it runs at. -/
def outline (r : Recording) : List TensorType × Option Shape := (r.outputs, r.domain)

theorem Built.outline (h : r.Built q) : q.outline = r.outline :=
  Prod.ext h.outputs h.domain

theorem outline_assign (r : Recording) (v : Variable) (x : Expr) :
    (r.assign v x).outline = r.outline := by
  unfold assign
  dsimp only
  split <;> rfl

theorem outline_set (r : Recording) (v : Variable) (o : Operand) :
    (r.set v o).outline = r.outline :=
  (outline_assign _ v _).trans (built_operand r o v.type).outline

theorem outline_update (r : Recording) (v : Variable) (op : BinaryOp) (o : Operand) :
    (r.update v op o).outline = r.outline :=
  (outline_assign _ v _).trans ((built_get r v).trans (built_binaryWith _ op _ o)).outline

theorem outline_store (r : Recording) (t : OutputTensor) (xs : List Expr) (x : Expr) :
    (r.store t xs x).outline = r.outline := by
  unfold store
  split
  · rfl
  · split <;> rfl

theorem outline_setElement (r : Recording) (t : OutputTensor) (os : List Operand) (o : Operand) :
    (r.setElement t os o).outline = r.outline :=
  (outline_store _ t _ _).trans
    ((built_indices r (.output t.index) _ os).trans (built_operand _ o _)).outline

theorem outline_declare (r : Recording) (o : Operand) (type : ElementType) :
    (r.declare o type).2.outline = r.outline :=
  (built_operand r o type).outline

theorem outline_closeBlock (r : Recording) : r.closeBlock.2.outline = r.outline := by
  unfold closeBlock
  split <;> rfl

theorem outline_addBranch (r : Recording) (index : Nat) (guard : Option NodeId)
    (body : List Stmt) : (r.addBranch index guard body).outline = r.outline := by
  unfold addBranch
  split <;> rfl

theorem built_of_positionIn {shape : Shape} {p : Position} (h : r.positionIn shape = .ok (p, q)) :
    r.depth = 0 ∧ Built { r with domain := some shape } q := by
  unfold positionIn at h
  split at h
  · cases h
  · split at h
    · cases h
    next hdepth =>
      cases h
      exact ⟨Decidable.of_not_not hdepth, built_pushAxes _ _ _⟩

theorem Reopened.outline {index place : Nat} {guard : Option NodeId} {before : List Stmt}
    {chain : Stmt} {bound sealed : List NodeId}
    (h : r.Reopened index guard place q before chain bound sealed) : q.outline = r.outline := by
  obtain ⟨nodes, parents, he, -⟩ := r.sealNodes_eq sealed
  rw [h.result, he]
  rfl

end Recording

def Call.declares : Call → Bool
  | .output _ | .outputLike _ | .positionIn _ => true
  | _ => false

namespace Draft
open Recording

theorem outline_resume {s : Draft} {key : Nat} {t : Started} {guard : Option NodeId}
    {p : Except Refusal Chain × Recording} (h : p.2.outline = s.recording.outline) :
    (s.resume key t guard p).recording.outline = s.recording.outline := by
  obtain ⟨e | c, r⟩ := p <;> exact h

theorem outline_reopenElif (r : Recording) (c : Chain) (cond : Expr) :
    (r.reopenElif c cond).2.outline = r.outline := by
  unfold reopenElif
  split
  · rfl
  · dsimp only
    split
    next h =>
      obtain ⟨-, before, chain, bound, sealed, h⟩ := reopened_of_reopen h
      exact h.outline
    · rfl

theorem outline_reopenElse (r : Recording) (c : Chain) :
    (r.reopenElse c).2.outline = r.outline := by
  unfold reopenElse
  split
  · rfl
  · split
    next h =>
      obtain ⟨-, before, chain, bound, sealed, h⟩ := reopened_of_reopen h
      exact h.outline
    · rfl

theorem outline_perform (s : Draft) {c : Call} (h : c.declares = false) :
    (s.perform c).recording.outline = s.recording.outline ∧ (s.perform c).outputs = s.outputs := by
  cases c with
  | output | outputLike | positionIn => cases h
  | constant v type => exact ⟨(built_constant _ v type).outline, rfl⟩
  | unary op x => exact ⟨(built_unary _ op x).outline, rfl⟩
  | binary op x o => exact ⟨(built_binaryWith _ op x o).outline, rfl⟩
  | binaryFrom op v y => exact ⟨(built_binaryFrom _ op v y).outline, rfl⟩
  | cast x type => exact ⟨(built_cast _ x type).outline, rfl⟩
  | element t os => exact ⟨(built_element _ t os).outline, rfl⟩
  | declare o type => exact ⟨outline_declare _ o type, rfl⟩
  | get v => exact ⟨(built_get _ v).outline, rfl⟩
  | assign v o => exact ⟨outline_set _ v o, rfl⟩
  | update v op o => exact ⟨outline_update _ v op o, rfl⟩
  | store t os o => exact ⟨outline_setElement _ t os o, rfl⟩
  | branch cond => exact ⟨rfl, rfl⟩
  | elif key cond =>
    rw [perform]
    split
    · refine ⟨outline_resume (outline_reopenElif _ _ _), ?_⟩
      rcases s.recording.reopenElif _ cond with ⟨e | c, r⟩ <;> rfl
    · exact ⟨rfl, rfl⟩
  | otherwise key =>
    rw [perform]
    split
    · refine ⟨outline_resume (outline_reopenElse _ _), ?_⟩
      rcases s.recording.reopenElse _ with ⟨e | c, r⟩ <;> rfl
    · exact ⟨rfl, rfl⟩
  | leave =>
    rw [perform]
    split
    next p rest _ =>
      cases p with
      | first cond => exact ⟨outline_closeBlock s.recording, rfl⟩
      | further key index guard =>
        exact ⟨(outline_addBranch _ index guard _).trans (outline_closeBlock s.recording), rfl⟩
    · exact ⟨rfl, rfl⟩
  | abandon =>
    rw [perform]
    split
    · exact ⟨outline_closeBlock s.recording, rfl⟩
    · exact ⟨rfl, rfl⟩

end Draft
end TensorKernel

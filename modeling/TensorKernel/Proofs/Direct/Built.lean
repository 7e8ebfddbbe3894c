import TensorKernel.Proofs.Draft.Calls

/-! Building expressions. The calls that build expressions add nodes and their bindings to
a recording, and nothing else. -/
namespace TensorKernel.Recording

structure Built (r q : Recording) : Prop where
  grows : r.Grows q
  size : r.nodes.size ≤ q.nodes.size
  slots : q.slots = r.slots
  outputs : q.outputs = r.outputs
  domain : q.domain = r.domain
  body : ∃ bound : List NodeId, q.current.body = r.current.body ++ bound.map Stmt.bind ∧
    ∀ e ∈ bound, r.nodes.size ≤ e

theorem Built.rfl {r : Recording} : r.Built r :=
  ⟨.rfl, Nat.le_refl _, Eq.refl _, Eq.refl _, Eq.refl _, [], by simp⟩

theorem Built.trans {r q p : Recording} (h : r.Built q) (h' : q.Built p) : r.Built p where
  grows := h.grows.trans h'.grows
  size := Nat.le_trans h.size h'.size
  slots := h'.slots.trans h.slots
  outputs := h'.outputs.trans h.outputs
  domain := h'.domain.trans h.domain
  body := by
    obtain ⟨bound, hb, hle⟩ := h.body
    obtain ⟨more, hm, hle'⟩ := h'.body
    refine ⟨bound ++ more, by rw [hm, hb, List.map_append, List.append_assoc], fun e he => ?_⟩
    rcases List.mem_append.1 he with he | he
    · exact hle e he
    · exact Nat.le_trans h.size (hle' e he)

theorem built_note (r : Recording) {e : Option CaptureError} (h : NoCycle e) : r.Built (r.note e) :=
  { Built.rfl with grows := grows_note r h }

theorem nodes_addNode (r : Recording) (op : Op) (type : ElementType) :
    (r.addNode op type).nodes =
      r.nodes.push ⟨op, type, if op.isInline then rootScope else r.current.scope⟩ := by
  unfold addNode
  split <;> rfl

theorem body_addNode (r : Recording) (op : Op) (type : ElementType) :
    (r.addNode op type).current.body =
      r.current.body ++ (if op.isInline then [] else [r.nodes.size]).map Stmt.bind := by
  unfold addNode
  split
  · simp
  · rfl

theorem built_addNode (r : Recording) (op : Op) (type : ElementType) :
    r.Built (r.addNode op type) := by
  refine ⟨grows_addNode r op type, ?_, ?_, ?_, ?_, _, body_addNode r op type, ?_⟩
  · rw [nodes_addNode, Array.size_push]
    exact Nat.le_succ _
  · unfold addNode
    split <;> rfl
  · unfold addNode
    split <;> rfl
  · unfold addNode
    split <;> rfl
  · intro e he
    split at he
    · cases he
    · exact Nat.le_of_eq (List.mem_singleton.1 he).symm

theorem built_pushNode (r : Recording) (op : Op) (type : ElementType) (xs : List Expr) :
    r.Built (r.pushNode op type xs).2 := by
  rw [pushNode_eq]
  exact (built_note r (noCycle_operandsError? r xs)).trans (built_addNode _ op type)

theorem built_constant (r : Recording) (v : Literal) (type : ElementType) :
    r.Built (r.constant v type).2 := built_pushNode r _ _ _

theorem built_operand (r : Recording) (o : Operand) (other : ElementType) :
    r.Built (r.operand o other).2 := by
  cases o with
  | expr x => exact .rfl
  | literal v => exact built_constant r v _

theorem built_unary (r : Recording) (op : UnaryOp) (x : Expr) : r.Built (r.unary op x).2 := by
  unfold unary
  split
  · exact built_pushNode _ _ _ _
  · exact (built_note r (by simp [NoCycle])).trans (built_pushNode _ _ _ _)

theorem built_binary (r : Recording) (op : BinaryOp) (x y : Expr) :
    r.Built (r.binary op x y).2 := by
  unfold binary
  split
  · exact built_pushNode _ _ _ _
  · exact (built_note r (by simp [NoCycle])).trans (built_pushNode _ _ _ _)

theorem built_binaryWith (r : Recording) (op : BinaryOp) (x : Expr) (o : Operand) :
    r.Built (r.binaryWith op x o).2 :=
  (built_operand r o x.type).trans (built_binary _ op x _)

theorem built_binaryFrom (r : Recording) (op : BinaryOp) (v : Literal) (y : Expr) :
    r.Built (r.binaryFrom op v y).2 :=
  (built_operand r (.literal v) y.type).trans (built_binary _ op _ y)

theorem built_cast (r : Recording) (x : Expr) (type : ElementType) : r.Built (r.cast x type).2 := by
  unfold cast
  split
  · exact .rfl
  · exact built_pushNode _ _ _ _

theorem built_get (r : Recording) (v : Variable) : r.Built (r.get v).2 :=
  (built_note r (noCycle_variableError? r v)).trans (built_pushNode _ _ _ _)

theorem built_indexExprs (r : Recording) (os : List Operand) : r.Built (r.indexExprs os).2 := by
  induction os generalizing r with
  | nil => exact .rfl
  | cons o rest ih => exact (built_operand r o .i64).trans (ih _)

theorem built_indices (r : Recording) (tensor : Subscripted) (rank : Nat) (os : List Operand) :
    r.Built (r.indices tensor rank os).2 :=
  ((built_indexExprs r os).trans (built_note _ (noCycle_rankError? _ _ _))).trans
    (built_note _ (noCycle_indexTypeError? _ _))

theorem built_element (r : Recording) (t : InputTensor) (os : List Operand) :
    r.Built (r.element t os).2 :=
  (built_indices r (.input t.index) t.type.shape.rank os).trans (built_pushNode _ _ _ _)

theorem built_pushAxes (r : Recording) (axis n : Nat) : r.Built (r.pushAxes axis n).2 := by
  induction n generalizing r axis with
  | zero => exact .rfl
  | succ n ih => exact (built_pushNode r (.position axis) .i64 []).trans (ih _ _)

end TensorKernel.Recording

import TensorKernel.Proofs.Direct.View

/-! Expressions mean what they say. The handle that a call gives stands for the scalar that
the direct reading builds from the scalars of its operands. -/
namespace TensorKernel

open Surroundings

variable {other : ElementType} {o : Operand} {ms : List Scalar} {v? : Option Value}
  {os : List Operand} {q : Recording} {xs : List Expr} {op : Op}

theorem Surroundings.Fits.mono {S : Surroundings} {r : Recording} (h : S.Fits q) (hg : r.Grows q) :
    S.Fits r where
  nodes e node hn := h.nodes e node (hg.nodes e node hn)
  slots v slot hs := h.slots v slot (hg.slots v slot hs)
  inputs := h.inputs.trans hg.inputs
  outputs k type ho := h.outputs k type (hg.outputs k type ho)

namespace View
open Recording

/-- The call gives a handle that stands for the result of the direct reading, unless it notes
an error. -/
def Yields (V : View) (p : Expr × Recording) (m? : Option Scalar) : Prop :=
  p.2.error = none → V.around.Fits p.2 → ∃ m, m? = some m ∧ V.Reads p.2 p.1 m

variable {V : View} {r : Recording} {x y : Expr} {m mx my : Scalar}

theorem visible_of_operandError? {node : Node} (h : r.operandError? x = none)
    (hn : r.nodes[x.id]? = some node) : r.isVisible node.scope = true := by
  unfold operandError? at h
  split at h
  · cases h
  · rw [hn] at h
    dsimp only at h
    split at h
    · assumption
    · cases h

/-- In a block that runs, an expression that can be used has the value of its node. -/
theorem Reads.eq_scalar (h : V.Reads r x m) (ho : V.Of r) (ha : V.active = true)
    (hu : r.operandError? x = none) :
    ∃ node, r.nodes[x.id]? = some node ∧ m = V.around.scalar (V.now r) x.id node := by
  obtain ⟨-, node, hn, -, hm⟩ := h
  have hv := (isVisible_iff ho.nested).1 (visible_of_operandError? hu hn)
  exact ⟨node, hn, hm (.inr (ho.active ha _ hv))⟩

theorem Reads.as?_eq (h : V.Reads r x m) (ho : V.Of r) (hfit : V.around.Fits r)
    (ha : V.active = true) (hu : r.operandError? x = none) (t : ElementType) :
    m.as? t = some (V.around.valueAs (V.now r) x.id t) := by
  obtain ⟨node, hn, rfl⟩ := h.eq_scalar ho ha hu
  obtain ⟨scope, hg⟩ := hfit.nodes x.id node hn
  exact V.around.as?_scalar hg _ t

theorem Reads.get?_eq (h : V.Reads r x m) (ho : V.Of r) (hfit : V.around.Fits r)
    (ha : V.active = true) (hu : r.operandError? x = none) :
    m.get? = some (V.around.value (V.now r) x.id) := by
  obtain ⟨node, hn, rfl⟩ := h.eq_scalar ho ha hu
  obtain ⟨scope, hg⟩ := hfit.nodes x.id node hn
  exact V.around.get?_scalar hg _

theorem Reads.nodeType_eq (h : V.Reads r x m) (hfit : V.around.Fits r) :
    V.around.graph.nodeType x.id = x.type := by
  obtain ⟨-, node, hn, ht, -⟩ := h
  obtain ⟨scope, hg⟩ := hfit.nodes x.id node hn
  rw [Graph.nodeType, hg]
  exact ht

theorem reads_inline (hi : op.isInline = true) (type : ElementType) (xs : List Expr) :
    V.Reads (r.pushNode op type xs).2 (r.pushNode op type xs).1
      (V.around.scalar V.entry r.nodes.size ⟨op, type, rootScope⟩) := by
  rw [pushNode_eq]
  refine ⟨by simp, ⟨op, type, rootScope⟩, ?_, rfl, fun _ => ?_⟩
  · rw [nodes_addNode, if_pos hi]
    exact Array.getElem?_push_size
  · exact V.around.scalar_of_inline hi _ _ _

theorem yields_pushNode (ho : V.Of r) (hi : op.isInline = false) {type : ElementType}
    (hv : V.active = true → V.around.Fits r → r.operandsError? xs = none →
      v? = some (V.around.compute (V.now r) ⟨op, type, r.current.scope⟩)) :
    V.Yields (r.pushNode op type xs) (Scalar.built V.active type v?) := by
  intro herr hfit
  have hgrows := (built_pushNode r op type xs).grows
  rw [pushNode_eq] at herr hfit hgrows ⊢
  obtain ⟨-, hnone⟩ := note_error_eq_none_iff.1 ((grows_addNode _ op type).error herr)
  rw [hnone, note_none] at herr hfit hgrows ⊢
  have hnode : (r.addNode op type).nodes[r.nodes.size]? = some ⟨op, type, r.current.scope⟩ := by
    rw [nodes_addNode, hi]
    exact Array.getElem?_push_size
  cases ha : V.active with
  | false =>
    refine ⟨.value type none, rfl, rfl, _, hnode, rfl, fun hsee => ?_⟩
    rcases hsee with hinline | hlive
    · exact absurd hinline (by simp [hi])
    · exact absurd hlive (ho.skipped ha)
  | true =>
    have hval := hv ha (hfit.mono hgrows) hnone
    refine ⟨.value type v?, by rw [hval]; rfl, rfl, _, hnode, rfl, fun _ => ?_⟩
    obtain ⟨scope, hgraph⟩ := hfit.nodes _ _ hnode
    have hnow : V.now (r.addNode op type) = V.around.step (V.now r) (.bind r.nodes.size) := by
      unfold now
      rw [if_pos ha, if_pos ha, body_addNode, hi, stepBlock_append]
      exact V.around.stepBlock_singleton _ _
    have hsize : r.nodes.size < (V.now r).values.size := by
      have hlt := (Array.getElem?_eq_some_iff.1 hgraph).1
      have hs : (V.now r).values.size = V.entry.values.size := by
        unfold now
        rw [if_pos ha]
        exact (V.around.sized_stepBlock _ _).values
      rw [hs, ho.size]
      exact hlt
    rw [hnow, hval, step, hgraph]
    cases op with
    | constant | position => cases hi
    | input | unary | binary | cast | read => simp [scalar, compute, hsize]

theorem yields_constant (v : Literal) (type : ElementType) :
    V.Yields (r.constant v type) (some (.literal (v.cast type) type)) :=
  fun _ _ => ⟨_, rfl, reads_inline rfl type []⟩

theorem yields_unary (ho : V.Of r) (hx : V.Reads r x m) (op : UnaryOp) :
    V.Yields (r.unary op x) (Scalar.unary V.active op m) := by
  unfold Recording.unary
  split
  next type ht =>
    simp only [Scalar.unary, hx.1, ht]
    change V.Yields _ (Scalar.built V.active type _)
    refine yields_pushNode ho rfl fun ha hfit hnone => ?_
    rw [hx.as?_eq ho hfit ha ((r.operandsError?_eq_none_iff _).1 hnone x (by simp))]
    simp only [compute, hx.nodeType_eq hfit, Option.map_some]
  · intro herr
    exact absurd ((built_pushNode _ _ _ _).grows.error herr) (by simp [note])

theorem yields_binary (ho : V.Of r) (hx : V.Reads r x mx) (hy : V.Reads r y my) (op : BinaryOp) :
    V.Yields (r.binary op x y) (Scalar.binary V.active op mx my) := by
  unfold Recording.binary
  split
  next type ht =>
    simp only [Scalar.binary, hx.1, hy.1, ht]
    change V.Yields _ (Scalar.built V.active type _)
    refine yields_pushNode ho rfl fun ha hfit hnone => ?_
    have hall := (r.operandsError?_eq_none_iff _).1 hnone
    rw [hx.as?_eq ho hfit ha (hall x (by simp)), hy.as?_eq ho hfit ha (hall y (by simp))]
    simp only [compute, hx.nodeType_eq hfit, hy.nodeType_eq hfit]
    rfl
  · intro herr
    exact absurd ((built_pushNode _ _ _ _).grows.error herr) (by simp [note])

theorem yields_cast (ho : V.Of r) (hx : V.Reads r x m) (type : ElementType) :
    V.Yields (r.cast x type) (Scalar.cast V.active type m) := by
  unfold Recording.cast Scalar.cast
  rw [hx.1]
  split
  · exact fun _ _ => ⟨m, rfl, hx⟩
  · refine yields_pushNode ho rfl fun ha hfit hnone => ?_
    rw [hx.get?_eq ho hfit ha ((r.operandsError?_eq_none_iff _).1 hnone x (by simp))]
    rfl

theorem yields_get (ho : V.Of r) {v : Variable} (hv : V.active = true → r.variableError? v = none →
      v? = some ((V.now r).slots.getD v.id default)) :
    V.Yields (r.get v) (Scalar.built V.active v.type v?) := by
  intro herr hfit
  have hnote := built_note r (noCycle_variableError? r v)
  obtain ⟨-, hnone⟩ := note_error_eq_none_iff.1 ((built_pushNode _ _ _ _).grows.error herr)
  refine yields_pushNode (ho.built hnote) rfl (fun ha _ _ => ?_) herr hfit
  exact hv ha hnone

/-- What an operand stands for beside `other`. -/
def OperandReads (V : View) (r : Recording) (other : ElementType) : Operand → Scalar → Prop
  | .expr x, m => V.Reads r x m
  | .literal v, m => m = .literal (v.cast (v.weakType other)) (v.weakType other)

theorem OperandReads.built (h : V.OperandReads r other o m) (hb : r.Built q) :
    V.OperandReads q other o m := by
  cases o with
  | expr x => exact Reads.built h hb
  | literal v => exact h

theorem yields_operand (h : V.OperandReads r other o m) :
    V.Yields (r.operand o other) (some m) := by
  cases o with
  | expr x => exact fun _ _ => ⟨m, rfl, h⟩
  | literal v =>
    rw [show m = _ from h]
    exact yields_constant v _

theorem reads_operand (h : V.OperandReads r other o m) (hb : (r.operand o other).2.Built q)
    (herr : q.error = none) (hfit : V.around.Fits q) :
    V.Reads (r.operand o other).2 (r.operand o other).1 m := by
  obtain ⟨m', hm, hr⟩ := yields_operand h (hb.grows.error herr) (hfit.mono hb.grows)
  rwa [Option.some.inj hm]

theorem yields_binaryWith (ho : V.Of r) (hx : V.Reads r x mx) (hy : V.OperandReads r x.type o my)
    (op : BinaryOp) : V.Yields (r.binaryWith op x o) (Scalar.binary V.active op mx my) := by
  intro herr hfit
  have hb := built_operand r o x.type
  exact yields_binary (ho.built hb) (hx.built hb)
    (reads_operand hy (built_binary _ op x _) herr hfit) op herr hfit

theorem yields_binaryFrom (ho : V.Of r) {v : Literal} (hx : V.OperandReads r y.type (.literal v) mx)
    (hy : V.Reads r y my) (op : BinaryOp) :
    V.Yields (r.binaryFrom op v y) (Scalar.binary V.active op mx my) := by
  intro herr hfit
  have hb := built_operand r (.literal v) y.type
  exact yields_binary (ho.built hb) (reads_operand hx (built_binary _ op _ y) herr hfit)
    (hy.built hb) op herr hfit

theorem reads_indexExprs (h : List.Forall₂ (V.OperandReads r .i64) os ms)
    (herr : (r.indexExprs os).2.error = none) (hfit : V.around.Fits (r.indexExprs os).2) :
    List.Forall₂ (V.Reads (r.indexExprs os).2) (r.indexExprs os).1 ms := by
  induction os generalizing r ms with
  | nil =>
    cases h
    exact .nil
  | cons o rest ih =>
    cases h with
    | cons ho hos =>
      have hrest := built_indexExprs (r.operand o .i64).2 rest
      refine .cons ((reads_operand ho hrest herr hfit).built hrest) (ih ?_ herr hfit)
      exact hos.imp fun p m hp => hp.built (built_operand r o .i64)

theorem reads_indices {os : List Operand} {ms : List Scalar}
    (h : List.Forall₂ (V.OperandReads r .i64) os ms) {tensor : Subscripted} {rank : Nat}
    (herr : (r.indices tensor rank os).2.error = none)
    (hfit : V.around.Fits (r.indices tensor rank os).2) :
    List.Forall₂ (V.Reads (r.indices tensor rank os).2) (r.indices tensor rank os).1 ms := by
  have hb : (r.indexExprs os).2.Built (r.indices tensor rank os).2 :=
    (built_note _ (noCycle_rankError? _ _ _)).trans (built_note _ (noCycle_indexTypeError? _ _))
  exact (reads_indexExprs h (hb.grows.error herr) (hfit.mono hb.grows)).imp
    fun x m hx => hx.built hb

theorem offset?_eq (ho : V.Of r) (hfit : V.around.Fits r) (ha : V.active = true)
    (h : List.Forall₂ (V.Reads r) xs ms) (hu : ∀ x ∈ xs, r.operandError? x = none)
    (type : TensorType) :
    Scalar.offset? type ms = some (V.around.offset (V.now r) type (xs.map Expr.id)) := by
  have hms : ms.mapM (Scalar.as? .i64) =
      some (xs.map fun x => V.around.valueAs (V.now r) x.id .i64) := by
    induction h with
    | nil => rfl
    | @cons x m xs ms hx _ ih =>
      rw [List.mapM_cons, hx.as?_eq ho hfit ha (hu x (by simp)),
        ih fun y hy => hu y (List.mem_cons_of_mem _ hy)]
      rfl
  unfold Scalar.offset? offset
  rw [hms]
  simp [Function.comp_def]

theorem yields_element (ho : V.Of r) {t : InputTensor}
    (h : List.Forall₂ (V.OperandReads r .i64) os ms) (ht : r.inputs[t.index]? = some t.type)
    {σ : Site} (hσ : σ.inputs = V.around.inputs) :
    V.Yields (r.element t os) (σ.element V.active t.index t.type ms) := by
  intro herr hfit
  have hb := built_indices r (.input t.index) t.type.shape.rank os
  have hpush := built_pushNode (r.indices (.input t.index) t.type.shape.rank os).2
    (.input t.index ((r.indices (.input t.index) t.type.shape.rank os).1.map Expr.id))
    t.type.element (r.indices (.input t.index) t.type.shape.rank os).1
  have hxs := reads_indices h (hpush.grows.error herr) (hfit.mono hpush.grows)
  refine yields_pushNode (ho.built hb) rfl (fun ha hfit' hnone => ?_) herr hfit
  rw [offset?_eq (ho.built hb) hfit' ha hxs ((operandsError?_eq_none_iff _ _).1 hnone), hσ]
  have hin : V.around.graph.inputs[t.index]? = some t.type := by
    rw [hfit'.inputs, hb.grows.inputs]
    exact ht
  unfold compute
  dsimp only
  rw [hin]
  rfl

end View
end TensorKernel

import TensorKernel.Proofs.Draft.Edit

/-! Every call that opens or closes no block is a run of edits, provided that the
handles it is given name what they say, and gives out a handle that does so. -/
namespace TensorKernel.Recording

variable {r : Recording} {o : Operand} {xs : List Expr} {v : Variable} {os : List Operand}
  {x : Expr} {tensor : Subscripted} {t : OutputTensor}

theorem note_error_eq_none_iff {e : Option CaptureError} :
    (r.note e).error = none ↔ r.error = none ∧ e = none :=
  Option.or_eq_none_iff

theorem usable_of_operandError? (hx : r.Owns x) (h : r.operandError? x = none) :
    x.owner = r.id ∧ r.Usable x.id := by
  unfold operandError? at h
  split at h
  · cases h
  next hne =>
    have ho : x.owner = r.id := Decidable.of_not_not hne
    obtain ⟨node, hn, -⟩ := Option.map_eq_some_iff.1 (hx ho)
    have hv : r.isVisible node.scope = true := by
      rw [hn] at h
      dsimp only at h
      split at h
      · assumption
      · cases h
    exact ⟨ho, node, hn, hv⟩

theorem usable_of_operandsError? (hx : ∀ x ∈ xs, r.Owns x) (h : r.operandsError? xs = none) :
    ∀ x ∈ xs, x.owner = r.id ∧ r.Usable x.id :=
  fun x hm => usable_of_operandError? (hx x hm) ((r.operandsError?_eq_none_iff xs).1 h x hm)

theorem usable_of_variableError? (hv : r.OwnsSlot v) (h : r.variableError? v = none) :
    v.owner = r.id ∧ r.SlotUsable v.id := by
  unfold variableError? at h
  split at h
  · cases h
  next hne =>
    have ho : v.owner = r.id := Decidable.of_not_not hne
    obtain ⟨slot, hs, -⟩ := Option.map_eq_some_iff.1 (hv ho)
    have hvis : r.isVisible slot.scope = true := by
      rw [hs] at h
      dsimp only at h
      split at h
      · assumption
      · cases h
    exact ⟨ho, slot, hs, hvis⟩

theorem noCycle_operandError? (r : Recording) (x : Expr) : NoCycle (r.operandError? x) := by
  intro v
  unfold operandError?
  repeat' split
  all_goals simp

theorem noCycle_findSome? {α : Type} {f : α → Option CaptureError} (h : ∀ a, NoCycle (f a))
    (l : List α) : NoCycle (l.findSome? f) := by
  intro v hv
  obtain ⟨a, -, ha⟩ := List.exists_of_findSome?_eq_some hv
  exact h a v ha

theorem noCycle_operandsError? (r : Recording) (xs : List Expr) : NoCycle (r.operandsError? xs) :=
  noCycle_findSome? (noCycle_operandError? r) xs

theorem noCycle_variableError? (r : Recording) (v : Variable) : NoCycle (r.variableError? v) := by
  intro n
  unfold variableError?
  repeat' split
  all_goals simp

theorem noCycle_rankError? (tensor : Subscripted) (rank : Nat) (xs : List Expr) :
    NoCycle (rankError? tensor rank xs) := by
  intro v
  unfold rankError?
  split <;> simp

theorem noCycle_indexTypeError? (tensor : Subscripted) (xs : List Expr) :
    NoCycle (indexTypeError? tensor xs) :=
  noCycle_findSome? (fun x v => by split <;> simp) xs

/-- The call yields a handle of the recording it leaves, and that one by edits. -/
structure Makes (r : Recording) (p : Expr × Recording) : Prop where
  edits : Edits r p.2
  owns : p.2.Owns p.1

theorem Makes.after {q : Recording} {p : Expr × Recording} (h : q.Makes p) (he : Edits r q) :
    r.Makes p :=
  ⟨he.trans h.edits, h.owns⟩

theorem pushNode_eq (r : Recording) (op : Op) (type : ElementType) (xs : List Expr) :
    r.pushNode op type xs =
      (⟨r.id, r.nodes.size, type⟩, (r.note (r.operandsError? xs)).addNode op type) := by
  unfold pushNode addNode note
  rfl

theorem owns_addNode (r : Recording) (op : Op) (type : ElementType) :
    (r.addNode op type).Owns ⟨r.id, r.nodes.size, type⟩ := by
  intro _
  unfold addNode
  split <;> simp [signature, pushStmt]

theorem makes_pushNode {op : Op} {type : ElementType} (hids : op.operands = xs.map Expr.id)
    (hx : ∀ x ∈ xs, r.Owns x)
    (ht : r.error = none → (∀ x ∈ xs, x.owner = r.id) → op.Typed r.signature type)
    (hv : r.error = none → ∀ v, op = .read v → r.SlotUsable v) :
    r.Makes (r.pushNode op type xs) := by
  rw [pushNode_eq]
  refine ⟨?_, owns_addNode _ op type⟩
  refine (Relation.ReflTransGen.single (Edit.note _ (noCycle_operandsError? r xs))).tail
    (Edit.node op type fun he => ?_)
  obtain ⟨hr, hnone⟩ := note_error_eq_none_iff.1 he
  have hu := usable_of_operandsError? hx hnone
  refine ⟨⟨?_, fun v hop => hv hr v hop⟩, ht hr fun x hm => (hu x hm).1⟩
  intro o ho
  rw [hids] at ho
  obtain ⟨x, hm, rfl⟩ := List.mem_map.1 ho
  exact (hu x hm).2

theorem makes_constant (r : Recording) (v : Literal) (type : ElementType) :
    r.Makes (r.constant v type) :=
  makes_pushNode rfl (by simp) (fun _ _ h => v.inRange_cast h) (by simp)

theorem makes_operand (ho : r.OwnsOperand o) (other : ElementType) :
    r.Makes (r.operand o other) := by
  cases o with
  | expr x => exact ⟨.refl, ho⟩
  | literal v => exact makes_constant r v _

theorem makes_unary (hx : r.Owns x) (op : UnaryOp) : r.Makes (r.unary op x) := by
  have hs : ∀ y ∈ [x], r.Owns y := by simpa using hx
  unfold unary
  split
  next type ht =>
    refine makes_pushNode rfl hs (fun _ ho => ?_) (by simp)
    exact ⟨x.type, hx (ho x (by simp)), ht⟩
  · refine Makes.after ?_ (.single (Edit.note (some (.undefinedUnary op)) (by simp [NoCycle])))
    exact makes_pushNode rfl hs (fun h => absurd h (by simp [note])) (by simp)

theorem makes_binary {y : Expr} (hx : r.Owns x) (hy : r.Owns y) (op : BinaryOp) :
    r.Makes (r.binary op x y) := by
  have hs : ∀ z ∈ [x, y], r.Owns z := by simpa using ⟨hx, hy⟩
  unfold binary
  split
  next type ht =>
    refine makes_pushNode rfl hs (fun _ ho => ?_) (by simp)
    exact ⟨x.type, y.type, hx (ho x (by simp)), hy (ho y (by simp)), ht⟩
  · refine Makes.after ?_ (.single (Edit.note (some (.undefinedBinary op)) (by simp [NoCycle])))
    exact makes_pushNode rfl hs (fun h => absurd h (by simp [note])) (by simp)

theorem makes_binaryWith (hx : r.Owns x) (ho : r.OwnsOperand o) (op : BinaryOp) :
    r.Makes (r.binaryWith op x o) := by
  have h := makes_operand ho x.type
  exact (makes_binary (hx.grow h.edits.grows) h.owns op).after h.edits

theorem makes_binaryFrom {y : Expr} (hy : r.Owns y) (op : BinaryOp) (v : Literal) :
    r.Makes (r.binaryFrom op v y) := by
  have h : r.Makes (r.operand (.literal v) y.type) := makes_constant r v _
  exact (makes_binary h.owns (hy.grow h.edits.grows) op).after h.edits

theorem makes_cast (hx : r.Owns x) (type : ElementType) : r.Makes (r.cast x type) := by
  unfold cast
  split
  · exact ⟨.refl, hx⟩
  next hne =>
    refine makes_pushNode rfl (by simpa using hx) (fun _ ho => ?_) (by simp)
    exact ⟨x.type, hx (ho x (by simp)), hne⟩

theorem makes_get (hv : r.OwnsSlot v) : r.Makes (r.get v) := by
  refine Makes.after ?_ (.single (Edit.note _ (noCycle_variableError? r v)))
  refine makes_pushNode rfl (by simp) (fun he _ => ?_) (fun he w hw => ?_)
  · obtain ⟨-, hnone⟩ := note_error_eq_none_iff.1 he
    exact hv (usable_of_variableError? hv hnone).1
  · obtain ⟨-, hnone⟩ := note_error_eq_none_iff.1 he
    cases hw
    exact (usable_of_variableError? hv hnone).2

theorem edits_indexExprs (ho : ∀ o ∈ os, r.OwnsOperand o) :
    Edits r (r.indexExprs os).2 ∧ ∀ x ∈ (r.indexExprs os).1, (r.indexExprs os).2.Owns x := by
  induction os generalizing r with
  | nil => exact ⟨.refl, by simp [indexExprs]⟩
  | cons o rest ih =>
    have h := makes_operand (ho o (by simp)) .i64
    have hg := h.edits.grows
    obtain ⟨he, hx⟩ := ih (r := (r.operand o .i64).2)
      fun p hp => (ho p (by simp [hp])).grow hg
    refine ⟨h.edits.trans he, ?_⟩
    intro x hm
    rcases List.mem_cons.1 hm with rfl | hm
    · exact h.owns.grow he.grows
    · exact hx x hm

theorem length_of_rankError? {rank : Nat} (h : rankError? tensor rank xs = none) :
    xs.length = rank := by
  unfold rankError? at h
  split at h
  · assumption
  · cases h

theorem isIntegral_of_indexTypeError? (h : indexTypeError? tensor xs = none) :
    ∀ x ∈ xs, x.type.isIntegral := by
  intro x hm
  have hx := List.findSome?_eq_none_iff.1 h x hm
  split at hx
  · assumption
  · cases hx

theorem edits_indices (ho : ∀ o ∈ os, r.OwnsOperand o) (tensor : Subscripted) (type : TensorType) :
    let p := r.indices tensor type.shape.rank os
    Edits r p.2 ∧ (∀ x ∈ p.1, p.2.Owns x) ∧
      (p.2.error = none → (∀ x ∈ p.1, x.owner = p.2.id) →
        p.2.signature.Indexes type (p.1.map Expr.id)) := by
  obtain ⟨he, hx⟩ := edits_indexExprs ho
  refine ⟨(he.tail (Edit.note _ (noCycle_rankError? _ _ _))).tail
    (Edit.note _ (noCycle_indexTypeError? _ _)), hx, fun herr hown => ?_⟩
  obtain ⟨herr, hint⟩ := note_error_eq_none_iff.1 herr
  obtain ⟨-, hrank⟩ := note_error_eq_none_iff.1 herr
  refine ⟨by rw [List.length_map]; exact length_of_rankError? hrank, ?_⟩
  intro i hi
  obtain ⟨x, hm, rfl⟩ := List.mem_map.1 hi
  exact ⟨x.type, hx x hm (hown x hm), isIntegral_of_indexTypeError? hint x hm⟩

theorem getElem?_of_mem_inputTensors {t : InputTensor} (h : t ∈ r.inputTensors) :
    r.inputs[t.index]? = some t.type := by
  obtain ⟨i, hi, rfl⟩ := List.mem_mapIdx.1 h
  exact List.getElem?_eq_getElem hi

theorem makes_element {t : InputTensor} (ht : t ∈ r.inputTensors) (ho : ∀ o ∈ os, r.OwnsOperand o) :
    r.Makes (r.element t os) := by
  obtain ⟨he, hx, hidx⟩ := edits_indices ho (.input t.index) t.type
  refine (makes_pushNode rfl hx (fun herr hown => ?_) (by simp)).after he
  refine ⟨t.type, ?_, hidx herr hown, rfl⟩
  exact (congrArg (·[t.index]?) he.grows.inputs).trans (getElem?_of_mem_inputTensors ht)

theorem edits_declare (ho : r.OwnsOperand o) (type : ElementType) :
    Edits r (r.declare o type).2 ∧ (r.declare o type).2.OwnsSlot (r.declare o type).1 := by
  have h := makes_operand ho type
  constructor
  · refine (h.edits.tail (Edit.note _ (noCycle_operandError? _ _))).tail
      (Edit.slot type _ fun he => ?_)
    obtain ⟨-, hnone⟩ := note_error_eq_none_iff.1 he
    exact (usable_of_operandError? h.owns hnone).2
  · intro _
    simp [declare, signature, pushStmt, checkOperand, note]

theorem edits_assign (hv : r.OwnsSlot v) (hx : r.Owns x) : Edits r (r.assign v x) := by
  unfold assign
  refine Relation.ReflTransGen.trans (.single (Edit.note _ (noCycle_variableError? r v))) ?_
  dsimp only
  split
  next hnone =>
    refine .single (Edit.assign v.id x.id fun he => ?_)
    obtain ⟨-, hvar⟩ := note_error_eq_none_iff.1 he
    exact ⟨(usable_of_variableError? hv hvar).2, (usable_of_operandError? hx hnone).2⟩
  next e he => exact .single (Edit.note (some e) (he ▸ noCycle_operandError? _ _))

theorem edits_set (hv : r.OwnsSlot v) (ho : r.OwnsOperand o) : Edits r (r.set v o) := by
  have h := makes_operand ho v.type
  exact h.edits.trans (edits_assign (hv.grow h.edits.grows) h.owns)

theorem edits_update (hv : r.OwnsSlot v) (ho : r.OwnsOperand o) (op : BinaryOp) :
    Edits r (r.update v op o) := by
  have hget := makes_get hv
  have hbin := makes_binaryWith hget.owns (ho.grow hget.edits.grows) op
  have hboth : Edits r _ := hget.edits.trans hbin.edits
  exact hboth.trans (edits_assign (hv.grow hboth.grows) hbin.owns)

theorem edits_store (ht : r.OwnsOutput t) (hxs : ∀ y ∈ xs, r.Owns y) (hx : r.Owns x)
    (hidx : r.error = none → (∀ y ∈ xs, y.owner = r.id) →
      r.signature.Indexes t.type (xs.map Expr.id)) : Edits r (r.store t xs x) := by
  have hall : ∀ y ∈ x :: xs, r.Owns y := by simpa using ⟨hx, hxs⟩
  unfold store
  split
  · exact .single (Edit.note _ (by simp [NoCycle]))
  next hne =>
    have ho : t.owner = r.id := Decidable.of_not_not hne
    split
    next hnone =>
      have hu := usable_of_operandsError? hall hnone
      refine .single (Edit.store t.index _ x.id fun he => ⟨⟨t.type, ht ho, ?_⟩, ?_, ?_⟩)
      · exact hidx he fun y hm => (hu y (by simp [hm])).1
      · intro i hi
        obtain ⟨y, hm, rfl⟩ := List.mem_map.1 hi
        exact (hu y (by simp [hm])).2
      · exact (hu x (by simp)).2
    next e he => exact .single (Edit.note (some e) (he ▸ noCycle_operandsError? _ _))

theorem edits_setElement (ht : r.OwnsOutput t) (hos : ∀ p ∈ os, r.OwnsOperand p)
    (ho : r.OwnsOperand o) : Edits r (r.setElement t os o) := by
  obtain ⟨he, hxs, hidx⟩ := edits_indices hos (.output t.index) t.type
  have h := makes_operand (ho.grow he.grows) t.type.element
  have hg := h.edits.grows
  refine (he.trans h.edits).trans (edits_store (ht.grow (he.grows.trans hg))
    (fun y hm => (hxs y hm).grow hg) h.owns fun herr hown => ?_)
  exact (hidx (hg.error herr) fun y hm => (hown y hm).trans hg.id).extend hg.signature

theorem owns_outputLike (r : Recording) (type : TensorType) :
    (r.outputLike type).2.OwnsOutput (r.outputLike type).1 := by
  intro _
  simp [outputLike, signature]

theorem edits_pushAxes {shape : Shape} (hs : r.domain = some shape) {axis n : Nat}
    (hn : axis + n ≤ shape.rank) :
    Edits r (r.pushAxes axis n).2 ∧ ∀ x ∈ (r.pushAxes axis n).1, (r.pushAxes axis n).2.Owns x := by
  induction n generalizing r axis with
  | zero => exact ⟨.refl, by simp [pushAxes]⟩
  | succ n ih =>
    have h : r.Makes (r.pushNode (.position axis) .i64 []) :=
      makes_pushNode rfl (by simp) (fun _ _ => ⟨rfl, shape, hs, by omega⟩) (by simp)
    have hn : axis + 1 + n ≤ shape.rank := by omega
    obtain ⟨he, hx⟩ := ih (h.edits.grows.domain shape hs) hn
    refine ⟨h.edits.trans he, ?_⟩
    intro x hm
    rcases List.mem_cons.1 hm with rfl | hm
    · exact h.owns.grow he.grows
    · exact hx x hm

theorem edits_positionIn {q : Recording} {shape : Shape} {p : Position}
    (h : r.positionIn shape = .ok (p, q)) : Edits r q ∧ ∀ x ∈ p.indices, q.Owns x := by
  unfold positionIn at h
  split at h
  · cases h
  next hnone =>
    split at h
    · cases h
    · cases h
      have hd : r.domain = none := by simpa using hnone
      have hn : 0 + shape.rank ≤ shape.rank := by omega
      obtain ⟨he, hx⟩ := edits_pushAxes (r := { r with domain := some shape }) rfl hn
      exact ⟨Relation.ReflTransGen.trans (.single (Edit.domain shape hd)) he, hx⟩

end TensorKernel.Recording

import TensorKernel.Proofs.Direct.Expressions

/-! Instructions that open no block. Each does to the world what its call does to the frame
that the recorded statements reach. -/
namespace TensorKernel

open Surroundings List

variable {v : Variable} {t : OutputTensor} {o : Operand} {os : List Operand} {xs : List Expr}
  {ms : List Scalar} {i : Item} {type : ElementType} {x : Expr} {m : Scalar}

namespace Recording

variable {r : Recording}

/-! Calls that note nothing append one statement. -/

theorem declare_eq (h : (r.declare o type).2.error = none) :
    (r.operand o type).2.operandError? (r.operand o type).1 = none ∧
      (r.declare o type).2 = (r.operand o type).2.addSlot type (r.operand o type).1.id := by
  unfold declare checkOperand at h ⊢
  dsimp only at h ⊢
  obtain ⟨-, hnone⟩ := note_error_eq_none_iff.1 h
  rw [hnone, note_none]
  exact ⟨rfl, rfl⟩

theorem assign_eq (h : (r.assign v x).error = none) :
    r.variableError? v = none ∧ r.operandError? x = none ∧
      r.assign v x = r.pushStmt (.assign v.id x.id) := by
  unfold assign checkVariable at h ⊢
  dsimp only at h ⊢
  split at h
  next hx =>
    obtain ⟨-, hv⟩ := note_error_eq_none_iff.1 h
    rw [hv, note_none] at hx ⊢
    exact ⟨rfl, hx, rfl⟩
  · simp [note] at h

theorem store_eq (h : (r.store t xs x).error = none) :
    t.owner = r.id ∧ r.operandsError? (x :: xs) = none ∧
      r.store t xs x = r.pushStmt (.store t.index (xs.map Expr.id) x.id) := by
  unfold store at h ⊢
  split at h
  · simp [note] at h
  next ho =>
    rw [if_neg ho]
    split at h
    next hx => exact ⟨Decidable.of_not_not ho, hx, rfl⟩
    · simp [note] at h

theorem grows_assign (h : (r.assign v x).error = none) : r.Grows (r.assign v x) := by
  rw [(assign_eq h).2.2]
  exact grows_pushStmt r _

theorem grows_store (h : (r.store t xs x).error = none) : r.Grows (r.store t xs x) := by
  rw [(store_eq h).2.2]
  exact grows_pushStmt r _

theorem slot_of_variableError? (hv : r.OwnsSlot v) (h : r.variableError? v = none) :
    ∃ slot, r.slots[v.id]? = some slot ∧ slot.type = v.type ∧ r.isVisible slot.scope = true := by
  obtain ⟨ho, slot, hs, hvis⟩ := usable_of_variableError? hv h
  refine ⟨slot, hs, ?_, hvis⟩
  have ht : r.slots[v.id]?.map Slot.type = some v.type := hv ho
  rw [hs] at ht
  exact Option.some.inj ht

end Recording

/-- The site lies where the graph is evaluated, with the tensors that the script is given. -/
structure Site.Faces (σ : Site) (S : Surroundings) (given : Given → Option InputTensor) : Prop where
  inputs : σ.inputs = S.inputs
  position : σ.position = S.position
  given : ∀ t tensor, given t = some tensor → σ.given? t = some (tensor.index, tensor.type)

namespace View
open Recording Registers

variable {V : View} {r q : Recording} {regs : Registers} {w : World}

/-! What the registers hold. -/

section
variable (h : V.Agrees regs r w)
include h

theorem Agrees.meaning {x : Register} (hi : item? regs x = some i) :
    ∃ m, w.meaning? x = some m ∧ V.Stands r i m := by
  unfold item? at hi
  unfold World.meaning?
  split at hi
  · cases hi
  next hg =>
    rw [if_neg hg]
    exact h.registers x.name i hi

theorem Agrees.scalar {x : Register} {e : Expr} (he : expr? regs x = some e) :
    ∃ m, w.scalar? x = some m ∧ V.Reads r e m := by
  unfold expr? at he
  split at he
  next e' hi =>
    cases he
    obtain ⟨m, hm, hs⟩ := h.meaning hi
    cases m with
    | scalar m => exact ⟨m, by rw [World.scalar?, hm], hs⟩
    | position | output | slot | chain => exact hs.elim
  · cases he

theorem Agrees.axes {x : Register} {p : Position} (hp : position? regs x = some p) :
    ∃ axes, w.axes? x = some axes ∧ Forall₂ (V.Reads r) p.indices axes := by
  unfold position? at hp
  split at hp
  next p' hi =>
    cases hp
    obtain ⟨m, hm, hs⟩ := h.meaning hi
    cases m with
    | position axes => exact ⟨axes, by rw [World.axes?, hm], hs⟩
    | scalar | output | slot | chain => exact hs.elim
  · cases hp

theorem Agrees.output {x : Register} {t : OutputTensor} (ht : output? regs x = some t) :
    w.output? x = some (t.index, t.type) := by
  unfold output? at ht
  split at ht
  next t' hi =>
    cases ht
    obtain ⟨m, hm, hs⟩ := h.meaning hi
    cases m with
    | output index type =>
      obtain ⟨rfl, rfl⟩ := hs
      rw [World.output?, hm]
    | scalar | position | slot | chain => exact hs.elim
  · cases ht

theorem Agrees.slot {x : Register} (hv : slot? regs x = some v) :
    w.slot? x = some (v.id, v.type) := by
  unfold slot? at hv
  split at hv
  next v' hi =>
    cases hv
    obtain ⟨m, hm, hs⟩ := h.meaning hi
    cases m with
    | slot index type =>
      obtain ⟨rfl, rfl⟩ := hs
      rw [World.slot?, hm]
    | scalar | position | output | chain => exact hs.elim
  · cases hv

theorem Agrees.chain {x : Register} {key : Nat} (hk : chain? regs x = some key) :
    w.chain? x = some key := by
  unfold chain? at hk
  split at hk
  next key' hi =>
    cases hk
    obtain ⟨m, hm, hs⟩ := h.meaning hi
    cases m with
    | chain key => rw [World.chain?, hm, show _ = key from hs]
    | scalar | position | output | slot => exact hs.elim
  · cases hk

theorem Agrees.argument {a : Argument} (ho : operand? regs a = some o) (other : ElementType) :
    ∃ m, w.argument? other a = some m ∧ V.OperandReads r other o m := by
  cases a with
  | literal v =>
    cases ho
    exact ⟨_, rfl, rfl⟩
  | register x =>
    obtain ⟨e, he, rfl⟩ := Option.map_eq_some_iff.1 ho
    exact h.scalar he

theorem Agrees.arguments {args : List Argument} (ho : args.mapM (operand? regs) = some os)
    (other : ElementType) :
    ∃ ms, args.mapM (w.argument? other) = some ms ∧
      Forall₂ (V.OperandReads r other) os ms := by
  induction args generalizing os with
  | nil =>
    cases ho
    exact ⟨[], rfl, .nil⟩
  | cons a rest ih =>
    rw [mapM_cons] at ho
    obtain ⟨o, ha, ho⟩ := Option.bind_eq_some_iff.1 ho
    obtain ⟨os', hrest, ho⟩ := Option.bind_eq_some_iff.1 ho
    cases ho
    obtain ⟨m, hm, hr⟩ := h.argument ha other
    obtain ⟨ms, hms, hrs⟩ := ih hrest
    refine ⟨m :: ms, ?_, .cons hr hrs⟩
    rw [mapM_cons, hm, hms]
    rfl

theorem Agrees.subscript {place : Subscript} (ho : subscript? regs place = some os) :
    ∃ ms, w.subscript? place = some ms ∧ Forall₂ (V.OperandReads r .i64) os ms := by
  cases place with
  | position x =>
    obtain ⟨p, hp, rfl⟩ := Option.map_eq_some_iff.1 ho
    obtain ⟨axes, ha, hr⟩ := h.axes hp
    exact ⟨axes, ha, forall₂_map_left_iff.2 hr⟩
  | indices args => exact h.arguments ho .i64

theorem Agrees.bind {m : Meaning} (hs : V.Stands r i m) (result : Option String) :
    V.Agrees (regs.bind result (some i)) r (w.bind result (some m)) := by
  cases result with
  | none => exact h
  | some name =>
    refine { h with registers := fun other j hj => ?_ }
    change (_ :: _).lookup other = some j at hj
    change ∃ n, (_ :: _).lookup other = some n ∧ _
    rw [lookup_cons] at hj ⊢
    split at hj
    · cases hj
      exact ⟨m, rfl, hs⟩
    · exact h.registers other j hj

end

/-! Expressions. -/

theorem reads_pushAxes {σ : Site} (hσ : σ.position = V.around.position) (axis n : Nat) :
    Forall₂ (V.Reads (r.pushAxes axis n).2) (r.pushAxes axis n).1
      ((range' axis n).map σ.axis) := by
  induction n generalizing r axis with
  | zero => exact .nil
  | succ n ih =>
    have hread : V.Reads (r.pushNode (.position axis) .i64 []).2
        (r.pushNode (.position axis) .i64 []).1 (σ.axis axis) := by
      rw [Site.axis, hσ]
      exact reads_inline rfl .i64 []
    exact .cons (hread.built (built_pushAxes _ _ _)) (ih (axis + 1))

/-! Statements. -/

theorem now_pushStmt (V : View) (r : Recording) (s : Stmt) :
    V.now (r.pushStmt s) = if V.active then V.around.step (V.now r) s else V.now r := by
  unfold now
  split
  · rw [pushStmt, stepBlock_append, stepBlock_singleton]
  · rfl

theorem sized_now (V : View) (r : Recording) : Sized V.entry (V.now r) := by
  unfold now
  split
  · exact V.around.sized_stepBlock _ _
  · exact .rfl

theorem Agrees.registers_of_values (h : V.Agrees regs r w) (hn : q.nodes = r.nodes)
    (hv : (V.now q).values = (V.now r).values) (name : String) (i : Item)
    (hi : regs.lookup name = some i) :
    ∃ m, w.registers.lookup name = some m ∧ V.Stands q i m := by
  obtain ⟨m, hm, hs⟩ := h.registers name i hi
  refine ⟨m, hm, hs.carry ⟨rfl, fun e node he => ⟨node.scope, ?_, fun hl => ⟨hl, by rw [hv]⟩⟩⟩⟩
  rw [hn]
  exact he

theorem Agrees.skip (h : V.Agrees regs r w) (ha : V.active = false) (s : Stmt) :
    V.Agrees regs (r.pushStmt s) w := by
  have hnow : V.now (r.pushStmt s) = V.now r := by
    rw [now_pushStmt, ha]
    rfl
  refine ⟨h.registers_of_values rfl (by rw [hnow]), h.slots, ?_, h.types, h.domain, ?_⟩
  · rw [hnow]
    exact h.values
  · rw [hnow]
    exact h.outputs

theorem getD_setIfInBounds (xs : Array Value) (i j : Nat) (v : Value) (hi : i < xs.size) :
    (xs.setIfInBounds i v).getD j default = if i = j then v else xs.getD j default := by
  rw [Array.getD_eq_getD_getElem?, Array.getD_eq_getD_getElem?, Array.getElem?_setIfInBounds]
  split <;> simp_all

theorem slots_setVariable (ho : V.Of r) {v : VarId} (hs : V.around.graph.slots[v]? = some type)
    (e : NodeId) (u : VarId) :
    (V.around.setVariable (V.now r) v e).slots.getD u default =
      if v = u then V.around.valueAs (V.now r) e type else (V.now r).slots.getD u default := by
  have hlt : v < (V.now r).slots.size := by
    rw [(V.sized_now r).slots, ho.slots]
    exact (List.getElem?_eq_some_iff.1 hs).1
  rw [setVariable, hs]
  exact getD_setIfInBounds _ _ _ _ hlt

section
variable {x : Expr} {m : Scalar} (ho : V.Of r) (h : V.Agrees regs r w) (hx : V.Reads r x m)
  (hu : r.operandError? x = none)
include ho h hx hu

theorem Agrees.declare (hfit : V.around.Fits (r.addSlot type x.id)) :
    ∃ w', w.declare V.active type m = some w' ∧ V.Agrees regs (r.addSlot type x.id) w' ∧
      w'.chains = w.chains := by
  have hgraph : V.around.graph.slots[r.slots.size]? = some type :=
    hfit.slots _ ⟨type, r.current.scope⟩ Array.getElem?_push_size
  have hnow : V.now (r.addSlot type x.id) =
      if V.active then V.around.setVariable (V.now r) r.slots.size x.id else V.now r := by
    unfold addSlot
    rw [now_pushStmt, step]
    rfl
  have hcases {v : VarId} {slot : Slot} (hv : (r.addSlot type x.id).slots[v]? = some slot) :
      r.slots[v]? = some slot ∧ v < r.slots.size ∨
        v = r.slots.size ∧ slot.scope = r.current.scope := by
    change (r.slots.push _)[v]? = some slot at hv
    rw [Array.getElem?_push] at hv
    split at hv
    · exact .inr ⟨by assumption, by cases hv; rfl⟩
    · exact .inl ⟨hv, (Array.getElem?_eq_some_iff.1 hv).1⟩
  cases ha : V.active with
  | false =>
    rw [ha, if_neg Bool.false_ne_true] at hnow
    refine ⟨{ w with slots := w.slots ++ [none] }, rfl, ?_, rfl⟩
    refine ⟨h.registers_of_values rfl (by rw [hnow]), ?_, fun v slot hv hl => ?_, h.types,
      h.domain, ?_⟩
    · change (w.slots ++ [none]).length = (r.slots.push _).size
      simp [h.slots]
    · rcases hcases hv with ⟨hold, hlt⟩ | ⟨-, hscope⟩
      · rw [hnow, ← h.values v slot hold hl]
        exact getElem?_append_left (h.slots ▸ hlt)
      · exact absurd (hscope ▸ hl) (ho.skipped ha)
    · rw [hnow]
      exact h.outputs
  | true =>
    rw [ha, if_pos rfl] at hnow
    have hval := hx.as?_eq ho (hfit.mono (grows_addSlot r type x.id)) ha hu type
    refine ⟨{ w with slots := w.slots ++ [some (V.around.valueAs (V.now r) x.id type)] },
      by rw [World.declare, if_pos rfl, hval]; rfl, ?_, rfl⟩
    refine ⟨h.registers_of_values rfl (by rw [hnow]; rfl), ?_, fun v slot hv hl => ?_, h.types,
      h.domain, ?_⟩
    · change (w.slots ++ [_]).length = (r.slots.push _).size
      simp [h.slots]
    · rw [hnow, slots_setVariable ho hgraph]
      rcases hcases hv with ⟨hold, hlt⟩ | ⟨rfl, -⟩
      · rw [if_neg (Nat.ne_of_gt hlt), ← h.values v slot hold hl]
        exact getElem?_append_left (h.slots ▸ hlt)
      · rw [if_pos rfl, ← h.slots]
        exact getElem?_concat_length
    · rw [hnow]
      exact h.outputs

theorem Agrees.assign {v : Variable} {slot : Slot} (hv : r.slots[v.id]? = some slot)
    (hfit : V.around.Fits r) (ht : slot.type = v.type) :
    ∃ w', w.assign V.active v.id v.type m = some w' ∧
      V.Agrees regs (r.pushStmt (.assign v.id x.id)) w' ∧ w'.chains = w.chains := by
  have hgraph : V.around.graph.slots[v.id]? = some v.type := ht ▸ hfit.slots _ slot hv
  have hnow := V.now_pushStmt r (.assign v.id x.id)
  rw [step] at hnow
  cases ha : V.active with
  | false => exact ⟨w, rfl, h.skip ha _, rfl⟩
  | true =>
    rw [ha, if_pos rfl] at hnow
    have hval := hx.as?_eq ho hfit ha hu v.type
    refine ⟨{ w with slots := w.slots.set v.id (some (V.around.valueAs (V.now r) x.id v.type)) },
      by rw [World.assign, if_pos rfl, hval]; rfl, ?_, rfl⟩
    refine ⟨h.registers_of_values rfl (by rw [hnow]; rfl), ?_, fun u slot' hu' hl => ?_, h.types,
      h.domain, ?_⟩
    · change (w.slots.set _ _).length = r.slots.size
      rw [length_set, h.slots]
    · rw [hnow, slots_setVariable ho hgraph]
      change (w.slots.set _ _)[u]? = _
      have hold := h.values u slot' hu' hl
      rw [getElem?_set]
      split
      · have hlt : v.id < w.slots.length := h.slots ▸ (Array.getElem?_eq_some_iff.1 hv).1
        rw [if_pos hlt]
      · exact hold
    · rw [hnow]
      exact h.outputs

theorem Agrees.store {t : OutputTensor} {xs : List Expr} {ms : List Scalar}
    (hxs : Forall₂ (V.Reads r) xs ms) (hus : ∀ x ∈ xs, r.operandError? x = none)
    (hfit : V.around.Fits r) (ht : r.outputs[t.index]? = some t.type) :
    ∃ w', w.store V.active t.index t.type ms m = some w' ∧
      V.Agrees regs (r.pushStmt (.store t.index (xs.map Expr.id) x.id)) w' ∧
      w'.chains = w.chains := by
  have hgraph := hfit.outputs _ _ ht
  have hnow := V.now_pushStmt r (.store t.index (xs.map Expr.id) x.id)
  rw [step, hgraph] at hnow
  cases ha : V.active with
  | false => exact ⟨w, rfl, h.skip ha _, rfl⟩
  | true =>
    rw [ha, if_pos rfl] at hnow
    have hoffset := offset?_eq ho hfit ha hxs hus t.type
    have hval := hx.as?_eq ho hfit ha hu t.type.element
    dsimp only at hnow
    generalize V.around.offset (V.now r) t.type (xs.map Expr.id) = offset at hoffset hnow
    generalize V.around.valueAs (V.now r) x.id t.type.element = v at hval hnow
    refine ⟨{ w with outputs := w.outputs.modify t.index fun b => Buffer.put b offset v },
      by rw [World.store, if_pos rfl, hoffset, hval]; rfl, ?_, rfl⟩
    refine ⟨h.registers_of_values rfl (by rw [hnow]), h.slots, ?_, h.types, h.domain, ?_⟩
    · rw [hnow]
      exact h.values
    · rw [hnow, h.outputs]

end

/-! Calls. -/

section
variable (ho : V.Of r) (h : V.Agrees regs r w)
include ho h

theorem Agrees.value (hv : r.OwnsSlot v) (ha : V.active = true) (hu : r.variableError? v = none) :
    w.value? v.id = some ((V.now r).slots.getD v.id default) := by
  obtain ⟨slot, hs, -, hvis⟩ := slot_of_variableError? hv hu
  rw [World.value?, h.values v.id slot hs (ho.active ha _ ((isVisible_iff ho.nested).1 hvis))]
  rfl

theorem Agrees.call_declare (hx : V.OperandReads r type o m)
    (herr : (r.declare o type).2.error = none) (hfit : V.around.Fits (r.declare o type).2) :
    ∃ w', w.declare V.active type m = some w' ∧ V.Agrees regs (r.declare o type).2 w' ∧
      w'.chains = w.chains := by
  obtain ⟨hu, heq⟩ := declare_eq herr
  rw [heq] at herr hfit ⊢
  have hg := grows_addSlot (r.operand o type).2 type (r.operand o type).1.id
  obtain ⟨m', hm, hr⟩ := yields_operand hx (hg.error herr) (hfit.mono hg)
  cases hm
  have hb := built_operand r o type
  exact (h.pass (passes_of_built hb)).declare (ho.built hb) hr hu hfit

theorem Agrees.call_assign (hv : r.OwnsSlot v) (hx : V.Reads r x m)
    (herr : (r.assign v x).error = none) (hfit : V.around.Fits (r.assign v x)) :
    ∃ w', w.assign V.active v.id v.type m = some w' ∧ V.Agrees regs (r.assign v x) w' ∧
      w'.chains = w.chains := by
  obtain ⟨hvar, hu, heq⟩ := assign_eq herr
  rw [heq] at hfit ⊢
  obtain ⟨slot, hs, ht, -⟩ := slot_of_variableError? hv hvar
  exact h.assign ho hx hu hs (hfit.mono (grows_pushStmt r _)) ht

theorem Agrees.call_store (ht : r.OwnsOutput t) (hxs : Forall₂ (V.Reads r) xs ms)
    (hx : V.Reads r x m) (herr : (r.store t xs x).error = none)
    (hfit : V.around.Fits (r.store t xs x)) :
    ∃ w', w.store V.active t.index t.type ms m = some w' ∧ V.Agrees regs (r.store t xs x) w' ∧
      w'.chains = w.chains := by
  obtain ⟨howner, hu, heq⟩ := store_eq herr
  rw [heq] at hfit ⊢
  have hall := (r.operandsError?_eq_none_iff _).1 hu
  exact h.store ho hx (hall x mem_cons_self) hxs
    (fun y hy => hall y (mem_cons_of_mem _ hy)) (hfit.mono (grows_pushStmt r _)) (ht howner)

theorem Agrees.call_setElement (ht : r.OwnsOutput t) (hos : Forall₂ (V.OperandReads r .i64) os ms)
    (hx : V.OperandReads r t.type.element o m) (herr : (r.setElement t os o).error = none)
    (hfit : V.around.Fits (r.setElement t os o)) :
    ∃ w', w.store V.active t.index t.type ms m = some w' ∧
      V.Agrees regs (r.setElement t os o) w' ∧ w'.chains = w.chains := by
  unfold setElement at herr hfit ⊢
  dsimp only at herr hfit ⊢
  have hidx := built_indices r (.output t.index) t.type.shape.rank os
  have hreads := @reads_indices V r os ms hos (.output t.index) t.type.shape.rank
  generalize r.indices (.output t.index) t.type.shape.rank os = p at *
  obtain ⟨xs, r₁⟩ := p
  have hval := built_operand r₁ o t.type.element
  have hg := grows_store herr
  have hfit' := hfit.mono hg
  have hxs := hreads (hval.grows.error (hg.error herr)) (hfit'.mono hval.grows)
  obtain ⟨m', hm, hr⟩ := yields_operand (hx.built hidx) (hg.error herr) hfit'
  cases hm
  have hb := hidx.trans hval
  exact (h.pass (passes_of_built hb)).call_store (ho.built hb) (ht.grow hb.grows)
    (hxs.imp fun x m hx => hx.built hval) hr herr hfit

theorem Agrees.call_update {op : BinaryOp} (hv : r.OwnsSlot v) (hx : V.OperandReads r v.type o m)
    (herr : (r.update v op o).error = none) (hfit : V.around.Fits (r.update v op o)) :
    ∃ x z w', Scalar.built V.active v.type (w.value? v.id) = some x ∧
      Scalar.binary V.active op x m = some z ∧ w.assign V.active v.id v.type z = some w' ∧
      V.Agrees regs (r.update v op o) w' ∧ w'.chains = w.chains := by
  unfold update at herr hfit ⊢
  dsimp only at herr hfit ⊢
  have hget := built_get r v
  have hbin := built_binaryWith (r.get v).2 op (r.get v).1 o
  have hg := grows_assign herr
  have hfit' := hfit.mono hg
  obtain ⟨x, hxv, hxr⟩ := yields_get ho (fun ha hu => h.value ho hv ha hu)
    (hbin.grows.error (hg.error herr)) (hfit'.mono hbin.grows)
  obtain ⟨z, hz, hzr⟩ := yields_binaryWith (ho.built hget) hxr (hx.built hget) op
    (hg.error herr) hfit'
  have hb := hget.trans hbin
  obtain ⟨w', hw, hagree, hchains⟩ := (h.pass (passes_of_built hb)).call_assign (ho.built hb)
    (hv.grow hb.grows) hzr herr hfit
  exact ⟨x, z, w', hxv, hz, hw, hagree, hchains⟩

end

/-- The direct reading of an instruction leads to a world that agrees with what the
recording has become. -/
def Acts (V : View) (σ : Site) (w : World) (action : Action) (regs : Registers)
    (item : Option Item) (q : Recording) : Prop :=
  ∃ w' m, σ.act V.active w action = some (w', m) ∧
    (∀ result, V.Agrees (regs.bind result item) q (w'.bind result m)) ∧ w'.chains = w.chains

section
variable {σ : Site} {action : Action}

theorem acts_of_yield (h : V.Agrees regs r w) {p : Expr × Recording} (hb : r.Built p.2)
    {m? : Option Scalar} (hy : V.Yields p m?) (herr : p.2.error = none) (hfit : V.around.Fits p.2)
    (hact : ∀ m, m? = some m → σ.act V.active w action = some (w, some (.scalar m))) :
    V.Acts σ w action regs (some (.expr p.1)) p.2 := by
  obtain ⟨m, hm, hr⟩ := hy herr hfit
  refine ⟨w, _, hact m hm, fun result => ?_, rfl⟩
  exact (h.pass (passes_of_built hb)).bind (i := .expr p.1) (m := .scalar m) hr result

theorem acts_of_agrees {w' : World} (hact : σ.act V.active w action = some (w', none))
    (h : V.Agrees regs q w') (hc : w'.chains = w.chains) : V.Acts σ w action regs none q := by
  refine ⟨w', none, hact, fun result => ?_, hc⟩
  cases result <;> exact h

theorem Agrees.model {given : Given → Option InputTensor} (h : V.Agrees regs r w)
    (hσ : σ.Faces V.around given) {m : Model} {type : TensorType}
    (hm : modelType? given regs m = some type) : σ.model? w m = some type := by
  cases m with
  | given t =>
    obtain ⟨tensor, ht, rfl⟩ := Option.map_eq_some_iff.1 hm
    rw [Site.model?, hσ.given t tensor ht]
    rfl
  | output x =>
    obtain ⟨t, ht, rfl⟩ := Option.map_eq_some_iff.1 hm
    rw [Site.model?, h.output ht]
    rfl
  | type t => exact hm

theorem Agrees.outputLike (h : V.Agrees regs r w) (type : TensorType) (result : Option String) :
    V.Agrees (regs.bind result (some (.output (r.outputLike type).1))) (r.outputLike type).2
      (World.bind { w with types := w.types ++ [type] } result
        (some (.output w.types.length type))) := by
  have hsame : V.Agrees regs (r.outputLike type).2 { w with types := w.types ++ [type] } :=
    ⟨h.registers_of_values rfl rfl, h.slots, h.values, by rw [h.types]; rfl, h.domain, h.outputs⟩
  refine hsame.bind (i := .output _) (m := .output _ _) ⟨?_, rfl⟩ result
  rw [h.types]
  rfl

theorem acts_positionIn (h : V.Agrees regs r w) (hσ : σ.position = V.around.position)
    {shape : Shape} {p : Position × Recording} (hp : r.positionIn shape = .ok p) :
    V.Acts σ w (.positionIn shape) regs (some (.position p.1)) p.2 := by
  unfold positionIn at hp
  split at hp
  · cases hp
  split at hp
  · cases hp
  cases hp
  have hset : V.Agrees regs { r with domain := some shape } { w with domain := some shape } :=
    ⟨h.registers_of_values rfl rfl, h.slots, h.values, h.types, rfl, h.outputs⟩
  refine ⟨{ w with domain := some shape }, _, rfl, fun result => ?_, rfl⟩
  refine (hset.pass (passes_of_built (built_pushAxes _ 0 shape.rank))).bind ?_ result
  rw [range_eq_range']
  exact reads_pushAxes hσ 0 shape.rank

end

theorem Agrees.leaf {given : Given → Option InputTensor} {σ : Site} {s : Draft} {action : Action}
    {call : Call} {item : Option Item} (hσ : σ.Faces V.around given) (hs : s.Holds)
    (ho : V.Of s.recording) (h : V.Agrees regs s.recording w)
    (hl : Leaf given regs s action call item) (hc : s.Admits call)
    (herr : (s.perform call).recording.error = none)
    (hfit : V.around.Fits (s.perform call).recording) :
    V.Acts σ w action regs item (s.perform call).recording := by
  cases hl with
  | @element t place tensor os ht hplace =>
    obtain ⟨ms, hms, hreads⟩ := h.subscript hplace
    refine acts_of_yield h (built_element _ tensor os) (yields_element ho hreads
      (getElem?_of_mem_inputTensors hc.1) hσ.inputs) herr hfit fun m hm => ?_
    simp [Site.act, hσ.given t tensor ht, hms, hm]
  | constant v type =>
    refine acts_of_yield h (built_constant _ v type) (yields_constant v type) herr hfit
      fun m hm => ?_
    rw [Site.act, ← Option.some.inj hm]
  | @unary op arg x hx =>
    obtain ⟨m, hm, hreads⟩ := h.scalar hx
    refine acts_of_yield h (built_unary _ op x) (yields_unary ho hreads op) herr hfit
      fun z hz => ?_
    simp [Site.act, hm, hz]
  | @binary op lhs rhs x o hx hrhs =>
    obtain ⟨mx, hmx, hreads⟩ := h.scalar hx
    obtain ⟨my, hmy, hreads'⟩ := h.argument hrhs x.type
    refine acts_of_yield h (built_binaryWith _ op x o) (yields_binaryWith ho hreads hreads' op)
      herr hfit fun z hz => ?_
    have hsides : w.sides? (.register lhs) rhs = some (mx, my) := by
      simp [World.sides?, hmx, hreads.1, hmy]
    simp [Site.act, hsides, hz]
  | @binaryFrom op v rhs y hy =>
    obtain ⟨my, hmy, hreads⟩ := h.scalar hy
    refine acts_of_yield h (built_binaryFrom _ op v y) (yields_binaryFrom ho rfl hreads op)
      herr hfit fun z hz => ?_
    have hsides : w.sides? (.literal v) (.register rhs) =
        some (.literal (v.cast (v.weakType y.type)) (v.weakType y.type), my) := by
      simp [World.sides?, World.argument?, hmy, hreads.1]
    simp [Site.act, hsides, hz]
  | @cast arg type x hx =>
    obtain ⟨m, hm, hreads⟩ := h.scalar hx
    refine acts_of_yield h (built_cast _ x type) (yields_cast ho hreads type) herr hfit
      fun z hz => ?_
    simp [Site.act, hm, hz]
  | @output type p hp =>
    have hperform : (s.perform (.output type)).recording = p.2 := by
      simp only [Draft.perform, hp]
      rfl
    rw [hperform]
    unfold Recording.output at hp
    split at hp
    · cases hp
    · cases hp
      exact ⟨_, _, rfl, h.outputLike type, rfl⟩
  | @outputLike m type hm =>
    refine ⟨_, _, ?_, h.outputLike type, rfl⟩
    simp [Site.act, h.model hσ hm]
  | @positionIn shape p hp =>
    have hperform : (s.perform (.positionIn shape)).recording = p.2 := by
      simp only [Draft.perform, hp]
    rw [hperform]
    exact acts_positionIn h hσ.position hp
  | @declare init type o hinit =>
    obtain ⟨m, hm, hreads⟩ := h.argument hinit type
    obtain ⟨w', hw, hagree, hchains⟩ := h.call_declare ho hreads herr hfit
    refine ⟨w', some (.slot w.slots.length type), ?_, fun result => ?_, hchains⟩
    · simp [Site.act, hm, hw]
    · refine hagree.bind (i := .slot _) (m := .slot _ _) ⟨?_, rfl⟩ result
      rw [h.slots, ← (built_operand s.recording o type).slots]
      rfl
  | @get x v hv =>
    have hown := hs.slots _ hc
    refine acts_of_yield h (built_get _ v) (yields_get ho fun ha hu => h.value ho hown ha hu)
      herr hfit fun z hz => ?_
    simp [Site.act, h.slot hv, hz]
  | @assign x value v o hv hvalue =>
    obtain ⟨m, hm, hreads⟩ := h.argument hvalue v.type
    have hown := hs.slots _ hc.1
    have hb := built_operand s.recording o v.type
    have hg := grows_assign (r := (s.recording.operand o v.type).2) herr
    obtain ⟨m', hm', hr⟩ := yields_operand hreads (hg.error herr) (hfit.mono hg)
    cases hm'
    obtain ⟨w', hw, hagree, hchains⟩ := (h.pass (passes_of_built hb)).call_assign (ho.built hb)
      (hown.grow hb.grows) hr herr hfit
    refine acts_of_agrees ?_ hagree hchains
    simp [Site.act, h.slot hv, hm, hw]
  | @update x op value v o hv hvalue =>
    obtain ⟨m, hm, hreads⟩ := h.argument hvalue v.type
    obtain ⟨mx, z, w', hx, hz, hw, hagree, hchains⟩ :=
      h.call_update ho (hs.slots _ hc.1) hreads herr hfit
    refine acts_of_agrees ?_ hagree hchains
    simp [Site.act, h.slot hv, hx, hm, hz, hw]
  | @store x place value t os o ht hplace hvalue =>
    obtain ⟨ms, hms, hreads⟩ := h.subscript hplace
    obtain ⟨m, hm, hread⟩ := h.argument hvalue t.type.element
    obtain ⟨w', hw, hagree, hchains⟩ := h.call_setElement ho (hs.outputs _ hc.1)
      hreads hread herr hfit
    refine acts_of_agrees ?_ hagree hchains
    simp [Site.act, h.output ht, hms, hm, hw]

end View
end TensorKernel

import Mathlib.Logic.Relation
import TensorKernel.Tape.Basic

/-! The order of a tape. Operands stand before their users and the outputs of a call stand
together, so that a value depends on earlier ones only and a call acts at its first output. -/
namespace TensorKernel

variable {V F C : Type} {c : TapeCall C} {o output first count : Nat} {node : TapeNode V F}

/-- The operands, slot by slot. Those of a result are the inputs of its call. -/
def TapeOp.operands : TapeOp F → List Nat
  | .constant | .parameter | .result _ _ => []
  | .add a b | .mul a b => [a, b]
  | .square a | .scale a _ => [a]

def TapeOp.isResult : TapeOp F → Bool
  | .result _ _ => true
  | _ => false

namespace Tape

variable {t : Tape V F C} {id k a : Nat}

def operands (t : Tape V F C) (id : Nat) : List Nat :=
  match t.nodes[id]? with
  | none => []
  | some ⟨_, .result call _⟩ =>
    match t.calls[call]? with
    | none => []
    | some c => c.inputs
  | some ⟨_, op⟩ => op.operands

/-- The values whose gradients are passed on at a node: all outputs of a call at the first of
them, and none at the others. -/
def group (t : Tape V F C) (id : Nat) : List Nat :=
  match t.nodes[id]? with
  | none => []
  | some ⟨_, .result call 0⟩ =>
    match t.calls[call]? with
    | none => []
    | some c => c.outputs
  | some ⟨_, .result _ (_ + 1)⟩ => []
  | some _ => [id]

/-- The value `output` is, or was computed from, the value `id`. -/
def Depends (t : Tape V F C) : Nat → Nat → Prop :=
  Relation.ReflTransGen fun k a => a ∈ t.operands k

/-- Some value that the node `k` passes a gradient of is one that `output` depends on. -/
def Consumes (t : Tape V F C) (output k : Nat) : Prop := ∃ o ∈ t.group k, t.Depends output o

/-- The outputs of a call stand together, after its inputs. -/
structure CallPlaced (t : Tape V F C) (call : Nat) (c : TapeCall C) (first count : Nat) : Prop where
  outputs : c.outputs = List.range' first count
  inputs : ∀ a ∈ c.inputs, a < first
  bound : first + count ≤ t.nodes.size
  nodes : ∀ j < count, ∃ value, t.nodes[first + j]? = some ⟨value, .result call j⟩

structure Ordered (t : Tape V F C) : Prop where
  operand : ∀ (id : Nat) (node : TapeNode V F), t.nodes[id]? = some node →
    ∀ a ∈ node.op.operands, a < id
  result : ∀ (id : Nat) (value : V) (call j : Nat),
    t.nodes[id]? = some ⟨value, .result call j⟩ →
      ∃ c, t.calls[call]? = some c ∧ c.outputs[j]? = some id
  placed : ∀ (call : Nat) (c : TapeCall C), t.calls[call]? = some c →
    ∃ first count, t.CallPlaced call c first count
  /-- Later calls have later outputs. -/
  increasing : ∀ (call call' : Nat) (c c' : TapeCall C), t.calls[call]? = some c →
    t.calls[call']? = some c' → call < call' → ∀ o ∈ c.outputs, ∀ o' ∈ c'.outputs, o < o'

/-! ### Reading an ordered tape -/

theorem operands_eq (hn : t.nodes[id]? = some node) (hop : node.op.isResult = false) :
    t.operands id = node.op.operands := by
  obtain ⟨value, op⟩ := node
  unfold operands
  rw [hn]
  cases op <;> first | rfl | cases hop

theorem operands_result {value : V} {call j : Nat}
    (hn : t.nodes[id]? = some ⟨value, .result call j⟩) (hc : t.calls[call]? = some c) :
    t.operands id = c.inputs := by
  unfold operands
  simp only [hn, hc]

theorem group_eq (hn : t.nodes[id]? = some node) (hop : node.op.isResult = false) :
    t.group id = [id] := by
  obtain ⟨value, op⟩ := node
  unfold group
  rw [hn]
  cases op <;> first | rfl | cases hop

theorem group_first {value : V} {call : Nat} (hn : t.nodes[id]? = some ⟨value, .result call 0⟩)
    (hc : t.calls[call]? = some c) : t.group id = c.outputs := by
  unfold group
  simp only [hn, hc]

theorem group_rest {value : V} {call j : Nat}
    (hn : t.nodes[id]? = some ⟨value, .result call (j + 1)⟩) : t.group id = [] := by
  unfold group
  simp only [hn]

theorem node_cases (t : Tape V F C) (id : Nat) : t.nodes[id]? = none ∨
    (∃ value call j, t.nodes[id]? = some ⟨value, .result call j⟩) ∨
    ∃ node, t.nodes[id]? = some node ∧ node.op.isResult = false := by
  cases hn : t.nodes[id]? with
  | none => exact .inl rfl
  | some node =>
    obtain ⟨value, op⟩ := node
    cases op with
    | result call j => exact .inr (.inl ⟨value, call, j, rfl⟩)
    | _ => exact .inr (.inr ⟨_, rfl, rfl⟩)

theorem CallPlaced.mem_outputs {call : Nat} (h : t.CallPlaced call c first count) :
    o ∈ c.outputs ↔ first ≤ o ∧ o < first + count := by
  rw [h.outputs, List.mem_range'_1]

theorem CallPlaced.node_of_mem {call : Nat} (h : t.CallPlaced call c first count)
    (ho : o ∈ c.outputs) : ∃ value, t.nodes[o]? = some ⟨value, .result call (o - first)⟩ := by
  obtain ⟨hle, hlt⟩ := h.mem_outputs.1 ho
  obtain ⟨value, hn⟩ := h.nodes (o - first) (by omega)
  rw [Nat.add_sub_cancel' hle] at hn
  exact ⟨value, hn⟩

namespace Ordered

theorem call_of_result (h : t.Ordered) {value : V} {call j : Nat}
    (hn : t.nodes[id]? = some ⟨value, .result call j⟩) :
    ∃ c first count, t.calls[call]? = some c ∧ t.CallPlaced call c first count ∧
      id = first + j ∧ j < count := by
  obtain ⟨c, hc, hj⟩ := h.result id value call j hn
  obtain ⟨first, count, hp⟩ := h.placed call c hc
  have hlt : j < count := by
    have hbound := (List.getElem?_eq_some_iff.1 hj).1
    rwa [hp.outputs, List.length_range'] at hbound
  rw [hp.outputs, List.getElem?_range' hlt, Nat.one_mul] at hj
  exact ⟨c, first, count, hc, hp, (Option.some.inj hj).symm, hlt⟩

theorem lt_of_mem_operands (h : t.Ordered) (ha : a ∈ t.operands id) : a < id := by
  rcases t.node_cases id with hn | ⟨value, call, j, hn⟩ | ⟨node, hn, hop⟩
  · unfold operands at ha
    rw [hn] at ha
    cases ha
  · obtain ⟨c, first, count, hc, hp, hid, -⟩ := h.call_of_result hn
    rw [operands_result hn hc] at ha
    have hlt := hp.inputs a ha
    omega
  · rw [operands_eq hn hop] at ha
    exact h.operand id node hn a ha

theorem mem_group_cases (h : t.Ordered) (ho : o ∈ t.group k) :
    (∃ node, t.nodes[k]? = some node ∧ node.op.isResult = false ∧ o = k) ∨
    ∃ value call c count, t.nodes[k]? = some ⟨value, .result call 0⟩ ∧ t.calls[call]? = some c ∧
      t.CallPlaced call c k count ∧ o ∈ c.outputs := by
  rcases t.node_cases k with hn | ⟨value, call, j, hn⟩ | ⟨node, hn, hop⟩
  · unfold group at ho
    rw [hn] at ho
    cases ho
  · obtain ⟨c, first, count, hc, hp, rfl, -⟩ := h.call_of_result hn
    cases j with
    | zero =>
      rw [group_first hn hc] at ho
      exact .inr ⟨value, call, c, count, hn, hc, hp, ho⟩
    | succ j =>
      rw [group_rest hn] at ho
      cases ho
  · rw [group_eq hn hop, List.mem_singleton] at ho
    exact .inl ⟨node, hn, hop, ho⟩

theorem le_of_mem_group (h : t.Ordered) (ho : o ∈ t.group k) : k ≤ o := by
  rcases h.mem_group_cases ho with ⟨_, -, -, rfl⟩ | ⟨_, _, _, _, -, -, hp, ho⟩
  · exact Nat.le_refl o
  · exact (hp.mem_outputs.1 ho).1

theorem operands_of_mem_group (h : t.Ordered) (ho : o ∈ t.group k) :
    t.operands o = t.operands k := by
  rcases h.mem_group_cases ho with ⟨_, -, -, rfl⟩ | ⟨value, call, c, count, hn, hc, hp, ho⟩
  · rfl
  · obtain ⟨value', hn'⟩ := hp.node_of_mem ho
    rw [operands_result hn hc, operands_result hn' hc]

theorem exists_group (h : t.Ordered) (ha : a ∈ t.operands id) : ∃ k, id ∈ t.group k := by
  rcases t.node_cases id with hn | ⟨value, call, j, hn⟩ | ⟨node, hn, hop⟩
  · unfold operands at ha
    rw [hn] at ha
    cases ha
  · obtain ⟨c, first, count, hc, hp, hid, hj⟩ := h.call_of_result hn
    obtain ⟨value', hfirst⟩ := hp.nodes 0 (by omega)
    refine ⟨first + 0, ?_⟩
    rw [group_first hfirst hc, hp.mem_outputs]
    omega
  · refine ⟨id, ?_⟩
    rw [group_eq hn hop]
    exact List.mem_singleton_self id

theorem le_of_depends (h : t.Ordered) (hd : t.Depends output id) : id ≤ output := by
  induction hd with
  | refl => exact Nat.le_refl output
  | tail _ ha ih =>
    have hlt := h.lt_of_mem_operands ha
    omega

theorem le_of_consumes (h : t.Ordered) (hc : t.Consumes output k) : k ≤ output := by
  obtain ⟨o, ho, hd⟩ := hc
  exact Nat.le_trans (h.le_of_mem_group ho) (h.le_of_depends hd)

theorem depends_iff (h : t.Ordered) :
    t.Depends output id ↔ id = output ∨ ∃ k, t.Consumes output k ∧ id ∈ t.operands k := by
  constructor
  · intro hd
    rcases Relation.ReflTransGen.cases_tail hd with heq | ⟨o, ho, hid⟩
    · exact .inl heq
    · obtain ⟨k, hk⟩ := h.exists_group hid
      exact .inr ⟨k, ⟨o, hk, ho⟩, h.operands_of_mem_group hk ▸ hid⟩
  · rintro (rfl | ⟨k, ⟨o, ho, hd⟩, hid⟩)
    · exact .refl
    · exact hd.tail (h.operands_of_mem_group ho ▸ hid)

end Ordered

/-! ### Tapes that grow -/

theorem ordered_empty : (empty : Tape V F C).Ordered := by
  constructor <;> simp [empty]

theorem CallPlaced.mono {t' : Tape V F C} {call : Nat} (h : t.CallPlaced call c first count)
    (hnodes : ∀ (i : Nat) node, t.nodes[i]? = some node → t'.nodes[i]? = some node)
    (hsize : t.nodes.size ≤ t'.nodes.size) : t'.CallPlaced call c first count where
  outputs := h.outputs
  inputs := h.inputs
  bound := Nat.le_trans h.bound hsize
  nodes j hj := by
    obtain ⟨value, hn⟩ := h.nodes j hj
    exact ⟨value, hnodes _ _ hn⟩

theorem Ordered.push (h : t.Ordered) (value : V) {op : TapeOp F} (hop : op.isResult = false)
    (ha : ∀ a ∈ op.operands, a < t.nodes.size) : (t.push value op).2.Ordered := by
  have hnode (i : Nat) (node : TapeNode V F)
      (hn : (t.nodes.push ⟨value, op⟩)[i]? = some node) :
      t.nodes[i]? = some node ∨ i = t.nodes.size ∧ node = ⟨value, op⟩ := by
    rw [Array.getElem?_push] at hn
    split at hn
    next heq => exact .inr ⟨heq, (Option.some.inj hn).symm⟩
    next => exact .inl hn
  have hold (i : Nat) (node : TapeNode V F) (hn : t.nodes[i]? = some node) :
      (t.nodes.push ⟨value, op⟩)[i]? = some node := by
    have hlt := (Array.getElem?_eq_some_iff.1 hn).1
    rw [Array.getElem?_push, if_neg (by omega), hn]
  constructor
  · intro i node hn a hmem
    rcases hnode i node hn with hn | ⟨rfl, rfl⟩
    · exact h.operand i node hn a hmem
    · exact ha a hmem
  · intro i value' call j hn
    rcases hnode i _ hn with hn | ⟨-, heq⟩
    · exact h.result i value' call j hn
    · cases heq
      cases hop
  · intro call c hc
    obtain ⟨first, count, hp⟩ := h.placed call c hc
    exact ⟨first, count, hp.mono hold (by simp [Tape.push])⟩
  · exact h.increasing

theorem getElem?_pushResults (t : Tape V F C) (call : Nat) (results : List V) (i : Nat) :
    (t.pushResults call results).nodes[i]? = if i < t.nodes.size then t.nodes[i]? else
      results[i - t.nodes.size]?.map fun value => ⟨value, .result call (i - t.nodes.size)⟩ := by
  rw [pushResults]
  rw [Array.getElem?_append]
  split
  · rfl
  · simp

def withCall (t : Tape V F C) (callee : C) (inputs : List Nat) (results : List V) : Tape V F C :=
  { t.pushResults t.calls.size results with
    calls := t.calls.push ⟨callee, inputs, List.range' t.nodes.size results.length⟩ }

theorem calls_withCall {callee : C} {inputs : List Nat} {results : List V} {call : Nat}
    (hc : (t.withCall callee inputs results).calls[call]? = some c) :
    t.calls[call]? = some c ∨ call = t.calls.size ∧
      c = ⟨callee, inputs, List.range' t.nodes.size results.length⟩ := by
  rw [withCall, Array.getElem?_push] at hc
  split at hc
  next heq => exact .inr ⟨heq, (Option.some.inj hc).symm⟩
  next => exact .inl hc

theorem Ordered.call (h : t.Ordered) (callee : C) {inputs : List Nat} (results : List V)
    (ha : ∀ a ∈ inputs, a < t.nodes.size) : (t.withCall callee inputs results).Ordered := by
  have hnode (i : Nat) (node : TapeNode V F)
      (hn : (t.pushResults t.calls.size results).nodes[i]? = some node) :
      t.nodes[i]? = some node ∨ ∃ j value, i = t.nodes.size + j ∧ j < results.length ∧
        node = ⟨value, .result t.calls.size j⟩ := by
    rw [getElem?_pushResults] at hn
    split at hn
    · exact .inl hn
    next hge =>
      obtain ⟨value, hv, rfl⟩ := Option.map_eq_some_iff.1 hn
      have hlt := (List.getElem?_eq_some_iff.1 hv).1
      exact .inr ⟨i - t.nodes.size, value, by omega, hlt, rfl⟩
  have hold (i : Nat) (node : TapeNode V F) (hn : t.nodes[i]? = some node) :
      (t.pushResults t.calls.size results).nodes[i]? = some node := by
    have hlt := (Array.getElem?_eq_some_iff.1 hn).1
    rw [getElem?_pushResults, if_pos hlt, hn]
  have hsize : (t.withCall callee inputs results).nodes.size
      = t.nodes.size + results.length := by simp [withCall, pushResults]
  constructor
  · intro i node hn a hmem
    rcases hnode i node hn with hn | ⟨j, value, -, -, rfl⟩
    · exact h.operand i node hn a hmem
    · cases hmem
  · intro i value call j hn
    rcases hnode i _ hn with hn | ⟨j', value', hi, hj, heq⟩
    · obtain ⟨c, hc, hj⟩ := h.result i value call j hn
      have hlt := (Array.getElem?_eq_some_iff.1 hc).1
      refine ⟨c, ?_, hj⟩
      rw [withCall, Array.getElem?_push, if_neg (by omega), hc]
    · cases heq
      refine ⟨_, Array.getElem?_push_size, ?_⟩
      rw [List.getElem?_range' hj]
      simp [hi]
  · intro call c hc
    rcases calls_withCall hc with hc | ⟨rfl, rfl⟩
    · obtain ⟨first, count, hp⟩ := h.placed call c hc
      exact ⟨first, count, hp.mono hold (by omega)⟩
    · refine ⟨t.nodes.size, results.length, rfl, ha, by omega, ?_⟩
      intro j hj
      refine ⟨results[j], ?_⟩
      rw [withCall, getElem?_pushResults, if_neg (by omega), Nat.add_sub_cancel_left,
        List.getElem?_eq_getElem hj]
      rfl
  · intro call call' c c' hc hc' hlt o ho o' ho'
    rcases calls_withCall hc' with hc' | ⟨rfl, rfl⟩
    · rcases calls_withCall hc with hc | ⟨rfl, rfl⟩
      · exact h.increasing call call' c c' hc hc' hlt o ho o' ho'
      · have hbound := (Array.getElem?_eq_some_iff.1 hc').1
        omega
    · rcases calls_withCall hc with hc | ⟨rfl, rfl⟩
      · obtain ⟨first, count, hp⟩ := h.placed call c hc
        have hbound := hp.bound
        have hrange := hp.mem_outputs.1 ho
        have hnew := List.mem_range'_1.1 ho'
        omega
      · omega

end Tape
end TensorKernel

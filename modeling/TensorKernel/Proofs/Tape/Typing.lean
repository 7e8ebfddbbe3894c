import Mathlib.Data.Nat.Find
import TensorKernel.Proofs.Tape.Sweep

/-! Types of values and gradients. On a tape whose operations got operands of fitting types a
sweep has only one way to fail: it comes to a call that refuses to pass gradients on. -/
namespace TensorKernel

open List Option

variable {ε V F C τ : Type} {id k : Nat} {ids : List Nat} {t' : Tape V F C} {op : TapeOp F}
  {g : Nat → Option V} {grad : V}

/-- How values are typed: which types they can have, and what calls take and give. -/
structure Typing (V C τ : Type) where
  type : V → τ
  good : τ → Prop
  takes : C → List τ
  gives : C → List τ

/-- Arithmetic on values of one good type succeeds and keeps the type. -/
structure TapeRules.Safe (rules : TapeRules (Except ε) V F C) (T : Typing V C τ) : Prop where
  add : ∀ a b, T.good (T.type a) → T.type b = T.type a →
    ∃ c, rules.add a b = .ok c ∧ T.type c = T.type a
  mul : ∀ a b, T.good (T.type a) → T.type b = T.type a →
    ∃ c, rules.mul a b = .ok c ∧ T.type c = T.type a
  squareGrad : ∀ a b, T.good (T.type a) → T.type b = T.type a →
    ∃ c, rules.squareGrad a b = .ok c ∧ T.type c = T.type a
  scale : ∀ a factor, T.good (T.type a) → ∃ c, rules.scale a factor = .ok c ∧ T.type c = T.type a
  ones : ∀ a, T.good (T.type a) → ∃ c, rules.ones a = .ok c ∧ T.type c = T.type a
  zeros : ∀ a, T.good (T.type a) → ∃ c, rules.zeros a = .ok c ∧ T.type c = T.type a

/-- Results show that operands were of one type, and calls of the types that they take. -/
structure TapeRules.Checks (rules : TapeRules (Except ε) V F C) (T : Typing V C τ) : Prop where
  absent : ∀ id value, rules.absent id ≠ .ok value
  add : ∀ a b c, rules.add a b = .ok c → T.type b = T.type a ∧ T.type c = T.type a
  mul : ∀ a b c, rules.mul a b = .ok c → T.type b = T.type a ∧ T.type c = T.type a
  square : ∀ a c, rules.square a = .ok c → T.type c = T.type a
  scale : ∀ a factor c, rules.scale a factor = .ok c → T.type c = T.type a
  call : ∀ callee inputs results, rules.call callee inputs = .ok results →
    inputs.map T.type = T.takes callee ∧ results.map T.type = T.gives callee ∧
      ∀ type ∈ T.gives callee, T.good type

namespace Tape

variable {rules : TapeRules (Except ε) V F C} {T : Typing V C τ} {refusal : C → Option ε}
  {t : Tape V F C} {grads : Grads V}

def typeAt (T : Typing V C τ) (t : Tape V F C) (id : Nat) : Option τ :=
  t.nodes[id]?.map fun node => T.type node.value

/-- Operations got operands of the type that they give, and calls got what they take. -/
structure Typed (T : Typing V C τ) (t : Tape V F C) : Prop where
  good : ∀ (id : Nat) (node : TapeNode V F), t.nodes[id]? = some node → T.good (T.type node.value)
  operand : ∀ (id : Nat) (node : TapeNode V F), t.nodes[id]? = some node →
    ∀ a ∈ node.op.operands, t.typeAt T a = some (T.type node.value)
  inputs : ∀ (call : Nat) (c : TapeCall C), t.calls[call]? = some c →
    c.inputs.map (t.typeAt T) = (T.takes c.callee).map some
  outputs : ∀ (call : Nat) (c : TapeCall C), t.calls[call]? = some c →
    c.outputs.map (t.typeAt T) = (T.gives c.callee).map some

/-- A call on the tape refuses, or has gradients for what it was given. -/
def Serves (rules : TapeRules (Except ε) V F C) (T : Typing V C τ) (refusal : C → Option ε)
    (t : Tape V F C) : Prop :=
  ∀ (call : Nat) (c : TapeCall C), t.calls[call]? = some c → ∀ inputs grads,
    inputs.map T.type = T.takes c.callee → grads.map T.type = T.gives c.callee →
    match refusal c.callee with
    | none => ∃ parts, rules.callGrad c.callee inputs grads = .ok parts ∧
        parts.map T.type = T.takes c.callee
    | some e => rules.callGrad c.callee inputs grads = .error e

def GradsTyped (T : Typing V C τ) (t : Tape V F C) (g : Nat → Option V) : Prop :=
  ∀ id grad, g id = some grad → t.typeAt T id = some (T.type grad)

/-! ### Tapes that grow -/

theorem typeAt_push_of_some {value : V} {type : τ} (h : t.typeAt T id = some type) :
    (t.push value op).2.typeAt T id = some type := by
  obtain ⟨node, hn, rfl⟩ := map_eq_some_iff.1 h
  have hlt := (Array.getElem?_eq_some_iff.1 hn).1
  rw [typeAt, push]
  rw [Array.getElem?_push, if_neg (by omega), hn]
  rfl

theorem map_typeAt_of_imp {types : List τ} (h : ids.map (t.typeAt T) = types.map some)
    (himp : ∀ id type, t.typeAt T id = some type → t'.typeAt T id = some type) :
    ids.map (t'.typeAt T) = types.map some := by
  rw [← h]
  apply map_congr_left
  intro id hid
  have hmem : t.typeAt T id ∈ types.map some := h ▸ mem_map_of_mem hid
  obtain ⟨type, -, htype⟩ := mem_map.1 hmem
  rw [← htype, himp id type htype.symm]

theorem typed_empty : Typed T (empty : Tape V F C) := by
  constructor <;> simp [empty]

theorem Typed.push (h : t.Typed T) {value : V} (hgood : T.good (T.type value))
    (ha : ∀ a ∈ op.operands, t.typeAt T a = some (T.type value)) : (t.push value op).2.Typed T := by
  have hnode (i : Nat) (node : TapeNode V F)
      (hn : (t.nodes.push ⟨value, op⟩)[i]? = some node) :
      t.nodes[i]? = some node ∨ node = ⟨value, op⟩ := by
    rw [Array.getElem?_push] at hn
    split at hn
    · exact .inr (Option.some.inj hn).symm
    · exact .inl hn
  constructor
  · intro i node hn
    rcases hnode i node hn with hn | rfl
    · exact h.good i node hn
    · exact hgood
  · intro i node hn a hmem
    apply typeAt_push_of_some
    rcases hnode i node hn with hn | rfl
    · exact h.operand i node hn a hmem
    · exact ha a hmem
  · intro call c hc
    exact map_typeAt_of_imp (h.inputs call c hc) fun _ _ => typeAt_push_of_some
  · intro call c hc
    exact map_typeAt_of_imp (h.outputs call c hc) fun _ _ => typeAt_push_of_some

theorem Typed.call (h : t.Typed T) {callee : C} {inputs : List Nat} {results : List V}
    (hinputs : inputs.map (t.typeAt T) = (T.takes callee).map some)
    (hresults : results.map T.type = T.gives callee)
    (hgood : ∀ type ∈ T.gives callee, T.good type) :
    (t.withCall callee inputs results).Typed T := by
  have hold (i : Nat) (node : TapeNode V F) (hn : t.nodes[i]? = some node) :
      (t.pushResults t.calls.size results).nodes[i]? = some node := by
    have hlt := (Array.getElem?_eq_some_iff.1 hn).1
    rw [getElem?_pushResults, if_pos hlt, hn]
  have htype (i : Nat) (type : τ) (hi : t.typeAt T i = some type) :
      (t.withCall callee inputs results).typeAt T i = some type := by
    obtain ⟨node, hn, rfl⟩ := map_eq_some_iff.1 hi
    rw [typeAt, withCall, hold i node hn]
    rfl
  have hnode (i : Nat) (node : TapeNode V F)
      (hn : (t.pushResults t.calls.size results).nodes[i]? = some node) :
      t.nodes[i]? = some node ∨ node.value ∈ results ∧ node.op.operands = [] := by
    rw [getElem?_pushResults] at hn
    split at hn
    · exact .inl hn
    · obtain ⟨value, hv, rfl⟩ := map_eq_some_iff.1 hn
      exact .inr ⟨mem_of_getElem? hv, rfl⟩
  constructor
  · intro i node hn
    rcases hnode i node hn with hn | ⟨hmem, -⟩
    · exact h.good i node hn
    · apply hgood
      rw [← hresults]
      exact mem_map_of_mem hmem
  · intro i node hn a hmem
    rcases hnode i node hn with hn | ⟨-, hnil⟩
    · exact htype _ _ (h.operand i node hn a hmem)
    · rw [hnil] at hmem
      cases hmem
  · intro call c hc
    rcases calls_withCall hc with hc | ⟨-, rfl⟩
    · exact map_typeAt_of_imp (h.inputs call c hc) htype
    · exact map_typeAt_of_imp hinputs htype
  · intro call c hc
    rcases calls_withCall hc with hc | ⟨-, rfl⟩
    · exact map_typeAt_of_imp (h.outputs call c hc) htype
    · dsimp only
      rw [← hresults]
      apply ext_getElem
      · simp
      · intro j hj hj'
        simp only [length_map, length_range'] at hj
        rw [getElem_map, getElem_map, getElem_map, getElem_range', typeAt,
          withCall, getElem?_pushResults]
        simp [hj]

/-- A tape in order, with fitting types. -/
structure Sound (T : Typing V C τ) (t : Tape V F C) : Prop where
  ordered : t.Ordered
  typed : t.Typed T

theorem sound_empty : Sound T (empty : Tape V F C) := ⟨ordered_empty, typed_empty⟩

theorem value_eq_ok (hr : rules.Checks T) {value : V} (h : t.value rules id = .ok value) :
    id < t.nodes.size ∧ t.typeAt T id = some (T.type value) := by
  rw [Tape.value] at h
  cases hn : t.nodes[id]? with
  | none =>
    rw [hn] at h
    exact absurd h (hr.absent id value)
  | some node =>
    rw [hn] at h
    cases h
    exact ⟨(Array.getElem?_eq_some_iff.1 hn).1, by rw [typeAt, hn]; rfl⟩

theorem values_eq_ok (hr : rules.Checks T) {values : List V} (h : t.values rules ids = .ok values) :
    (∀ id ∈ ids, id < t.nodes.size) ∧ ids.map (t.typeAt T) = (values.map T.type).map some := by
  have hall := mapM_eq_ok.1 h
  clear h
  induction hall with
  | nil => simp
  | cons hvalue _ ih =>
    obtain ⟨hlt, htype⟩ := value_eq_ok hr hvalue
    refine ⟨?_, ?_⟩
    · rw [forall_mem_cons]
      exact ⟨hlt, ih.1⟩
    · simp only [map_cons, htype, ih.2]

namespace Sound

variable (h : t.Sound T) (hr : rules.Checks T)
include h

theorem leaf {value : V} {op : TapeOp F} (hgood : T.good (T.type value))
    (hop : op.isResult = false) (hnil : op.operands = []) : (t.push value op).2.Sound T := by
  refine ⟨h.ordered.push value hop ?_, h.typed.push hgood ?_⟩ <;> simp [hnil]

theorem native {value x : V} (hop : op.isResult = false) {a : Nat}
    (ha : t.typeAt T a = some (T.type x)) (hx : T.type value = T.type x)
    (hall : ∀ b ∈ op.operands, b < t.nodes.size ∧ t.typeAt T b = some (T.type x)) :
    (t.push value op).2.Sound T := by
  obtain ⟨node, hn, htype⟩ := map_eq_some_iff.1 ha
  refine ⟨h.ordered.push value hop fun b hb => (hall b hb).1, h.typed.push ?_ ?_⟩
  · rw [hx, ← htype]
    exact h.typed.good a node hn
  · intro b hb
    rw [(hall b hb).2, hx]

include hr

theorem binary {f : V → V → Except ε V} {a b : Nat} (hop : op.isResult = false)
    (hab : op.operands = [a, b])
    (hf : ∀ x y z, f x y = .ok z → T.type y = T.type x ∧ T.type z = T.type x)
    (hput : (do
      let x ← t.value rules a
      let y ← t.value rules b
      return t.push (← f x y) op) = .ok (id, t')) :
    t'.Sound T ∧ ∃ z, t' = (t.push z op).2 := by
  obtain ⟨x, hx, hput⟩ := bind_eq_ok.1 hput
  obtain ⟨y, hy, hput⟩ := bind_eq_ok.1 hput
  obtain ⟨z, hz, hput⟩ := bind_eq_ok.1 hput
  cases hput
  obtain ⟨hxy, hzx⟩ := hf x y z hz
  obtain ⟨ha, hatype⟩ := value_eq_ok hr hx
  obtain ⟨hb, hbtype⟩ := value_eq_ok hr hy
  refine ⟨h.native hop hatype hzx ?_, z, rfl⟩
  simp [hab, ha, hb, hatype, hbtype, hxy]

theorem unary {f : V → Except ε V} {a : Nat} (hop : op.isResult = false) (ha : op.operands = [a])
    (hf : ∀ x z, f x = .ok z → T.type z = T.type x)
    (hput : (do
      let x ← t.value rules a
      return t.push (← f x) op) = .ok (id, t')) :
    t'.Sound T ∧ ∃ z, t' = (t.push z op).2 := by
  obtain ⟨x, hx, hput⟩ := bind_eq_ok.1 hput
  obtain ⟨z, hz, hput⟩ := bind_eq_ok.1 hput
  cases hput
  obtain ⟨hlt, htype⟩ := value_eq_ok hr hx
  refine ⟨h.native hop htype (hf x z hz) ?_, z, rfl⟩
  simp [ha, hlt, htype]

theorem call {callee : C} {inputs : List Nat}
    (hcall : t.call rules callee inputs = .ok (ids, t')) :
    t'.Sound T ∧ ∃ results, ids = range' t.nodes.size results.length ∧
      t' = t.withCall callee inputs results := by
  obtain ⟨xs, hxs, hcall⟩ := bind_eq_ok.1 hcall
  obtain ⟨results, hresults, hcall⟩ := bind_eq_ok.1 hcall
  cases hcall
  obtain ⟨htakes, hgives, hgood⟩ := hr.call callee xs results hresults
  obtain ⟨hlt, htypes⟩ := values_eq_ok hr hxs
  refine ⟨⟨h.ordered.call callee results hlt, h.typed.call ?_ hgives hgood⟩, results, rfl, rfl⟩
  rw [htypes, htakes]

end Sound

/-! ### Values and gradients of a typed tape -/

theorem value_of_typeAt (rules : TapeRules (Except ε) V F C) {type : τ}
    (h : t.typeAt T id = some type) :
    ∃ value, t.value rules id = .ok value ∧ T.type value = type := by
  obtain ⟨node, hn, rfl⟩ := map_eq_some_iff.1 h
  refine ⟨node.value, ?_, rfl⟩
  rw [value, hn]
  rfl

theorem mapM_typed {f : Nat → Except ε V} {types : List τ}
    (h : ids.map (t.typeAt T) = types.map some)
    (hf : ∀ id type, t.typeAt T id = some type → ∃ v, f id = .ok v ∧ T.type v = type) :
    ∃ vs, ids.mapM f = .ok vs ∧ vs.map T.type = types := by
  induction ids generalizing types with
  | nil =>
    cases types with
    | nil => exact ⟨[], rfl, rfl⟩
    | cons type types => cases h
  | cons id ids ih =>
    cases types with
    | nil => cases h
    | cons type types =>
      rw [map_cons, map_cons, List.cons.injEq] at h
      obtain ⟨v, hv, hvtype⟩ := hf id type h.1
      obtain ⟨vs, hvs, hvstypes⟩ := ih h.2
      refine ⟨v :: vs, ?_, ?_⟩
      · rw [mapM_cons, hv, hvs]
        rfl
      · rw [map_cons, hvtype, hvstypes]

theorem values_of_typeAt (rules : TapeRules (Except ε) V F C) {types : List τ}
    (h : ids.map (t.typeAt T) = types.map some) :
    ∃ vs, t.values rules ids = .ok vs ∧ vs.map T.type = types :=
  mapM_typed h fun _ _ => value_of_typeAt rules

theorem Typed.good_typeAt (h : t.Typed T) {type : τ} (hid : t.typeAt T id = some type) :
    T.good type := by
  obtain ⟨node, hn, rfl⟩ := map_eq_some_iff.1 hid
  exact h.good id node hn

theorem Typed.good_takes (h : t.Typed T) {call : Nat} {c : TapeCall C}
    (hc : t.calls[call]? = some c) {type : τ} (htype : type ∈ T.takes c.callee) : T.good type := by
  have hmem : some type ∈ c.inputs.map (t.typeAt T) := by
    rw [h.inputs call c hc]
    exact mem_map_of_mem htype
  obtain ⟨id, -, hid⟩ := mem_map.1 hmem
  exact h.good_typeAt hid

theorem gradAt_of_typeAt (h : t.Typed T) (hsafe : rules.Safe T) (hg : t.GradsTyped T g) {type : τ}
    (hid : t.typeAt T id = some type) :
    ∃ grad, t.gradAt rules g id = .ok grad ∧ T.type grad = type := by
  rw [gradAt]
  cases hgrad : g id with
  | some grad =>
    have htype := hg id grad hgrad
    rw [hid] at htype
    exact ⟨grad, rfl, (Option.some.inj htype).symm⟩
  | none =>
    obtain ⟨value, hvalue, rfl⟩ := value_of_typeAt rules hid
    obtain ⟨zeros, hzeros, htype⟩ := hsafe.zeros value (h.good_typeAt hid)
    refine ⟨zeros, ?_, htype⟩
    rw [hvalue, ok_bind, hzeros]

/-! ### Steps that succeed -/

theorem accumulate_typed (h : t.Typed T) (hsafe : rules.Safe T)
    (hg : t.GradsTyped T (grads.lookup ·)) (hid : t.typeAt T id = some (T.type grad)) :
    ∃ grads', grads.accumulate rules id grad = .ok grads' ∧
      t.GradsTyped T (grads'.lookup ·) := by
  obtain ⟨total, htotal, hsum⟩ : ∃ total, T.type total = T.type grad ∧
      ∃ rest : Grads V, grads.accumulate rules id grad = .ok ((id, total) :: rest) ∧
        ∀ i, i ≠ id → rest.lookup i = grads.lookup i := by
    rw [Grads.accumulate]
    cases hbefore : grads.lookup id with
    | none => exact ⟨grad, rfl, grads, rfl, fun _ _ => rfl⟩
    | some before =>
      have hsame := hg id before hbefore
      rw [hid] at hsame
      have htype : T.type grad = T.type before := Option.some.inj hsame
      obtain ⟨sum, hsum, hsumType⟩ := hsafe.add before grad (htype ▸ h.good_typeAt hid) htype
      refine ⟨sum, hsumType.trans htype.symm, grads.filter (·.1 ≠ id), ?_, ?_⟩
      · dsimp only
        rw [hsum]
        rfl
      · intro i hi
        exact lookup_filter_ne hi grads
  obtain ⟨rest, hrest, hother⟩ := hsum
  refine ⟨_, hrest, ?_⟩
  intro i v hv
  dsimp only at hv
  by_cases hi : i = id
  · subst hi
    rw [lookup_cons, beq_self_eq_true] at hv
    cases hv
    rw [hid, htotal]
  · rw [lookup_cons, beq_false_of_ne hi] at hv
    rw [hother i hi] at hv
    exact hg i v hv

theorem accumulateAll_typed (h : t.Typed T) (hsafe : rules.Safe T)
    (hg : t.GradsTyped T (grads.lookup ·)) {parts : List V}
    (hids : ids.map (t.typeAt T) = (parts.map T.type).map some) :
    ∃ grads', accumulateAll rules grads (ids.zip parts) = .ok grads' ∧
      t.GradsTyped T (grads'.lookup ·) := by
  induction ids generalizing parts grads with
  | nil => exact ⟨grads, rfl, hg⟩
  | cons id ids ih =>
    cases parts with
    | nil => cases hids
    | cons part parts =>
      simp only [map_cons, List.cons.injEq] at hids
      obtain ⟨next, hnext, htyped⟩ := accumulate_typed h hsafe hg hids.1
      obtain ⟨grads', hgrads', htyped'⟩ := ih htyped hids.2
      refine ⟨grads', ?_, htyped'⟩
      rw [zip_cons_cons, accumulateAll_cons, hnext, ok_bind, hgrads']

theorem passOp_typed (h : t.Typed T) (hsafe : rules.Safe T) {node : TapeNode V F}
    (hn : t.nodes[id]? = some node) (hgrad : T.type grad = T.type node.value)
    (hop : node.op.isResult = false) :
    ∃ parts, t.passOp rules node.op grad = .ok parts ∧
      node.op.operands.map (t.typeAt T) = (parts.map T.type).map some := by
  have hoperand := h.operand id node hn
  have hgood : T.good (T.type grad) := hgrad ▸ h.good id node hn
  have hvalue (a : Nat) (ha : a ∈ node.op.operands) :
      ∃ v, t.value rules a = .ok v ∧ T.type v = T.type grad :=
    value_of_typeAt rules (by rw [hoperand a ha, hgrad])
  have htypes {parts : List V} (hlength : node.op.operands.length = parts.length)
      (hparts : ∀ part ∈ parts, T.type part = T.type grad) :
      node.op.operands.map (t.typeAt T) = (parts.map T.type).map some := by
    rw [map_eq_replicate_iff.2 hoperand, map_eq_replicate_iff.2 hparts,
      map_replicate, hlength, hgrad]
  obtain ⟨value, op⟩ := node
  dsimp only at hgrad hop hoperand hvalue htypes ⊢
  cases op with
  | constant => exact ⟨[], rfl, rfl⟩
  | parameter => exact ⟨[], rfl, rfl⟩
  | result call j => cases hop
  | add a b => exact ⟨[grad, grad], rfl, htypes rfl (by simp)⟩
  | mul a b =>
    obtain ⟨y, hy, hytype⟩ := hvalue b (by simp [TapeOp.operands])
    obtain ⟨x, hx, hxtype⟩ := hvalue a (by simp [TapeOp.operands])
    obtain ⟨left, hleft, hlefttype⟩ := hsafe.mul grad y hgood hytype
    obtain ⟨right, hright, hrighttype⟩ := hsafe.mul grad x hgood hxtype
    refine ⟨[left, right], ?_, htypes rfl (by simp [hlefttype, hrighttype])⟩
    simp only [passOp, hy, hleft, hx, hright, ok_bind]
    rfl
  | square a =>
    obtain ⟨x, hx, hxtype⟩ := hvalue a (by simp [TapeOp.operands])
    obtain ⟨part, hpart, htype⟩ := hsafe.squareGrad grad x hgood hxtype
    refine ⟨[part], ?_, htypes rfl (by simp [htype])⟩
    simp only [passOp, hx, hpart, ok_bind]
    rfl
  | scale a factor =>
    obtain ⟨part, hpart, htype⟩ := hsafe.scale grad factor hgood
    refine ⟨[part], ?_, htypes rfl (by simp [htype])⟩
    simp only [passOp, hpart, ok_bind]
    rfl

/-- The refusal of the call that acts at a node. -/
def refusalAt (refusal : C → Option ε) (t : Tape V F C) (k : Nat) : Option ε :=
  match t.nodes[k]? with
  | some ⟨_, .result call 0⟩ => t.calls[call]? >>= fun c => refusal c.callee
  | _ => none

theorem passCall_typed (h : t.Typed T) (hsafe : rules.Safe T) (hserves : t.Serves rules T refusal)
    (hg : t.GradsTyped T g) {call : Nat} {c : TapeCall C} (hc : t.calls[call]? = some c) :
    match refusal c.callee with
    | none => ∃ parts, t.passCall rules g c = .ok parts ∧ parts.map T.type = T.takes c.callee
    | some e => t.passCall rules g c = .error e := by
  obtain ⟨outputGrads, houtputs, houtputTypes⟩ :=
    mapM_typed (h.outputs call c hc) fun _ _ => gradAt_of_typeAt h hsafe hg
  obtain ⟨inputs, hinputs, hinputTypes⟩ := values_of_typeAt rules (h.inputs call c hc)
  have hserved := hserves call c hc inputs outputGrads hinputTypes houtputTypes
  rw [passCall, houtputs, ok_bind, hinputs, ok_bind]
  exact hserved

theorem backNode_typed (ht : t.Ordered) (h : t.Typed T) (hsafe : rules.Safe T)
    (hserves : t.Serves rules T refusal) (hg : t.GradsTyped T (grads.lookup ·))
    (hk : t.Active (grads.lookup ·) k → t.refusalAt refusal k = none) :
    ∃ grads', t.backNode rules grads k = .ok grads' ∧ t.GradsTyped T (grads'.lookup ·) := by
  by_cases ha : t.Active (grads.lookup ·) k
  · obtain ⟨parts, hparts, htypes⟩ : ∃ parts, t.passes rules (grads.lookup ·) k = .ok parts ∧
        (t.operands k).map (t.typeAt T) = (parts.map T.type).map some := by
      rcases ha.cases ht with ⟨node, grad, hn, hop, hgrad⟩ | ⟨value, call, c, hn, hc, -⟩
      · rw [passes_op hn hop hgrad, operands_eq hn hop]
        have htype := hg k grad hgrad
        rw [typeAt, hn] at htype
        exact passOp_typed h hsafe hn (Option.some.inj htype).symm hop
      · have hnone := hk ha
        simp only [refusalAt, hn, hc, bind_eq_bind, bind_some] at hnone
        have hpass := passCall_typed h hsafe hserves hg hc
        rw [hnone] at hpass
        obtain ⟨parts, hparts, htypes⟩ := hpass
        refine ⟨parts, ?_, ?_⟩
        · rw [passes_call hn hc, hparts]
        · rw [operands_result hn hc, h.inputs call c hc, htypes]
    rw [backNode_active ht ha hparts]
    exact accumulateAll_typed h hsafe hg htypes
  · exact ⟨grads, backNode_idle ht ha, hg⟩

theorem backNode_refused (ht : t.Ordered) (h : t.Typed T) (hsafe : rules.Safe T)
    (hserves : t.Serves rules T refusal) (hg : t.GradsTyped T (grads.lookup ·))
    (ha : t.Active (grads.lookup ·) k) {e : ε} (hk : t.refusalAt refusal k = some e) :
    t.backNode rules grads k = .error e := by
  rcases ha.cases ht with ⟨node, grad, hn, hop, -⟩ | ⟨value, call, c, hn, hc, hsome⟩
  · obtain ⟨value, op⟩ := node
    simp only [refusalAt, hn] at hk
    cases op with
    | result call j => cases hop
    | _ => cases hk
  · simp only [refusalAt, hn, hc, bind_eq_bind, bind_some] at hk
    have hpass := passCall_typed h hsafe hserves hg hc
    rw [hk] at hpass
    rw [backNode_first hn, backCall_eq hc hsome, hpass]
    rfl

/-! ### Sweeps that succeed -/

section
variable (ht : t.Ordered) (h : t.Typed T) (hsafe : rules.Safe T)
  (hserves : t.Serves rules T refusal) (hc : t.Complete rules) {output : Nat}
  (hout : output < t.nodes.size)
include ht h hsafe hserves hc hout

theorem sweepTo_typed (hk : k ≤ output + 1)
    (hno : ∀ j, k ≤ j → t.Consumes output j → t.refusalAt refusal j = none) :
    ∃ grads, t.sweepTo rules output k = .ok grads ∧ t.GradsTyped T (grads.lookup ·) := by
  induction hk using Nat.decreasingInduction with
  | self =>
    have hat : t.typeAt T output = some (T.type t.nodes[output].value) := by simp [typeAt, hout]
    obtain ⟨value, hvalue, htype⟩ := value_of_typeAt rules hat
    obtain ⟨seed, hseed, hseedType⟩ := hsafe.ones value
      (htype ▸ h.good output _ (Array.getElem?_eq_getElem hout))
    refine ⟨[(output, seed)], ?_, ?_⟩
    · have hnil : down output (output + 1) = [] := by simp [down]
      rw [sweepTo, hvalue, ok_bind, hseed, ok_bind, hnil]
      rfl
    · intro id grad hgrad
      dsimp only at hgrad
      by_cases hid : id = output
      · subst hid
        simp only [lookup_cons, beq_self_eq_true] at hgrad
        cases hgrad
        rw [hat, hseedType, htype]
      · rw [lookup_cons, beq_false_of_ne hid] at hgrad
        cases hgrad
  | of_succ k hk ih =>
    obtain ⟨before, hbefore, hg⟩ := ih fun j hj => hno j (by omega)
    obtain ⟨value, seed, parts, -, -, hswept⟩ := swept_of_sweepTo ht (by omega) hbefore
    obtain ⟨grads, hgrads, hg'⟩ := backNode_typed ht h hsafe hserves hg (k := k) (by
      intro ha
      exact hno k (by omega) ((hswept.active_iff_consumes ht hc (by omega)).1 ha))
    refine ⟨grads, ?_, hg'⟩
    rw [sweepTo_succ (by omega), hbefore, ok_bind, hgrads]

/-- The first call that the sweep finds refusing decides how it fails. -/
theorem sweep_refused {e : ε} (hk : t.Consumes output k) (he : t.refusalAt refusal k = some e)
    (hlast : ∀ j, k < j → t.Consumes output j → t.refusalAt refusal j = none) :
    t.sweep rules output = .error e := by
  have hle := ht.le_of_consumes hk
  have hfail : ∀ j ≤ k, t.sweepTo rules output j = .error e := by
    intro j hj
    induction hj using Nat.decreasingInduction with
    | self =>
      obtain ⟨before, hbefore, hg⟩ :=
        sweepTo_typed ht h hsafe hserves hc hout (k := k + 1) (by omega) hlast
      obtain ⟨value, seed, parts, -, -, hswept⟩ := swept_of_sweepTo ht (by omega) hbefore
      have ha := (hswept.active_iff_consumes ht hc (by omega)).2 hk
      rw [sweepTo_succ hle, hbefore, ok_bind, backNode_refused ht h hsafe hserves hg ha he]
    | of_succ j hj ih => rw [sweepTo_succ (by omega), ih, error_bind]
  rw [← sweepTo_zero]
  exact hfail 0 (Nat.zero_le k)

end

/-! ### Gradients that succeed -/

/-- The output depends on a result of the call, which refuses with `e`. -/
structure Blocks (refusal : C → Option ε) (t : Tape V F C) (output call : Nat) (c : TapeCall C)
    (e : ε) : Prop where
  call : t.calls[call]? = some c
  refusal : refusal c.callee = some e
  result : ∃ o ∈ c.outputs, t.Depends output o

variable {output call k : Nat} {c : TapeCall C} {e : ε}

theorem CallPlaced.head?_outputs {first count : Nat} (h : t.CallPlaced call c first count)
    (hpos : 0 < count) : c.outputs.head? = some first := by
  rw [h.outputs, head?_range', if_neg (by omega)]

theorem Blocks.refusalAt (h : t.Blocks refusal output call c e) (ht : t.Ordered) :
    ∃ k, c.outputs.head? = some k ∧ t.Consumes output k ∧ t.refusalAt refusal k = some e := by
  obtain ⟨o, ho, hd⟩ := h.result
  obtain ⟨first, count, hp⟩ := ht.placed call c h.call
  have hrange := hp.mem_outputs.1 ho
  obtain ⟨value, hn⟩ := hp.nodes 0 (by omega)
  rw [Nat.add_zero] at hn
  refine ⟨first, hp.head?_outputs (by omega), ⟨o, ?_, hd⟩, ?_⟩
  · rw [group_first hn h.call]
    exact ho
  · simp only [Tape.refusalAt, hn, h.call, bind_eq_bind, bind_some, h.refusal]

theorem blocks_of_refusalAt (ht : t.Ordered) (hk : t.Consumes output k)
    (he : t.refusalAt refusal k = some e) :
    ∃ call c, t.Blocks refusal output call c e ∧ c.outputs.head? = some k := by
  unfold Tape.refusalAt at he
  split at he
  next call hn =>
    obtain ⟨c, first, count, hc, hp, hfirst, hpos⟩ := ht.call_of_result hn
    rw [hc] at he
    obtain ⟨o, ho, hd⟩ := hk
    rw [group_first hn hc] at ho
    exact ⟨call, c, ⟨hc, he, o, ho, hd⟩, (hp.head?_outputs hpos).trans (congrArg some hfirst.symm)⟩
  · cases he

theorem exists_last_blocks (h : t.Blocks refusal output call c e) :
    ∃ last c' e', t.Blocks refusal output last c' e' ∧
      ∀ call c e, t.Blocks refusal output call c e → call ≤ last := by
  classical
  have hbound (call : Nat) (h : ∃ c e, t.Blocks refusal output call c e) :
      call ≤ t.calls.size := by
    obtain ⟨c, e, h⟩ := h
    exact Nat.le_of_lt (Array.getElem?_eq_some_iff.1 h.call).1
  obtain ⟨c', e', hlast⟩ := Nat.findGreatest_spec
    (P := fun call => ∃ c e, t.Blocks refusal output call c e) (hbound call ⟨c, e, h⟩) ⟨c, e, h⟩
  refine ⟨_, c', e', hlast, ?_⟩
  intro call c e h
  exact Nat.le_findGreatest (hbound call ⟨c, e, h⟩) ⟨c, e, h⟩

section
variable (ht : t.Sound T) (hsafe : rules.Safe T) (hserves : t.Serves rules T refusal)
  (hc : t.Complete rules) (hout : output < t.nodes.size)
include ht hsafe hserves hc hout

theorem gradients_isOk (hno : ∀ call c e, ¬ t.Blocks refusal output call c e) {wrt : List Nat}
    (hwrt : ∀ id ∈ wrt, id < t.nodes.size) :
    ∃ results, t.gradients rules output wrt = .ok results ∧
      Forall₂ (fun id x => t.typeAt T id = some (T.type x)) wrt results := by
  obtain ⟨grads, hgrads, htyped⟩ := sweepTo_typed ht.ordered ht.typed hsafe hserves hc hout
    (Nat.zero_le _) (by
      intro k _ hk
      by_contra hne
      obtain ⟨e, he⟩ := ne_none_iff_exists'.1 hne
      obtain ⟨call, c, hblocks, -⟩ := blocks_of_refusalAt ht.ordered hk he
      exact hno call c e hblocks)
  rw [sweepTo_zero] at hgrads
  have hgrad (id : Nat) (hid : id ∈ wrt) :
      ∃ x, t.gradOf rules grads id = .ok x ∧ t.typeAt T id = some (T.type x) := by
    obtain ⟨type, hat⟩ : ∃ type, t.typeAt T id = some type :=
      ⟨_, by rw [typeAt, Array.getElem?_eq_getElem (hwrt id hid)]; rfl⟩
    obtain ⟨x, hx, htype⟩ := gradAt_of_typeAt ht.typed hsafe htyped hat
    exact ⟨x, hx, hat.trans (congrArg some htype.symm)⟩
  obtain ⟨results, hresults, hall⟩ := mapM_isOk hgrad
  refine ⟨results, ?_, hall⟩
  rw [gradients, hgrads, ok_bind, hresults]

theorem gradients_blocked (h : t.Blocks refusal output call c e)
    (hlast : ∀ call' c' e', t.Blocks refusal output call' c' e' → call' ≤ call) (wrt : List Nat) :
    t.gradients rules output wrt = .error e := by
  obtain ⟨k, hfirst, hk, he⟩ := h.refusalAt ht.ordered
  have hlater (j : Nat) (hj : k < j) (hcon : t.Consumes output j) :
      t.refusalAt refusal j = none := by
    by_contra hne
    obtain ⟨e', he'⟩ := ne_none_iff_exists'.1 hne
    obtain ⟨call', c', hblocks, hfirst'⟩ := blocks_of_refusalAt ht.ordered hcon he'
    rcases Nat.lt_or_eq_of_le (hlast call' c' e' hblocks) with hlt | rfl
    · have hbefore := ht.ordered.increasing call' call c' c hblocks.call h.call hlt
        j (mem_of_head? hfirst') k (mem_of_head? hfirst)
      omega
    · cases h.call.symm.trans hblocks.call
      cases hfirst.symm.trans hfirst'
      omega
  rw [gradients, sweep_refused ht.ordered ht.typed hsafe hserves hc hout hk he hlater, error_bind]

end

end Tape
end TensorKernel

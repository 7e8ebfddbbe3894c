import TensorKernel.Graph.Eval
import TensorKernel.Proofs.Typed

/-! The values of a run suit their types. A node that was not bound and a variable that was not
assigned hold a zero, which counts as a value of every type. -/
namespace TensorKernel

open ElementType

variable {t a : ElementType} {v : Value} {e : NodeId} {op : UnaryOp} {node : Node} {g : Graph}

theorem ElementType.wrap_nonneg (h : t.isUnsigned = true) (z : Int) : 0 ≤ t.wrap z := by
  have hmin : t.minValue = 0 := by revert h; cases t <;> decide
  exact hmin ▸ (t.wrap_inRange z).1

namespace Value

/-- What may be held where a type is expected. -/
def Suits (t : ElementType) : Value → Prop
  | bool _ => t = .bool
  | int z => t.isUnsigned = true → 0 ≤ z
  | single _ => t = .f32
  | double _ => t = .f64

theorem suits_default (t : ElementType) : Suits t default := fun _ => Int.le_refl 0

theorem suits_convert (t : ElementType) (v : Value) : Suits t (v.convert t) := by
  cases t with
  | bool => exact rfl
  | f32 => exact rfl
  | f64 => exact rfl
  | _ =>
    intro h
    rw [fastWrap_eq]
    exact wrap_nonneg h _

theorem suits_ofLiteral (v : Literal) (t : ElementType) : Suits t (ofLiteral v t) := by
  cases t with
  | bool => exact rfl
  | f32 => exact rfl
  | f64 => exact rfl
  | i8 => exact nofun
  | i16 => exact nofun
  | i32 => exact nofun
  | i64 => exact nofun
  | _ => exact fun _ => Int.natCast_nonneg _

theorem Suits.eq_int (h : v.Suits t) (ht : t.isIntegral = true) : v = .int v.toInt := by
  cases v with
  | int z => rfl
  | bool b => rw [show t = .bool from h] at ht; cases ht
  | single b => rw [show t = .f32 from h] at ht; cases ht
  | double b => rw [show t = .f64 from h] at ht; cases ht

theorem Suits.toInt_nonneg (h : v.Suits t) (ht : t.isUnsigned = true) : 0 ≤ v.toInt := by
  have hint : t.isIntegral = true := by simp [ElementType.isIntegral, ht]
  rw [h.eq_int hint] at h
  exact h ht

end Value

open Value

theorem UnaryOp.onInt_meets {Q : Int → Prop} (hwrap : ∀ z, Q (t.wrap z)) (op : UnaryOp) {z : Int}
    (hz : Q z) : Q (op.onInt t z) := by
  cases op with
  | neg =>
    simp only [onInt, fastWrap_eq]
    exact hwrap _
  | abs =>
    simp only [onInt, fastWrap_eq]
    split
    · exact hwrap _
    · exact hz
  | _ => exact hz

theorem UnaryOp.resultType?_cases (h : op.resultType? a = some t) :
    t = .bool ∧ (op = .not ∨ op = .isInf ∨ op = .isNan ∨ op = .isFinite) ∨
      t = op.operandType a ∧ t.isBool = false := by
  have hsame (h : (if a.isBool then none else some a) = some t) : t = a ∧ t.isBool = false := by
    cases hb : a.isBool <;> simp [hb] at h
    exact ⟨h.symm, h ▸ hb⟩
  have hfloat (h : some a.floatOf = some t) : t = a.floatOf ∧ t.isBool = false := by
    cases h
    exact ⟨rfl, by cases a <;> rfl⟩
  cases op
  case not => exact .inl ⟨(Option.some.inj h).symm, .inl rfl⟩
  case isInf => exact .inl ⟨(Option.some.inj h).symm, .inr (.inl rfl)⟩
  case isNan => exact .inl ⟨(Option.some.inj h).symm, .inr (.inr (.inl rfl))⟩
  case isFinite => exact .inl ⟨(Option.some.inj h).symm, .inr (.inr (.inr rfl))⟩
  case neg => exact .inr (hsame h)
  case abs => exact .inr (hsame h)
  case floor => exact .inr (hsame h)
  case ceil => exact .inr (hsame h)
  all_goals exact .inr (hfloat h)

theorem UnaryOp.suits_apply (h : op.resultType? a = some t) (hv : v.Suits (op.operandType a)) :
    (op.apply (op.operandType a) v).Suits t := by
  rcases resultType?_cases h with ⟨rfl, rfl | rfl | rfl | rfl⟩ | ⟨ht, hb⟩
  · rfl
  · rfl
  · rfl
  · rfl
  rw [← ht] at hv ⊢
  unfold apply
  split
  · cases h
    cases hb
  · cases h
    cases hb
  · cases h
    cases hb
  · cases h
    cases hb
  · cases t with
    | bool => cases hb
    | f32 => exact rfl
    | f64 => exact rfl
    | _ => exact fun hun => op.onInt_meets (wrap_nonneg hun) (hv.toInt_nonneg hun)

theorem BinaryOp.onInts_meets {Q : Int → Prop} (hwrap : ∀ z, Q (t.wrap z)) (hzero : Q 0)
    (op : BinaryOp) {x y : Int} (hx : Q x) (hy : Q y) : Q (op.onInts t x y) := by
  cases op
  case min =>
    simp only [onInts, Comparator.least]
    split <;> assumption
  case max =>
    simp only [onInts, Comparator.greatest]
    split <;> assumption
  all_goals
    simp only [onInts, fastWrap_eq, hwrap, hzero]

theorem BinaryOp.suits_apply {op : BinaryOp} {b : ElementType} (h : op.resultType? a b = some t)
    {x y : Value} (hx : x.Suits (op.operandType a b)) (hy : y.Suits (op.operandType a b)) :
    (op.apply (op.operandType a b) x y).Suits t := by
  unfold resultType? at h
  unfold apply
  split
  · cases h
    rfl
  · cases h
    rfl
  next hand hor =>
    have hlogical : op.isLogical = false := by
      cases op
      case and => exact absurd rfl hand
      case or => exact absurd rfl hor
      all_goals rfl
    rw [hlogical, Bool.or_false] at h
    split
    next hc =>
      rw [if_pos hc] at h
      cases h
      rfl
    next hc =>
      rw [if_neg hc] at h
      dsimp only at h
      generalize op.operandType a b = u at *
      split at h
      · cases h
      next hb =>
        cases h
        cases t with
        | bool => exact absurd rfl hb
        | f32 => exact rfl
        | f64 => exact rfl
        | _ =>
          exact fun hun => op.onInts_meets (wrap_nonneg hun) (Int.le_refl 0) (hx.toInt_nonneg hun)
            (hy.toInt_nonneg hun)

theorem Graph.nodeType_eq (h : g.nodes[e]? = some node) : g.nodeType e = node.type := by
  rw [Graph.nodeType, h]

theorem Graph.nodeType_of_signature (h : g.signature.nodes e = some t) : g.nodeType e = t := by
  obtain ⟨node, hn, rfl⟩ := Option.map_eq_some_iff.1 h
  exact Graph.nodeType_eq hn

theorem Buffer.load_meets {P : Value → Prop} {b : Buffer} (hzero : P default) (h : ∀ v ∈ b, P v)
    (z : Int) : P (b.load z) := by
  unfold Buffer.load
  split
  · exact hzero
  · rw [Array.getD_eq_getD_getElem?]
    cases hv : b[z.toNat]? with
    | none => exact hzero
    | some v => exact h v (Array.mem_of_getElem? hv)

namespace Surroundings

variable {S : Surroundings} {f : Frame}

def InputsSuit (S : Surroundings) : Prop :=
  ∀ (k : Nat) (type : TensorType), S.graph.inputs[k]? = some type →
    ∀ v ∈ S.inputs.getD k #[], v.Suits type.element

/-- What nodes and variables hold suits their types. -/
structure Suitable (S : Surroundings) (f : Frame) : Prop where
  values : ∀ e, (f.values.getD e default).Suits (S.graph.nodeType e)
  slots : ∀ v, (f.slots.getD v default).Suits (S.graph.slots[v]?.getD .bool)

theorem getD_setIfInBounds {xs : Array Value} {i j : Nat} :
    (xs.setIfInBounds i v).getD j default
      = if i = j ∧ i < xs.size then v else xs.getD j default := by
  rw [Array.getD_eq_getD_getElem?, Array.getD_eq_getD_getElem?, Array.getElem?_setIfInBounds]
  by_cases hij : i = j
  · subst hij
    by_cases hi : i < xs.size <;> simp [hi]
  · simp [hij]

/-! A relation between values and types that conversions and computations meet holds throughout a
run. -/

section
variable {P : ElementType → Value → Prop}

/-- What nodes and variables hold meets `P`. -/
structure Everywhere (S : Surroundings) (P : ElementType → Value → Prop) (f : Frame) : Prop where
  values : ∀ e, P (S.graph.nodeType e) (f.values.getD e default)
  slots : ∀ v, P (S.graph.slots[v]?.getD .bool) (f.slots.getD v default)

/-- What comes into a run meets `P`, and so does what is made of values that meet it. -/
structure Closed (S : Surroundings) (P : ElementType → Value → Prop) : Prop where
  zero : ∀ t, P t default
  literal : ∀ (v : Literal) t, P t (.ofLiteral v t)
  convert : ∀ t (v : Value), P t (v.convert t)
  coordinate : ∀ axis : Nat, P .i64 (.int (S.position[axis]?.getD 0 : Nat))
  inputs : ∀ (k : Nat) (type : TensorType), S.graph.inputs[k]? = some type →
    ∀ v ∈ S.inputs.getD k #[], P type.element v
  unary : ∀ {op : UnaryOp} {a t : ElementType} {v : Value}, op.resultType? a = some t →
    P (op.operandType a) v → P t (op.apply (op.operandType a) v)
  binary : ∀ {op : BinaryOp} {a b t : ElementType} {x y : Value}, op.resultType? a b = some t →
    P (op.operandType a b) x → P (op.operandType a b) y →
      P t (op.apply (op.operandType a b) x y)

namespace Closed

variable (hc : S.Closed P) (hg : S.graph.WellTyped) (h : S.Everywhere P f)
include hc hg h

theorem value (e : NodeId) : P (S.graph.nodeType e) (S.value f e) := by
  unfold Surroundings.value
  split
  next v type scope hn =>
    rw [Graph.nodeType_eq hn]
    exact hc.literal v type
  next axis type scope hn =>
    rw [Graph.nodeType_eq hn, (hg.nodes e _ hn).1]
    exact hc.coordinate axis
  · exact h.values e

theorem valueAs (e : NodeId) (t : ElementType) : P t (S.valueAs f e t) := by
  unfold Surroundings.valueAs
  split
  · exact hc.literal _ t
  next op type scope _ hn =>
    split
    next ht =>
      subst ht
      have hvalue := hc.value hg h e
      rwa [Graph.nodeType_eq hn] at hvalue
    · exact hc.convert t _
  · exact hc.zero t

theorem compute (hn : S.graph.nodes[e]? = some node) : P node.type (S.compute f node) := by
  have ht := hg.nodes e node hn
  unfold Surroundings.compute
  cases hop : node.op with
  | input k indices =>
    rw [hop] at ht
    obtain ⟨type, hk, -, htype⟩ := ht
    have hk : S.graph.inputs[k]? = some type := hk
    rw [htype]
    dsimp only
    rw [hk]
    exact Buffer.load_meets (hc.zero _) (hc.inputs k type hk) _
  | constant v => exact hc.literal v node.type
  | position axis =>
    rw [hop] at ht
    rw [ht.1]
    exact hc.coordinate axis
  | unary op arg =>
    rw [hop] at ht
    obtain ⟨t, harg, hresult⟩ := ht
    rw [← Graph.nodeType_of_signature harg] at hresult
    exact hc.unary hresult (hc.valueAs hg h arg _)
  | binary op lhs rhs =>
    rw [hop] at ht
    obtain ⟨t, u, hleft, hright, hresult⟩ := ht
    rw [← Graph.nodeType_of_signature hleft, ← Graph.nodeType_of_signature hright] at hresult
    exact hc.binary hresult (hc.valueAs hg h lhs _) (hc.valueAs hg h rhs _)
  | cast arg => exact hc.convert node.type _
  | read v =>
    rw [hop] at ht
    have hslot := h.slots v
    rwa [show S.graph.slots[v]? = some node.type from ht] at hslot

end Closed

/-- What is computed, or converted, from values that meet `P` meets it too. -/
structure Keeps (S : Surroundings) (P : ElementType → Value → Prop) : Prop where
  valueAs : ∀ f, S.Everywhere P f → ∀ e t, P t (S.valueAs f e t)
  compute : ∀ f, S.Everywhere P f → ∀ (e : NodeId) node, S.graph.nodes[e]? = some node →
    P node.type (S.compute f node)

theorem Closed.keeps (hc : S.Closed P) (hg : S.graph.WellTyped) : S.Keeps P where
  valueAs _ h e t := hc.valueAs hg h e t
  compute _ h _ _ hn := hc.compute hg h hn

theorem Everywhere.setVariable (hk : S.Keeps P) (h : S.Everywhere P f) (v : VarId) (e : NodeId) :
    S.Everywhere P (S.setVariable f v e) where
  values := h.values
  slots w := by
    unfold Surroundings.setVariable
    rw [getD_setIfInBounds]
    split
    next hw => exact hw.1 ▸ hk.valueAs f h e _
    · exact h.slots w

mutual

theorem Everywhere.step {f : Frame} (hk : S.Keeps P) (h : S.Everywhere P f) (s : Stmt) :
    S.Everywhere P (S.step f s) := by
  match s with
  | .bind e =>
    rw [Surroundings.step]
    split
    next node hn =>
      refine ⟨fun x => ?_, h.slots⟩
      rw [getD_setIfInBounds]
      split
      next hx =>
        rw [← hx.1, Graph.nodeType_eq hn]
        exact hk.compute f h e node hn
      · exact h.values x
    · exact h
  | .declare v x =>
    rw [Surroundings.step]
    exact h.setVariable hk v x
  | .assign v x =>
    rw [Surroundings.step]
    exact h.setVariable hk v x
  | .store k indices x =>
    rw [Surroundings.step]
    split
    · exact ⟨h.values, h.slots⟩
    · exact h
  | .cond branches =>
    rw [Surroundings.step]
    exact h.stepBranches hk branches

theorem Everywhere.stepBlock {f : Frame} (hk : S.Keeps P) (h : S.Everywhere P f)
    (body : List Stmt) : S.Everywhere P (S.stepBlock f body) := by
  match body with
  | [] =>
    rw [Surroundings.stepBlock]
    exact h
  | s :: rest =>
    rw [Surroundings.stepBlock]
    exact (h.step hk s).stepBlock hk rest

theorem Everywhere.stepBranches {f : Frame} (hk : S.Keeps P) (h : S.Everywhere P f)
    (branches : List Branch) : S.Everywhere P (S.stepBranches f branches) := by
  match branches with
  | [] =>
    rw [Surroundings.stepBranches]
    exact h
  | .mk none body :: _ =>
    rw [Surroundings.stepBranches]
    exact h.stepBlock hk body
  | .mk (some guard) body :: rest =>
    rw [Surroundings.stepBranches]
    split
    · exact h.stepBlock hk body
    · exact h.stepBranches hk rest

end

end

theorem closed_suits (hi : S.InputsSuit) : S.Closed fun t v => v.Suits t where
  zero := suits_default
  literal := suits_ofLiteral
  convert := suits_convert
  coordinate _ := fun _ => Int.natCast_nonneg _
  inputs := hi
  unary := UnaryOp.suits_apply
  binary h hx hy := BinaryOp.suits_apply h hx hy

theorem Suitable.everywhere (h : S.Suitable f) : S.Everywhere (fun t v => v.Suits t) f :=
  ⟨h.values, h.slots⟩

theorem Suitable.value (hg : S.graph.WellTyped) (hi : S.InputsSuit) (h : S.Suitable f)
    (e : NodeId) : (S.value f e).Suits (S.graph.nodeType e) :=
  (closed_suits hi).value hg h.everywhere e

theorem Suitable.step (hg : S.graph.WellTyped) (hi : S.InputsSuit) (h : S.Suitable f) (s : Stmt) :
    S.Suitable (S.step f s) := by
  obtain ⟨hvalues, hslots⟩ := h.everywhere.step ((closed_suits hi).keeps hg) s
  exact ⟨hvalues, hslots⟩

end Surroundings
end TensorKernel

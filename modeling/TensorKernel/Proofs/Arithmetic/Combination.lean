import TensorKernel.Proofs.Arithmetic.Operand

/-! Sums, differences, products and negations of integers are exact up to one reduction. Every node
converts its operands, computes in an unsigned carrier and converts back; none of this can be told
from computing with integers and reducing the result. -/
namespace TensorKernel

open ElementType

variable {t : ElementType} {op : BinaryOp} {e a : NodeId} {scope : ScopeId} {node : Node} {z : Int}
  {g : Graph}

def Op.isRing : Op → Bool
  | .unary .neg _ => true
  | .binary op _ _ => op.ringOp?.isSome
  | _ => false

/-- The node stands for an expression of nodes of type `t` that add, subtract, multiply and negate,
over nodes of any integral types, and the integer is the value of that expression. -/
inductive Graph.Combines (g : Graph) (t : ElementType) (leaf : NodeId → Int) :
    NodeId → Int → Prop where
  | leaf {e : NodeId} : g.IsInteger e → Combines g t leaf e (leaf e)
  | neg {e a : NodeId} {scope : ScopeId} {x : Int} :
      g.nodes[e]? = some ⟨.unary .neg a, t, scope⟩ → Combines g t leaf a x →
      Combines g t leaf e (-x)
  | binary {e a b : NodeId} {op : BinaryOp} {scope : ScopeId} {x y : Int} {f : Int → Int → Int} :
      g.nodes[e]? = some ⟨.binary op a b, t, scope⟩ → op.ringOp? = some f →
      Combines g t leaf a x → Combines g t leaf b y → Combines g t leaf e (f x y)

theorem Graph.Combines.isInteger (ht : t.isIntegral = true) {leaf : NodeId → Int}
    (h : g.Combines t leaf e z) : g.IsInteger e := by
  cases h with
  | leaf h => exact h
  | neg h => exact ⟨_, h, ht⟩
  | binary h => exact ⟨_, h, ht⟩

namespace BinaryOp

theorem isNumeric_of_ringOp? {f : Int → Int → Int} (hf : op.ringOp? = some f) :
    op.isComparison = false ∧ op.isLogical = false := by
  cases op <;> cases hf <;> exact ⟨rfl, rfl⟩

theorem apply_ringOp? {f : Int → Int → Int} (hf : op.ringOp? = some f) (ht : t.isIntegral = true)
    (a b : Int) : op.apply t (.int (t.wrap a)) (.int (t.wrap b)) = .int (t.wrap (f a b)) := by
  obtain ⟨hc, hl⟩ := isNumeric_of_ringOp? hf
  rw [apply_of_isIntegral hc hl ht, onInts_ringOp hf ht]
  exact congrArg Value.int (wrap_ringOp hf (t.wrap_wrap a) (t.wrap_wrap b))

end BinaryOp

theorem Code.Phrase.Denotes.ringOp {H : Holdings} {x y : Phrase} {u v : ElementType}
    (ht : t.isIntegral = true) {f : Int → Int → Int} (hf : op.ringOp? = some f) {a b : Int}
    (hx : x.Denotes H u a) (hy : y.Denotes H v b) :
    (Phrase.joined (.cast t) op (.apply (.cast t.carrier) x) (.apply (.cast t.carrier) y)).Denotes H
      t (t.wrap (f a b)) := by
  have hle := bits_le_carrier ht
  have hc (a b : Int) : Quantity.compute? op t.carrier.widened a b
      = Quantity.of? t.carrier.widened (t.carrier.wrap (f a b)) := by
    rw [widened_carrier]
    cases op <;> cases hf <;> exact Quantity.settle?_of_isUnsigned t.isUnsigned_carrier _
  have hrange (z : Int) : t.carrier.widened.InRange (t.carrier.wrap z) := by
    rw [widened_carrier]
    exact t.carrier.wrap_inRange z
  have hreduced : t.wrap (t.carrier.wrap (f (t.carrier.wrap a) (t.carrier.wrap b)))
      = t.wrap (f a b) := by
    rw [wrap_wrap_of_le hle]
    exact BinaryOp.wrap_ringOp hf (wrap_wrap_of_le hle a)
      (wrap_wrap_of_le hle b)
  rw [← hreduced]
  exact (hx.cast t.isIntegral_carrier).joined (hy.cast t.isIntegral_carrier) (hc _ _) (hrange _) ht

theorem Graph.WellTyped.operandType_eq (hg : g.WellTyped) {b : NodeId}
    (hn : g.nodes[e]? = some ⟨.binary op a b, t, scope⟩)
    (hop : op.isComparison = false ∧ op.isLogical = false) :
    op.operandType (g.nodeType a) (g.nodeType b) = t := by
  obtain ⟨u, v, hu, hv, hresult⟩ := hg.nodes e _ hn
  rw [Graph.nodeType_of_signature hu, Graph.nodeType_of_signature hv]
  exact (BinaryOp.resultType?_numeric (by simp [hop]) hresult).1.symm

/-- What a node computes, and what its definition denotes, is what the integers give. -/
structure Surroundings.Computes (S : Surroundings) (f : Frame) (node : Node) (z : Int) : Prop where
  value : S.compute f node = .int (node.type.wrap z)
  meaning : ∃ x, S.graph.expression node = .phrase x ∧
    x.Denotes (S.holdings f) node.type (node.type.wrap z)

namespace Surroundings
open Code

section
variable {S : Surroundings} {f : Frame} (hg : S.graph.WellTyped) (hr : S.Ranged)
  (hf : S.Everywhere (fun t v => v.InRange t) f)
include hg hr hf

theorem computes_neg (ht : t.isIntegral = true)
    (hn : S.graph.nodes[e]? = some ⟨.unary .neg a, t, scope⟩) (ha : S.graph.IsInteger a) :
    S.Computes f ⟨.unary .neg a, t, scope⟩ (-(S.value f a).toInt) := by
  obtain ⟨u, hu, hresult⟩ := hg.nodes e _ hn
  have htype : S.graph.nodeType a = t := by
    rw [Graph.nodeType_of_signature hu]
    rcases UnaryOp.resultType?_cases hresult with ⟨rfl, -⟩ | ⟨h, -⟩
    · cases ht
    · exact h.symm
  have hzero : t.wrap 0 = 0 := wrap_of_inRange t.inRange_zero
  have hsub : BinaryOp.sub.ringOp? = some (· - ·) := rfl
  rw [← Int.zero_sub]
  constructor
  · change UnaryOp.neg.apply (S.graph.nodeType a) (S.valueAs f a (S.graph.nodeType a)) = _
    rw [htype, valueAs_of_isInteger hg hr hf ha ht, UnaryOp.neg_apply ht, ← hzero,
      BinaryOp.apply_ringOp? hsub ht, hzero]
  · have hfloat : t.isFloat = false := by cases t <;> cases ht <;> rfl
    have hphrase : S.graph.unaryPhrase .neg a t = .joined (.cast t) .sub
        (.apply (.cast t.carrier) (.word (.plain 0)))
        (.apply (.cast t.carrier) (S.graph.atom a).phrase) := by
      simp [Graph.unaryPhrase, hfloat]
    have hplain : (Phrase.word (.plain 0)).Denotes (S.holdings f) .i32 0 := ⟨_, rfl, rfl, rfl⟩
    exact ⟨_, congrArg Expression.phrase hphrase, hplain.ringOp ht hsub (denotes_atom hg hr hf ha)⟩

theorem computes_binary {b : NodeId} {fn : Int → Int → Int} (ht : t.isIntegral = true)
    (hn : S.graph.nodes[e]? = some ⟨.binary op a b, t, scope⟩) (hop : op.ringOp? = some fn)
    (ha : S.graph.IsInteger a) (hb : S.graph.IsInteger b) :
    S.Computes f ⟨.binary op a b, t, scope⟩ (fn (S.value f a).toInt (S.value f b).toInt) := by
  have htype := hg.operandType_eq hn (BinaryOp.isNumeric_of_ringOp? hop)
  constructor
  · change op.apply _ (S.valueAs f a _) (S.valueAs f b _) = _
    rw [htype, valueAs_of_isInteger hg hr hf ha ht, valueAs_of_isInteger hg hr hf hb ht,
      BinaryOp.apply_ringOp? hop ht]
  · have hphrase : S.graph.binaryPhrase op a b t = .joined (.cast t) op
        (.apply (.cast t.carrier) (S.graph.reference a t).phrase)
        (.apply (.cast t.carrier) (S.graph.reference b t).phrase) := by
      unfold Graph.binaryPhrase
      rw [htype]
      cases op <;> cases hop <;> exact if_pos ht
    have hmeaning := (denotes_reference hg hr hf ha ht).ringOp ht hop
      (denotes_reference hg hr hf hb ht)
    rw [BinaryOp.wrap_ringOp hop (t.wrap_wrap _) (t.wrap_wrap _)] at hmeaning
    exact ⟨_, congrArg Expression.phrase hphrase, hmeaning⟩

theorem exists_computes (hn : S.graph.nodes[e]? = some node) (ht : node.type.isIntegral = true)
    (hop : node.op.isRing = true) (hargs : ∀ o ∈ node.op.operands, S.graph.IsInteger o) :
    ∃ z, S.Computes f node z := by
  obtain ⟨op, t, scope⟩ := node
  cases op with
  | unary op a =>
    cases op <;> cases hop
    exact ⟨_, computes_neg hg hr hf ht hn (hargs a List.mem_cons_self)⟩
  | binary op a b =>
    obtain ⟨fn, hfn⟩ := Option.isSome_iff_exists.1 hop
    exact ⟨_, computes_binary hg hr hf ht hn hfn (hargs a List.mem_cons_self)
      (hargs b (List.mem_cons_of_mem a List.mem_cons_self))⟩
  | input | constant | position | cast | read => cases hop

end

section
variable {S : Surroundings} (hg : S.graph.IsScoped) (outputs : Array Buffer)
include hg

theorem value_final (he : e ∈ S.executed outputs) (hn : S.graph.nodes[e]? = some node)
    (hread : node.op.isRead = false) :
    S.value (S.final outputs) e = S.compute (S.final outputs) node :=
  (settled_final hg outputs he).value node hn hread

/-- Up to multiples of two to the width, nodes hold the values of their expressions. -/
theorem wrap_of_combines (hr : S.Ranged) (ht : t.isIntegral = true)
    (h : S.graph.Combines t (fun a => (S.value (S.final outputs) a).toInt) e z)
    (he : Available S.graph.ops ⟨S.executed outputs, []⟩ e) :
    t.wrap (S.value (S.final outputs) e).toInt = t.wrap z := by
  have hf := everywhere_final hg.captured.wellTyped hr outputs
  have hexecuted {e : NodeId} {node : Node} (hn : S.graph.nodes[e]? = some node)
      (hi : node.op.isInline = false) (he : Available S.graph.ops ⟨S.executed outputs, []⟩ e) :
      e ∈ S.executed outputs := by
    obtain ⟨op, hop, hinline | hm⟩ := he
    · rw [Graph.ops, hn] at hop
      cases hop
      rw [hi] at hinline
      cases hinline
    · exact hm
  induction h with
  | leaf => rfl
  | @neg e a scope x hn ha ih =>
    have hm := hexecuted hn rfl he
    have hoperand := ih ((settled_final hg outputs hm).operands _ hn a List.mem_cons_self)
    have hvalue := (computes_neg hg.captured.wellTyped hr hf ht hn (ha.isInteger ht)).value
    have hsub : BinaryOp.sub.ringOp? = some (· - ·) := rfl
    have hneg := BinaryOp.wrap_ringOp hsub (rfl : t.wrap 0 = t.wrap 0) hoperand
    rw [Int.zero_sub, Int.zero_sub] at hneg
    rw [value_final hg outputs hm hn rfl, hvalue, Value.toInt, t.wrap_wrap, hneg]
  | @binary e a b op scope x y fn hn hop ha hb iha ihb =>
    have hm := hexecuted hn rfl he
    have hoperands := (settled_final hg outputs hm).operands _ hn
    have hleft := iha (hoperands a List.mem_cons_self)
    have hright := ihb (hoperands b (List.mem_cons_of_mem a List.mem_cons_self))
    have hvalue := (computes_binary hg.captured.wellTyped hr hf ht hn hop (ha.isInteger ht)
      (hb.isInteger ht)).value
    rw [value_final hg outputs hm hn rfl, hvalue, Value.toInt, t.wrap_wrap,
      BinaryOp.wrap_ringOp hop hleft hright]

theorem value_of_combines (hr : S.Ranged) (hn : S.graph.nodes[e]? = some node)
    (ht : node.type.isIntegral = true) (he : e ∈ S.executed outputs)
    (hz : S.graph.Combines node.type (fun a => (S.value (S.final outputs) a).toInt) e z) :
    S.value (S.final outputs) e = .int (node.type.wrap z) := by
  have hf := everywhere_final hg.captured.wellTyped hr outputs
  have hwrap := wrap_of_combines hg outputs hr ht hz ⟨_, congrArg (Option.map Node.op) hn, .inr he⟩
  have hrange := inRange_value hg.captured.wellTyped hr hf e
  rw [Graph.nodeType_eq hn] at hrange
  obtain ⟨y, hy, hin⟩ := hrange ht
  rw [hy, Value.toInt, wrap_of_inRange hin] at hwrap
  rw [hy, hwrap]

/-- Integer arithmetic is exact modulo two to the width of the type: what a run evaluates is the one
value of the type that is congruent to what the integers give, and what the definition of the node
denotes, by the rules of the language, is defined and is the same. -/
theorem combination_exact (hr : S.Ranged) {root : NodeId} {node : Node}
    (hn : S.graph.nodes[root]? = some node) (ht : node.type.isIntegral = true)
    (hroot : root ∈ S.executed outputs) {z : Int}
    (hz : S.graph.Combines node.type (fun a => (S.value (S.final outputs) a).toInt) root z) :
    ∃ y, S.value (S.final outputs) root = .int y ∧ (∀ y', node.type.IsResidue z y' ↔ y' = y) ∧
      (node.op.isRing = true → (∀ o ∈ node.op.operands, S.graph.IsInteger o) →
        ∃ x, S.graph.expression node = .phrase x ∧
          x.Denotes (S.holdings (S.final outputs)) node.type y) := by
  have hf := everywhere_final hg.captured.wellTyped hr outputs
  have hy := value_of_combines hg outputs hr hn ht hroot hz
  refine ⟨_, hy, fun y' => isResidue_iff, fun hop hargs => ?_⟩
  obtain ⟨m, hvalue, hmeaning⟩ := exists_computes hg.captured.wellTyped hr hf hn ht hop hargs
  have hread : node.op.isRead = false := by
    cases h : node.op <;> rw [h] at hop <;> first | rfl | cases hop
  rw [← value_final hg outputs hroot hn hread, hy] at hvalue
  rw [Value.int.inj hvalue]
  exact hmeaning

end

end Surroundings

/-- Negates the sum of a product and its first factor, which is of another type. -/
def Draft.mixed : List Call :=
  let bytes : TensorType := ⟨⟨[1]⟩, .i8⟩
  let words : TensorType := ⟨⟨[1]⟩, .u16⟩
  let at0 : Operand := .expr ⟨1, 0, .i64⟩
  [.outputLike words, .positionIn ⟨[1]⟩, .element ⟨1, 0, bytes⟩ [at0], .element ⟨1, 1, words⟩ [at0],
    .binary .mul ⟨1, 1, .i8⟩ (.expr ⟨1, 2, .u16⟩), .binary .add ⟨1, 3, .u16⟩ (.expr ⟨1, 1, .i8⟩),
    .unary .neg ⟨1, 4, .u16⟩, .store ⟨1, 0, words⟩ [at0] (.expr ⟨1, 5, .u16⟩)]

theorem Draft.nodes_mixed :
    ((Draft.start 1 [⟨⟨[1]⟩, .i8⟩, ⟨⟨[1]⟩, .u16⟩]).performAll Draft.mixed).recording.nodes
      = #[⟨.position 0, .i64, 0⟩, ⟨.input 0 [0], .i8, 0⟩, ⟨.input 1 [0], .u16, 0⟩,
        ⟨.binary .mul 1 2, .u16, 0⟩, ⟨.binary .add 3 1, .u16, 0⟩, ⟨.unary .neg 4, .u16, 0⟩] := by
  with_unfolding_all rfl

theorem Surroundings.combination_exact_mixed :
    let words : TensorType := ⟨⟨[1]⟩, .u16⟩
    let s := (Draft.start 1 [⟨⟨[1]⟩, .i8⟩, words]).performAll Draft.mixed
    ∃ g, s.recording.finish "mixed" [⟨1, 0, words⟩] = .ok g ∧
      let S : Surroundings := ⟨g, #[#[.int (-128)], #[.int 65533]], [0]⟩
      ∃ y, S.value (S.final #[]) 5 = .int y ∧
        (∀ y', ElementType.u16.IsResidue (-(-128 * 65533 + -128)) y' ↔ y' = y) ∧
        ∃ x, g.expression ⟨.unary .neg 4, .u16, 0⟩ = .phrase x ∧
          x.Denotes (S.holdings (S.final #[])) .u16 y := by
  intro words s
  have hs : Draft.Leads Draft.OwnBlock (Draft.start 1 [⟨⟨[1]⟩, .i8⟩, words]) s :=
    Draft.leads_performAll (by decide +kernel)
  have hall : (s.recording.finish "mixed" [⟨1, 0, words⟩]).toOption.any (fun g : Graph =>
      let S : Surroundings := ⟨g, #[#[.int (-128)], #[.int 65533]], [0]⟩
      decide (S.Ranged ∧ 5 ∈ S.executed #[] ∧ g.IsInteger 1 ∧
        g.IsInteger 2 ∧ (S.value (S.final #[]) 1).toInt = -128 ∧ (S.value (S.final #[]) 2).toInt = 65533)) = true := by
    decide +kernel
  cases hf : s.recording.finish "mixed" [⟨1, 0, words⟩] with
  | error e =>
    rw [hf] at hall
    cases hall
  | ok g =>
    rw [hf] at hall
    obtain ⟨hr, hrun, hfirst, hsecond, hone, htwo⟩ := of_decide_eq_true hall
    have hg : g.IsScoped := Graph.isScoped_of_finish hs (by decide +kernel) hf
    let S : Surroundings := ⟨g, #[#[.int (-128)], #[.int 65533]], [0]⟩
    have hnodes := (Recording.finished_of_finish hf).nodes.trans Draft.nodes_mixed
    have hproduct : g.nodes[3]? = some ⟨.binary .mul 1 2, .u16, 0⟩ := hnodes ▸ rfl
    have hsum : g.nodes[4]? = some ⟨.binary .add 3 1, .u16, 0⟩ := hnodes ▸ rfl
    have hneg : g.nodes[5]? = some ⟨.unary .neg 4, .u16, 0⟩ := hnodes ▸ rfl
    have hleft : g.Combines .u16 (fun a => (S.value (S.final #[]) a).toInt) 1 (-128) :=
      hone ▸ .leaf hfirst
    have hright : g.Combines .u16 (fun a => (S.value (S.final #[]) a).toInt) 2 65533 :=
      htwo ▸ .leaf hsecond
    obtain ⟨y, hy, hresidue, hmeaning⟩ := Surroundings.combination_exact hg #[] hr hneg rfl hrun
      (.neg hneg (.binary hsum rfl (.binary hproduct rfl hleft hright) hleft))
    refine ⟨g, rfl, y, hy, hresidue, hmeaning rfl fun o ho => ?_⟩
    cases List.mem_singleton.1 ho
    exact ⟨_, hsum, rfl⟩

end TensorKernel

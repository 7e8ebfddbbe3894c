import TensorKernel.Proofs.Draft.Anchoring
import TensorKernel.Proofs.Run.Typing
import TensorKernel.Proofs.Shape.RowMajor
import TensorKernel.Proofs.Source.Meaning

/-! The phrases of a graph have the values that its nodes compute. Operations are written in the
type of their operands, integers in a carrier that wraps; what the text leaves out of an operation
on a value of its type has no effect on that value. -/
namespace TensorKernel

open ElementType

variable {op : BinaryOp} {t type : ElementType} {arg e : NodeId} {head : Code.Head} {v : Value}

/-! Integer operations as they are written. -/

theorem BinaryOp.apply_of_isIntegral (hc : op.isComparison = false) (hl : op.isLogical = false)
    (ht : t.isIntegral = true) (a b : Value) :
    op.apply t a b = .int (op.onInts t a.toInt b.toInt) := by
  unfold apply
  split
  · cases hl
  · cases hl
  · rw [hc, if_neg Bool.false_ne_true]
    cases t <;> cases ht <;> rfl

theorem ElementType.isIntegral_carrier (t : ElementType) : t.carrier.isIntegral = true := by
  cases t <;> rfl

theorem ElementType.carrier_carrier (t : ElementType) : t.carrier.carrier = t.carrier := by
  cases t <;> rfl

/-- Sums, differences and products may be carried out in the carrier. -/
theorem BinaryOp.apply_wrapped (hop : op = .add ∨ op = .sub ∨ op = .mul) (ht : t.isIntegral = true)
    (a b : Value) :
    (op.apply t.carrier (a.convert t.carrier) (b.convert t.carrier)).convert t = op.apply t a b := by
  have hc : op.isComparison = false := by rcases hop with rfl | rfl | rfl <;> rfl
  have hl : op.isLogical = false := by rcases hop with rfl | rfl | rfl <;> rfl
  have hcarrier := t.isIntegral_carrier
  rw [apply_of_isIntegral hc hl hcarrier, apply_of_isIntegral hc hl ht,
    Value.convert_of_isIntegral ht, Value.convert_of_isIntegral hcarrier,
    Value.convert_of_isIntegral hcarrier]
  rcases hop with rfl | rfl | rfl <;>
    simp only [onInts, Value.toInt, fastWrap_eq, carrier_carrier,
      wrap_wrap]

theorem BinaryOp.convert_apply (hop : op = .div ∨ op = .mod) (ht : t.isIntegral = true)
    (a b : Value) : (op.apply t a b).convert t = op.apply t a b := by
  have hc : op.isComparison = false := by rcases hop with rfl | rfl <;> rfl
  have hl : op.isLogical = false := by rcases hop with rfl | rfl <;> rfl
  rw [apply_of_isIntegral hc hl ht, Value.convert_of_isIntegral ht]
  rcases hop with rfl | rfl <;>
    simp only [onInts, Value.toInt, fastWrap_eq, wrap_wrap]

theorem UnaryOp.neg_apply (ht : t.isIntegral = true) (v : Value) :
    UnaryOp.neg.apply t v = BinaryOp.sub.apply t (.int 0) v := by
  cases t <;> cases ht <;> rfl

theorem ElementType.isIntegral_of_not (hb : t.isBool = false) (hf : ¬t.isFloat = true) :
    t.isIntegral = true := by
  have hnumeric := t.isNumeric_eq
  simpa [isNumeric, hb, hf] using hnumeric.symm

theorem BinaryOp.resultType?_numeric (h : (op.isComparison || op.isLogical) = false)
    {a b : ElementType} (ht : op.resultType? a b = some t) :
    t = op.operandType a b ∧ t.isBool = false := by
  rw [resultType?, h, if_neg Bool.false_ne_true] at ht
  cases hb : (op.operandType a b).isBool <;> simp [hb] at ht
  exact ⟨ht.symm, ht ▸ hb⟩

/-! Operations that change nothing. -/

theorem UnaryOp.apply_eq_self {op : UnaryOp}
    (hop : op = .abs ∧ t.isUnsigned = true ∨ (op = .floor ∨ op = .ceil) ∧ t.isIntegral = true)
    (hv : v.Suits t) : op.apply t v = v := by
  have ht : t.isIntegral = true := by
    rcases hop with ⟨-, h⟩ | ⟨-, h⟩
    · simp [ElementType.isIntegral, h]
    · exact h
  have happly : op.apply t v = .int (op.onInt t v.toInt) := by
    rcases hop with ⟨rfl, -⟩ | ⟨rfl | rfl, -⟩ <;> cases t <;> cases ht <;> rfl
  have hsame : op.onInt t v.toInt = v.toInt := by
    rcases hop with ⟨rfl, hu⟩ | ⟨rfl | rfl, -⟩
    · exact if_neg (Int.not_lt.2 (hv.toInt_nonneg hu))
    · rfl
    · rfl
  rw [happly, hsame, ← hv.eq_int ht]

theorem UnaryOp.classify_of_suits {op : UnaryOp} (hop : op = .isInf ∨ op = .isNan ∨ op = .isFinite)
    (ht : t.isFloat = false) (hv : v.Suits t) : op.classify v = decide (op = .isFinite) := by
  cases v with
  | bool b => rcases hop with rfl | rfl | rfl <;> rfl
  | int z => rcases hop with rfl | rfl | rfl <;> rfl
  | single b => rw [show t = .f32 from hv] at ht; cases ht
  | double b => rw [show t = .f64 from hv] at ht; cases ht

/-- The node is spelled out at its uses, or it has a definition. -/
def Graph.Readable (g : Graph) (e : NodeId) : Prop :=
  ∃ node, g.nodes[e]? = some node ∧
    (node.op.isInline = true ∨ Marked g.live e ∧ e ∈ bindsOf g.body)

/-- The setting of the statements is that of a body in good order. -/
structure Code.Setting.Renders (S : Code.Setting) (G : Surroundings) : Prop where
  typed : G.graph.WellTyped
  anchored : G.graph.IsAnchored
  elements : G.InputsSuit
  inputs : S.inputs = G.inputs
  position : S.position = G.position
  types : ∀ (e : NodeId) (node : Node), G.graph.nodes[e]? = some node → node.op.isInline = false →
    Marked G.graph.live e → e ∈ bindsOf G.graph.body → S.types e = node.type

/-- What is defined holds what its node holds. -/
structure Code.Cells.Agrees (c : Code.Cells) (G : Surroundings) (f : Frame) : Prop where
  values : ∀ (e : NodeId) (node : Node), G.graph.nodes[e]? = some node → node.op.isInline = false →
    Marked G.graph.live e → c.values e = f.values.getD e default
  slots : ∀ v, c.slots v = f.slots.getD v default
  outputs : c.outputs = f.outputs
  valueCount : f.values.size = G.graph.nodes.size
  slotCount : f.slots.size = G.graph.slots.length

namespace Surroundings
open Code

variable {G : Surroundings} {S : Setting} {c : Cells} {f : Frame}

theorem valueAs_nodeType (h : G.graph.Readable e) :
    G.valueAs f e (G.graph.nodeType e) = G.value f e := by
  obtain ⟨⟨op, type, scope⟩, hn, -⟩ := h
  rw [Graph.nodeType_eq hn]
  unfold valueAs
  rw [hn]
  cases op with
  | constant v =>
    unfold value
    rw [hn]
  | _ => exact if_pos rfl

theorem value_atom (hs : S.Renders G) (hc : c.Agrees G f) (h : G.graph.Readable e) :
    (G.graph.atom e).phrase.value S c = G.value f e ∧
      (G.graph.atom e).phrase.type S = G.graph.nodeType e := by
  obtain ⟨⟨op, type, scope⟩, hn, hread⟩ := h
  have htyped := hs.typed.nodes e _ hn
  have hnamed (hi : op.isInline = false) : (Phrase.word (.node e)).value S c = f.values.getD e default ∧
      (Phrase.word (.node e)).type S = type := by
    obtain ⟨hlive, hbound⟩ := hread.resolve_left (by simp [hi])
    exact ⟨hc.values e _ hn hi hlive, hs.types e _ hn hi hlive hbound⟩
  rw [Graph.nodeType_eq hn]
  unfold Graph.atom value
  rw [hn]
  cases op with
  | constant v => exact value_literalPhrase S c v type
  | position axis =>
    refine ⟨?_, htyped.1.symm⟩
    rw [← hs.position]
    rfl
  | _ => exact hnamed rfl

theorem value_reference (hs : S.Renders G) (hc : c.Agrees G f) (h : G.graph.Readable e)
    (t : ElementType) :
    (G.graph.reference e t).phrase.value S c = G.valueAs f e t ∧
      (G.graph.reference e t).phrase.type S = t := by
  obtain ⟨hvalue, htype⟩ := value_atom hs hc h
  obtain ⟨⟨op, type, scope⟩, hn, -⟩ := h
  rw [Graph.nodeType_eq hn] at htype
  have hconverted : (Reference.phrase ⟨if type = t then none else some t, G.graph.atom e⟩).value S c
        = (if type = t then G.value f e else (G.value f e).convert t) ∧
      (Reference.phrase ⟨if type = t then none else some t, G.graph.atom e⟩).type S = t := by
    split
    next ht => exact ⟨hvalue, htype.trans ht⟩
    · exact ⟨congrArg (Value.convert t) hvalue, rfl⟩
  unfold Graph.reference valueAs
  rw [Graph.nodeType_eq hn, hn]
  cases op with
  | constant v => exact value_literalPhrase S c v t
  | _ => exact hconverted

theorem value_summand (s : Stride) :
    s.summand.value S c = (s.index.phrase.value S c).toInt * s.step := by
  unfold Stride.summand Summand.value
  by_cases h : s.step = 1 <;> simp [h]

theorem value_offsetOf (strides : List Stride) : (offsetOf strides).value S c
    = strides.foldr (fun s sum => s.summand.value S c + sum) 0 := by
  cases strides with
  | nil => rfl
  | cons s rest => simp [offsetOf, Offset.value, List.foldr_map]

section
variable (hs : S.Renders G) (hc : c.Agrees G f)
include hs hc

theorem value_apply {op : UnaryOp} (hh : ∀ t v, head.applyOne t v = op.apply t v)
    (h : G.graph.Readable arg) :
    (Phrase.apply head (G.graph.atom arg).phrase).value S c
      = op.apply (G.graph.nodeType arg) (G.value f arg) := by
  obtain ⟨hvalue, htype⟩ := value_atom hs hc h
  rw [Phrase.value, hh, hvalue, htype]

theorem value_transcendental {op : UnaryOp} (hop : op.isTranscendental = true)
    (h : G.graph.Readable arg) (ht : op.resultType? (G.graph.nodeType arg) = some type) :
    (G.graph.unaryPhrase op arg type).value S c
      = op.apply (op.operandType (G.graph.nodeType arg))
          (G.valueAs f arg (op.operandType (G.graph.nodeType arg))) := by
  have hoperand : op.operandType (G.graph.nodeType arg) = (G.graph.nodeType arg).floatOf := by
    cases op <;> cases hop <;> rfl
  obtain ⟨hvalue, htype⟩ := value_reference hs hc h (G.graph.nodeType arg).floatOf
  rw [UnaryOp.resultType?_transcendental hop] at ht
  cases ht
  rw [G.graph.unaryPhrase_of_isTranscendental hop, hoperand]
  change op.apply _ _ = _
  rw [hvalue, htype]

theorem value_test (hf : G.Suitable f) {op : UnaryOp}
    (hop : op = .isInf ∨ op = .isNan ∨ op = .isFinite) (h : G.graph.Readable arg)
    (type : ElementType) : (G.graph.unaryPhrase op arg type).value S c
      = op.apply (G.graph.nodeType arg) (G.value f arg) := by
  have hphrase : G.graph.unaryPhrase op arg type = if (G.graph.nodeType arg).isFloat
      then .apply (.library op) (G.graph.atom arg).phrase else .word (.truth (op = .isFinite)) := by
    rcases hop with rfl | rfl | rfl <;> rfl
  have happly (t : ElementType) (v : Value) : op.apply t v = .bool (op.classify v) := by
    rcases hop with rfl | rfl | rfl <;> rfl
  rw [hphrase]
  split
  · exact value_apply hs hc (fun _ _ => rfl) h
  next hfloat =>
    rw [happly, UnaryOp.classify_of_suits hop (Bool.eq_false_iff.2 hfloat) (hf.value hs.typed hs.elements arg)]
    rfl

theorem value_kept (hf : G.Suitable f) {op : UnaryOp}
    (hop : op = .neg ∨ op = .abs ∨ op = .floor ∨ op = .ceil) (h : G.graph.Readable arg)
    (hb : (G.graph.nodeType arg).isBool = false) :
    (G.graph.unaryPhrase op arg (G.graph.nodeType arg)).value S c
      = op.apply (G.graph.nodeType arg) (G.value f arg) := by
  have hvalue := (value_atom hs hc h).1
  have hsuits := hf.value hs.typed hs.elements arg
  have hint (hfloat : ¬(G.graph.nodeType arg).isFloat = true) :=
    isIntegral_of_not hb hfloat
  have hround (hop : op = .floor ∨ op = .ceil) : (if (G.graph.nodeType arg).isFloat
      then .apply (.function (.unary op) (decide (G.graph.nodeType arg = .f32)))
        (G.graph.atom arg).phrase
      else (G.graph.atom arg).phrase : Phrase).value S c
        = op.apply (G.graph.nodeType arg) (G.value f arg) := by
    split
    · exact value_apply hs hc (fun _ _ => rfl) h
    next hfloat => rw [hvalue, UnaryOp.apply_eq_self (.inr ⟨hop, hint hfloat⟩) hsuits]
  rcases hop with rfl | rfl | rfl | rfl
  · unfold Graph.unaryPhrase
    dsimp only
    split
    · exact value_apply hs hc (fun _ _ => rfl) h
    next hfloat =>
      change (BinaryOp.sub.apply _ ((Value.int 0).convert _) (Value.convert _ _)).convert _ = _
      rw [hvalue, UnaryOp.neg_apply (hint hfloat)]
      exact BinaryOp.apply_wrapped (.inr (.inl rfl)) (hint hfloat) _ _
  · unfold Graph.unaryPhrase
    dsimp only
    split
    · exact value_apply hs hc (fun _ _ => rfl) h
    next hfloat =>
      split
      · exact value_apply hs hc (fun _ _ => rfl) h
      next hsigned =>
        have hunsigned : (G.graph.nodeType arg).isUnsigned = true := by
          simpa [ElementType.isIntegral, hsigned] using hint hfloat
        rw [hvalue, UnaryOp.apply_eq_self (.inl ⟨rfl, hunsigned⟩) hsuits]
  · exact hround (.inl rfl)
  · exact hround (.inr rfl)

theorem value_unaryPhrase (hf : G.Suitable f) {op : UnaryOp} (h : G.graph.Readable arg)
    (ht : op.resultType? (G.graph.nodeType arg) = some type) :
    (G.graph.unaryPhrase op arg type).value S c
      = op.apply (op.operandType (G.graph.nodeType arg))
          (G.valueAs f arg (op.operandType (G.graph.nodeType arg))) := by
  have hsame := valueAs_nodeType (f := f) h
  have htest (hop : op = .isInf ∨ op = .isNan ∨ op = .isFinite) := value_test hs hc hf hop h type
  have hkept (hop : op = .neg ∨ op = .abs ∨ op = .floor ∨ op = .ceil) :
      (G.graph.unaryPhrase op arg type).value S c
        = op.apply (G.graph.nodeType arg) (G.value f arg) := by
    rcases UnaryOp.resultType?_cases ht with ⟨-, hno⟩ | ⟨htype, hb⟩
    · rcases hop with rfl | rfl | rfl | rfl <;> simp at hno
    · have hoperand : op.operandType (G.graph.nodeType arg) = G.graph.nodeType arg := by
        rcases hop with rfl | rfl | rfl | rfl <;> rfl
      rw [hoperand] at htype
      subst htype
      exact value_kept hs hc hf hop h hb
  by_cases hop : op.isTranscendental = true
  · exact value_transcendental hs hc hop h ht
  cases op
  case not =>
    have htruth := (value_reference hs hc h .bool).1
    change (Value.bool !(Phrase.value S c _).isTrue) = .bool !(G.valueAs f arg .bool).isTrue
    rw [htruth]
  case neg => exact (hkept (.inl rfl)).trans (congrArg _ hsame.symm)
  case abs => exact (hkept (.inr (.inl rfl))).trans (congrArg _ hsame.symm)
  case floor => exact (hkept (.inr (.inr (.inl rfl)))).trans (congrArg _ hsame.symm)
  case ceil => exact (hkept (.inr (.inr (.inr rfl)))).trans (congrArg _ hsame.symm)
  case isInf => exact (htest (.inl rfl)).trans (congrArg _ hsame.symm)
  case isNan => exact (htest (.inr (.inl rfl))).trans (congrArg _ hsame.symm)
  case isFinite => exact (htest (.inr (.inr rfl))).trans (congrArg _ hsame.symm)
  all_goals exact absurd rfl hop

section
variable {lhs rhs : NodeId} (hl : G.graph.Readable lhs) (hr : G.graph.Readable rhs)
include hl hr

theorem value_joined (op : BinaryOp) (operand : ElementType) :
    (Phrase.joined .plain op (G.graph.reference lhs operand).phrase
      (G.graph.reference rhs operand).phrase).value S c
        = op.apply operand (G.valueAs f lhs operand) (G.valueAs f rhs operand) := by
  obtain ⟨ha, htype⟩ := value_reference hs hc hl operand
  change op.apply _ _ _ = _
  rw [ha, (value_reference hs hc hr operand).1, htype]

theorem value_pair (hh : ∀ t v w, head.applyTwo t v w = op.apply t v w) (operand : ElementType) :
    (Phrase.pair head (G.graph.reference lhs operand).phrase
      (G.graph.reference rhs operand).phrase).value S c
        = op.apply operand (G.valueAs f lhs operand) (G.valueAs f rhs operand) := by
  obtain ⟨ha, htype⟩ := value_reference hs hc hl operand
  rw [Phrase.value, hh, ha, (value_reference hs hc hr operand).1, htype]

theorem value_wrapped (hop : op = .add ∨ op = .sub ∨ op = .mul) (operand : ElementType) :
    (if operand.isIntegral
      then .joined (.cast operand) op
        (.apply (.cast operand.carrier) (G.graph.reference lhs operand).phrase)
        (.apply (.cast operand.carrier) (G.graph.reference rhs operand).phrase)
      else .joined .plain op (G.graph.reference lhs operand).phrase
        (G.graph.reference rhs operand).phrase : Phrase).value S c
        = op.apply operand (G.valueAs f lhs operand) (G.valueAs f rhs operand) := by
  split
  next hint =>
    change (op.apply _ (Value.convert _ _) (Value.convert _ _)).convert operand = _
    rw [(value_reference hs hc hl operand).1, (value_reference hs hc hr operand).1]
    exact BinaryOp.apply_wrapped hop hint _ _
  · exact value_joined hs hc hl hr op operand

theorem value_converted (hop : op = .div ∨ op = .mod) {operand : ElementType}
    (hint : operand.isIntegral = true) :
    (Phrase.joined (.cast operand) op (G.graph.reference lhs operand).phrase
      (G.graph.reference rhs operand).phrase).value S c
        = op.apply operand (G.valueAs f lhs operand) (G.valueAs f rhs operand) :=
  (congrArg (Value.convert operand) (value_joined hs hc hl hr op operand)).trans
    (BinaryOp.convert_apply hop hint _ _)

theorem value_binaryPhrase
    (ht : op.resultType? (G.graph.nodeType lhs) (G.graph.nodeType rhs) = some type) :
    let operand := op.operandType (G.graph.nodeType lhs) (G.graph.nodeType rhs)
    (G.graph.binaryPhrase op lhs rhs type).value S c
      = op.apply operand (G.valueAs f lhs operand) (G.valueAs f rhs operand) := by
  intro operand
  have hplain := value_joined hs hc hl hr op operand
  have hpair {head : Head} (hh : ∀ t v w, head.applyTwo t v w = op.apply t v w) :=
    value_pair hs hc hl hr hh operand
  by_cases htruth : (op.isComparison || op.isLogical) = true
  · cases op <;> cases htruth <;> exact hplain
  obtain ⟨rfl, hb⟩ := BinaryOp.resultType?_numeric (Bool.eq_false_iff.2 htruth) ht
  cases op
  case add => exact value_wrapped hs hc hl hr (.inl rfl) operand
  case sub => exact value_wrapped hs hc hl hr (.inr (.inl rfl)) operand
  case mul => exact value_wrapped hs hc hl hr (.inr (.inr rfl)) operand
  case div =>
    unfold Graph.binaryPhrase
    dsimp only
    split
    next hint => exact value_converted hs hc hl hr (.inl rfl) hint
    · exact hplain
  case mod =>
    unfold Graph.binaryPhrase
    dsimp only
    split
    · exact hpair fun _ _ _ => rfl
    next hfloat =>
      exact value_converted hs hc hl hr (.inr rfl) (isIntegral_of_not hb hfloat)
  case min => exact hpair fun _ _ _ => rfl
  case max => exact hpair fun _ _ _ => rfl
  case pow => exact hpair fun _ _ _ => rfl
  case atan2 => exact hpair fun _ _ _ => rfl
  all_goals exact absurd rfl htruth

end

theorem value_offset {indices : List NodeId} (h : ∀ i ∈ indices, G.graph.Readable i)
    (type : TensorType) :
    (offsetOf (G.graph.offset type indices)).value S c = G.offset f type indices := by
  rw [value_offsetOf]
  unfold Graph.offset offset
  generalize type.shape.strides = steps
  induction indices generalizing steps with
  | nil => rfl
  | cons i rest ih =>
    cases steps with
    | nil => rfl
    | cons step steps =>
      rw [List.map_cons, Shape.offset_cons, ← ih (fun j hj => h j (List.mem_cons_of_mem i hj)) steps,
        List.zipWith_cons_cons, List.foldr_cons, value_summand,
        (value_reference hs hc (h i List.mem_cons_self) .i64).1]

theorem value_expression (hf : G.Suitable f) {node : Node} (hn : G.graph.nodes[e]? = some node)
    (h : ∀ o ∈ node.op.operands, G.graph.Readable o) :
    (G.graph.expression node).value S c = G.compute f node := by
  have htyped := hs.typed.nodes e node hn
  unfold Graph.expression compute
  cases hop : node.op with
  | input k indices =>
    rw [hop] at htyped h
    obtain ⟨type, hk, -⟩ := htyped
    have hk : G.graph.inputs[k]? = some type := hk
    dsimp only
    rw [hk, Expression.value, hs.inputs]
    exact congrArg (Buffer.load (G.inputs.getD k #[])) (value_offset hs hc h type)
  | constant v => exact (value_literalPhrase S c v node.type).1
  | position axis =>
    rw [← hs.position]
    rfl
  | unary op arg =>
    rw [hop] at htyped h
    obtain ⟨t, harg, hr⟩ := htyped
    rw [← Graph.nodeType_of_signature harg] at hr
    exact value_unaryPhrase hs hc hf (h arg List.mem_cons_self) hr
  | binary op lhs rhs =>
    rw [hop] at htyped h
    obtain ⟨t, u, hl, hr, hresult⟩ := htyped
    rw [← Graph.nodeType_of_signature hl, ← Graph.nodeType_of_signature hr] at hresult
    exact value_binaryPhrase hs hc (h lhs List.mem_cons_self)
      (h rhs (List.mem_cons_of_mem _ List.mem_cons_self)) hresult
  | cast arg =>
    rw [hop] at h
    exact congrArg (Value.convert node.type) (value_atom hs hc (h arg List.mem_cons_self)).1
  | read v => exact hc.slots v

end

end Surroundings
end TensorKernel

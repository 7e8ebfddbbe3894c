import TensorKernel.Proofs.Arithmetic.Combination

/-! Quotients and remainders of integers. Both operands are converted to one type and divided
toward zero, narrow ones as ints, and the result is converted back. Of the quotients only that of
the least integer and minus one leaves a type; where the type is narrower than an int it wraps. -/
namespace TensorKernel

variable {t : ElementType} {f : Int → Int → Int} {op : BinaryOp} {y x : Int}

theorem tmod_between (x y : Int) :
    0 ≤ x.tmod y ∧ x.tmod y ≤ x ∨ x ≤ x.tmod y ∧ x.tmod y ≤ 0 := by
  have habs := Int.natAbs_tmod x y
  have hle : x.natAbs % y.natAbs ≤ x.natAbs := Nat.mod_le _ _
  rcases Int.le_total 0 x with hx | hx
  · have hsign := Int.tmod_nonneg y hx
    omega
  · have hsign := Int.tmod_nonneg y (Int.neg_nonneg_of_nonpos hx)
    rw [Int.neg_tmod] at hsign
    omega

theorem sign_tmod (x y : Int) : x.tmod y = 0 ∨ (x.tmod y).sign = x.sign := by
  rcases Int.lt_trichotomy (x.tmod y) 0 with h | h | h
  · have hx : x < 0 := by have := tmod_between x y; omega
    exact .inr ((Int.sign_eq_neg_one_of_neg h).trans (Int.sign_eq_neg_one_of_neg hx).symm)
  · exact .inl h
  · have hx : 0 < x := by have := tmod_between x y; omega
    exact .inr ((Int.sign_eq_one_of_pos h).trans (Int.sign_eq_one_of_pos hx).symm)

theorem natAbs_tmod_lt (x : Int) (hy : y ≠ 0) : (x.tmod y).natAbs < y.natAbs := by
  rw [Int.natAbs_tmod]
  exact Nat.mod_lt _ (Int.natAbs_pos.2 hy)

namespace ElementType

theorem InRange.tmod (hx : t.InRange x) (y : Int) : t.InRange (x.tmod y) := by
  have hbetween := tmod_between x y
  obtain ⟨hzero, hzero'⟩ := t.inRange_zero
  obtain ⟨hmin, hmax⟩ := hx
  exact ⟨by omega, by omega⟩

theorem InRange.multiplied_back {q b : Int} (hx : t.InRange x) (hq : t.wrap q = t.wrap (x.tdiv y))
    (hb : t.wrap b = t.wrap y) : t.wrap (q * b + x.tmod y) = x := by
  have hproduct : t.wrap (q * b) = t.wrap (x.tdiv y * y) :=
    BinaryOp.wrap_ringOp (rfl : BinaryOp.mul.ringOp? = some (· * ·)) hq hb
  have hsum : t.wrap (q * b + x.tmod y) = t.wrap (x.tdiv y * y + x.tmod y) :=
    BinaryOp.wrap_ringOp (rfl : BinaryOp.add.ringOp? = some (· + ·)) hproduct rfl
  rw [hsum, Int.mul_comm, Int.mul_tdiv_add_tmod, wrap_of_inRange hx]

theorem minValue_eq (ht : t.isIntegral = true) :
    t.minValue = 0 ∨ t.minValue = -(t.maxValue + 1) ∧ 1 ≤ t.maxValue := by
  cases t <;> cases ht <;> decide

theorem InRange.tdiv (ht : t.isIntegral = true) (hx : t.InRange x) (hy : t.InRange y)
    (hno : ¬(x = t.minValue ∧ y = -1)) : t.InRange (x.tdiv y) := by
  have hle := Int.natAbs_tdiv_le_natAbs x y
  obtain ⟨hxmin, hxmax⟩ := hx
  rcases minValue_eq ht with hmin | ⟨hmin, hmax⟩
  · have hnonneg := Int.tdiv_nonneg (hmin ▸ hxmin) (hmin ▸ hy.1)
    exact ⟨by omega, by omega⟩
  by_cases hone : y = -1
  · subst hone
    rw [Int.tdiv_neg, Int.tdiv_one]
    exact ⟨by omega, by omega⟩
  by_cases hunit : y = 1
  · subst hunit
    rw [Int.tdiv_one]
    exact ⟨hxmin, hxmax⟩
  by_cases hzero : y = 0
  · subst hzero
    rw [Int.tdiv_zero]
    exact t.inRange_zero
  · -- Any other quotient is at most half as large.
    have hhalf : (x.tdiv y).natAbs ≤ x.natAbs / 2 := by
      rw [Int.natAbs_tdiv]
      exact Nat.div_le_div_left (by omega) (by decide)
    exact ⟨by omega, by omega⟩

theorem not_least_widened (ht : t.isIntegral = true) (hx : t.InRange x) (hy : t.InRange y)
    (hno : ¬(t.isSigned = true ∧ 32 ≤ t.bits ∧ x = t.minValue ∧ y = -1)) :
    ¬(x = t.widened.minValue ∧ y = -1) := by
  rintro ⟨rfl, rfl⟩
  cases t <;> cases ht
  case i8 => exact absurd hx (by decide)
  case i16 => exact absurd hx (by decide)
  case i32 => exact hno ⟨rfl, by decide, rfl, rfl⟩
  case i64 => exact hno ⟨rfl, by decide, rfl, rfl⟩
  all_goals exact absurd hy (by decide)

end ElementType

/-- The two operations, on integers. -/
def BinaryOp.quotient? : BinaryOp → Option (Int → Int → Int)
  | div => some Int.tdiv
  | mod => some Int.tmod
  | _ => none

namespace BinaryOp

theorem isNumeric_of_quotient? (hf : op.quotient? = some f) :
    op.isComparison = false ∧ op.isLogical = false := by
  cases op <;> cases hf <;> exact ⟨rfl, rfl⟩

theorem apply_quotient? (hf : op.quotient? = some f) (ht : t.isIntegral = true) (x y : Int) :
    op.apply t (.int x) (.int y) = .int (t.wrap (f x y)) := by
  obtain ⟨hc, hl⟩ := isNumeric_of_quotient? hf
  rw [apply_of_isIntegral hc hl ht]
  cases op <;> cases hf <;> simp only [onInts, Value.toInt, ElementType.fastWrap_eq]

end BinaryOp

theorem Code.Phrase.Denotes.quotient {H : Holdings} {x y : Phrase} (hf : op.quotient? = some f)
    {a b : Int} (hx : x.Denotes H t a) (hy : y.Denotes H t b) (hb : b ≠ 0)
    (hno : ¬(t.isSigned = true ∧ 32 ≤ t.bits ∧ a = t.minValue ∧ b = -1)) :
    (Phrase.joined (.cast t) op x y).Denotes H t (t.wrap (f a b)) := by
  have ht := hx.isIntegral
  have hwide := ElementType.isIntegral_widened ht
  have ha := hx.inRange.widened ht
  have hleast := ElementType.not_least_widened ht hx.inRange hy.inRange hno
  have hquotient := ha.tdiv hwide (hy.inRange.widened ht) hleast
  have hremainder := ha.tmod b
  have hdefined := Quantity.of?_eq_some hwide hquotient
  cases op <;> cases hf
  case div =>
    refine hx.joined hy ?_ hquotient ht
    rw [Quantity.compute?, if_neg hb, Quantity.settle?_of_inRange hquotient]
  case mod =>
    refine hx.joined hy ?_ hremainder ht
    rw [Quantity.compute?, if_neg hb, Quantity.settle?_of_inRange hquotient, hdefined,
      Option.bind_some, Quantity.settle?_of_inRange hremainder]

namespace Surroundings
open Code

theorem computes_quotient {S : Surroundings} {f : Frame} (hg : S.graph.WellTyped) (hr : S.Ranged)
    (hf : S.Everywhere (fun t v => v.InRange t) f) {e a b : NodeId} {scope : ScopeId}
    {fn : Int → Int → Int} (ht : t.isIntegral = true)
    (hn : S.graph.nodes[e]? = some ⟨.binary op a b, t, scope⟩) (hop : op.quotient? = some fn)
    (ha : S.graph.IsInteger a) (hb : S.graph.IsInteger b) (hx : S.valueAs f a t = .int x)
    (hy : S.valueAs f b t = .int y) (hzero : y ≠ 0)
    (hno : ¬(t.isSigned = true ∧ 32 ≤ t.bits ∧ x = t.minValue ∧ y = -1)) :
    S.Computes f ⟨.binary op a b, t, scope⟩ (fn x y) := by
  have htype := hg.operandType_eq hn (BinaryOp.isNumeric_of_quotient? hop)
  constructor
  · change op.apply _ (S.valueAs f a _) (S.valueAs f b _) = _
    rw [htype, hx, hy, BinaryOp.apply_quotient? hop ht]
  · have hfloat : t.isFloat = false := by cases t <;> cases ht <;> rfl
    have hphrase : S.graph.binaryPhrase op a b t = .joined (.cast t) op
        (S.graph.reference a t).phrase (S.graph.reference b t).phrase := by
      unfold Graph.binaryPhrase
      rw [htype]
      cases op <;> cases hop <;> simp [ht, hfloat]
    have hleft := denotes_reference hg hr hf ha ht
    have hright := denotes_reference hg hr hf hb ht
    rw [valueAs_of_isInteger hg hr hf ha ht] at hx
    rw [valueAs_of_isInteger hg hr hf hb ht] at hy
    rw [Value.int.inj hx] at hleft
    rw [Value.int.inj hy] at hright
    exact ⟨_, congrArg Expression.phrase hphrase, hleft.quotient hop hright hzero hno⟩

/-- The division law. The operands are converted to the type in which they meet; the quotient is
rounded toward zero and reduced, the remainder is smaller than the divisor and has the sign of the
dividend, and every expression of the graph that multiplies back and adds the remainder gives the
dividend. The definitions of both nodes denote their values. -/
theorem division_law {S : Surroundings} (hg : S.graph.IsScoped) (outputs : Array Buffer)
    (hr : S.Ranged) {a b q r : NodeId} (ha : S.graph.IsInteger a) (hb : S.graph.IsInteger b)
    {T U : ElementType} {i j : ScopeId}
    (hq : S.graph.nodes[q]? = some ⟨.binary .div a b, T, i⟩)
    (hm : S.graph.nodes[r]? = some ⟨.binary .mod a b, U, j⟩)
    (hqrun : q ∈ S.executed outputs) (hrrun : r ∈ S.executed outputs) {x y : Int}
    (hx : S.valueAs (S.final outputs) a T = .int x) (hy : S.valueAs (S.final outputs) b T = .int y)
    (hzero : y ≠ 0) (hno : ¬(T.isSigned = true ∧ 32 ≤ T.bits ∧ x = T.minValue ∧ y = -1)) :
    (T = (S.graph.nodeType a).promote (S.graph.nodeType b) ∧ U = T) ∧
    S.value (S.final outputs) q = .int (T.wrap (x.tdiv y)) ∧
    S.value (S.final outputs) r = .int (x.tmod y) ∧
    (x.tmod y).natAbs < y.natAbs ∧ (x.tmod y = 0 ∨ (x.tmod y).sign = x.sign) ∧
    (∀ (s : NodeId) (node : Node), S.graph.nodes[s]? = some node → node.type = T →
      s ∈ S.executed outputs →
      S.graph.Combines T (fun e => (S.value (S.final outputs) e).toInt) s
        ((S.value (S.final outputs) q).toInt * (S.value (S.final outputs) b).toInt +
          (S.value (S.final outputs) r).toInt) →
      S.value (S.final outputs) s = .int x) ∧
    (∃ p, S.graph.expression ⟨.binary .div a b, T, i⟩ = .phrase p ∧
      p.Denotes (S.holdings (S.final outputs)) T (T.wrap (x.tdiv y))) ∧
    ∃ p, S.graph.expression ⟨.binary .mod a b, U, j⟩ = .phrase p ∧
      p.Denotes (S.holdings (S.final outputs)) T (x.tmod y) := by
  have hwell := hg.captured.wellTyped
  have hf := everywhere_final hwell hr outputs
  have hT : (S.graph.nodeType a).promote (S.graph.nodeType b) = T := hwell.operandType_eq hq ⟨rfl, rfl⟩
  have hU : (S.graph.nodeType a).promote (S.graph.nodeType b) = U := hwell.operandType_eq hm ⟨rfl, rfl⟩
  obtain rfl : U = T := hU.symm.trans hT
  have ht : U.isIntegral = true := hT ▸ ElementType.promote_isIntegral ha.nodeType hb.nodeType
  have hdiv : BinaryOp.div.quotient? = some Int.tdiv := rfl
  have hmod : BinaryOp.mod.quotient? = some Int.tmod := rfl
  obtain ⟨hqvalue, hqmeaning⟩ := computes_quotient hwell hr hf ht hq hdiv ha hb hx hy hzero hno
  obtain ⟨hrvalue, hrmeaning⟩ := computes_quotient hwell hr hf ht hm hmod ha hb hx hy hzero hno
  rw [← value_final hg outputs hqrun hq rfl] at hqvalue
  rw [← value_final hg outputs hrrun hm rfl] at hrvalue
  have hxwrap : U.wrap (S.value (S.final outputs) a).toInt = x :=
    Value.int.inj ((valueAs_of_isInteger hwell hr hf ha ht).symm.trans hx)
  have hywrap : U.wrap (S.value (S.final outputs) b).toInt = y :=
    Value.int.inj ((valueAs_of_isInteger hwell hr hf hb ht).symm.trans hy)
  have hxrange : U.InRange x := hxwrap ▸ U.wrap_inRange _
  have hmwrap : U.wrap (x.tmod y) = x.tmod y := ElementType.wrap_of_inRange (hxrange.tmod y)
  dsimp only at hqvalue hrvalue hqmeaning hrmeaning
  rw [hmwrap] at hrvalue hrmeaning
  refine ⟨⟨hT.symm, rfl⟩, hqvalue, hrvalue, natAbs_tmod_lt x hzero, sign_tmod x y, ?_, hqmeaning,
    hrmeaning⟩
  intro s node hn htype hs hcombines
  subst htype
  rw [value_of_combines hg outputs hr hn ht hs hcombines, hqvalue, hrvalue, Value.toInt, Value.toInt]
  have hdivisor : node.type.wrap (S.value (S.final outputs) b).toInt = node.type.wrap y := by
    rw [← hywrap, node.type.wrap_wrap]
  exact congrArg Value.int (hxrange.multiplied_back (node.type.wrap_wrap _) hdivisor)

end Surroundings

/-- Divides bytes, and multiplies back. -/
def Draft.divided : List Call :=
  let bytes : TensorType := ⟨⟨[1]⟩, .i8⟩
  let at0 : Operand := .expr ⟨1, 0, .i64⟩
  let byte (e : NodeId) : Expr := ⟨1, e, .i8⟩
  [.outputLike bytes, .positionIn ⟨[1]⟩, .element ⟨1, 0, bytes⟩ [at0], .element ⟨1, 1, bytes⟩ [at0],
    .binary .div (byte 1) (.expr (byte 2)), .binary .mod (byte 1) (.expr (byte 2)),
    .binary .mul (byte 3) (.expr (byte 2)), .binary .add (byte 5) (.expr (byte 4)),
    .store ⟨1, 0, bytes⟩ [at0] (.expr (byte 6))]

theorem Draft.nodes_divided :
    ((Draft.start 1 [⟨⟨[1]⟩, .i8⟩, ⟨⟨[1]⟩, .i8⟩]).performAll Draft.divided).recording.nodes
      = #[⟨.position 0, .i64, 0⟩, ⟨.input 0 [0], .i8, 0⟩, ⟨.input 1 [0], .i8, 0⟩,
        ⟨.binary .div 1 2, .i8, 0⟩, ⟨.binary .mod 1 2, .i8, 0⟩, ⟨.binary .mul 3 2, .i8, 0⟩,
        ⟨.binary .add 5 4, .i8, 0⟩] := by
  with_unfolding_all rfl

/-- The least byte and minus one: the quotient wraps. -/
theorem Surroundings.division_law_divided :
    let bytes : TensorType := ⟨⟨[1]⟩, .i8⟩
    let s := (Draft.start 1 [bytes, bytes]).performAll Draft.divided
    ∃ g, s.recording.finish "divided" [⟨1, 0, bytes⟩] = .ok g ∧
      let S : Surroundings := ⟨g, #[#[.int (-128)], #[.int (-1)]], [0]⟩
      S.value (S.final #[]) 3 = .int (ElementType.i8.wrap 128) ∧ ElementType.i8.wrap 128 = -128 ∧
      S.value (S.final #[]) 4 = .int 0 ∧ S.value (S.final #[]) 6 = .int (-128) ∧
      ∃ p, g.expression ⟨.binary .div 1 2, .i8, 0⟩ = .phrase p ∧
        p.Denotes (S.holdings (S.final #[])) .i8 (ElementType.i8.wrap 128) := by
  intro bytes s
  have hs : Draft.Leads Draft.OwnBlock (Draft.start 1 [bytes, bytes]) s :=
    Draft.leads_performAll (by decide +kernel)
  have hall : (s.recording.finish "divided" [⟨1, 0, bytes⟩]).toOption.any (fun g : Graph =>
      let S : Surroundings := ⟨g, #[#[.int (-128)], #[.int (-1)]], [0]⟩
      decide (S.Ranged ∧ 3 ∈ S.executed #[] ∧ 4 ∈ S.executed #[] ∧ 6 ∈ S.executed #[] ∧
        g.IsInteger 1 ∧ g.IsInteger 2 ∧ S.valueAs (S.final #[]) 1 .i8 = .int (-128) ∧
        S.valueAs (S.final #[]) 2 .i8 = .int (-1))) = true := by
    decide +kernel
  cases hf : s.recording.finish "divided" [⟨1, 0, bytes⟩] with
  | error e =>
    rw [hf] at hall
    cases hall
  | ok g =>
    rw [hf] at hall
    obtain ⟨hr, hqrun, hrrun, hsrun, ha, hb, hx, hy⟩ := of_decide_eq_true hall
    have hg : g.IsScoped := Graph.isScoped_of_finish hs (by decide +kernel) hf
    have hnodes := (Recording.finished_of_finish hf).nodes.trans Draft.nodes_divided
    have hq : g.nodes[3]? = some ⟨.binary .div 1 2, .i8, 0⟩ := hnodes ▸ rfl
    have hm : g.nodes[4]? = some ⟨.binary .mod 1 2, .i8, 0⟩ := hnodes ▸ rfl
    have hproduct : g.nodes[5]? = some ⟨.binary .mul 3 2, .i8, 0⟩ := hnodes ▸ rfl
    have hsum : g.nodes[6]? = some ⟨.binary .add 5 4, .i8, 0⟩ := hnodes ▸ rfl
    obtain ⟨-, hquotient, hremainder, -, -, hback, hmeaning, -⟩ :=
      Surroundings.division_law hg #[] hr ha hb hq hm hqrun hrrun hx hy (by decide) (by decide)
    refine ⟨g, rfl, hquotient, by decide, hremainder, hback 6 _ hsum rfl hsrun ?_, hmeaning⟩
    exact .binary hsum rfl (.binary hproduct rfl (.leaf ⟨_, hq, rfl⟩) (.leaf hb))
      (.leaf ⟨_, hm, rfl⟩)

end TensorKernel

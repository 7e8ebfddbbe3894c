import TensorKernel.Proofs.Arithmetic.Quantity
import TensorKernel.Proofs.Draft.Scoping

/-! Literals of integral types denote the integers they stand for. A literal is converted when its
node is made and again where the node is used; both conversions are reductions, so it does not
matter that the second one is done by a spelling and not by the program. -/
namespace TensorKernel

open ElementType

variable {t T : ElementType} {z : Int} {text : String}

namespace Literal

/-- The integer that a literal stands for, unless it is a float. -/
def integer? : Literal → Option Int
  | bool b => some b.toNat
  | int z => some z.toInt
  | uint n => some n.toNat
  | float _ => none

variable {v : Literal} {n : Int} (hv : v.integer? = some n)
include hv

theorem toSigned_of_integer? : v.toSigned = ElementType.i64.wrap n := by
  cases v <;> cases hv
  case bool b => cases b <;> rfl
  case int z => exact (wrap_of_inRange ⟨z.le_toInt, Int.le_sub_one_of_lt z.toInt_lt⟩).symm
  case uint k => exact fastWrap_eq .i64 _

theorem toUnsigned_of_integer? : v.toUnsigned = ElementType.u64.wrap n := by
  cases v <;> cases hv
  case bool b => cases b <;> rfl
  case int z => exact fastWrap_eq .u64 _
  case uint k =>
    have hlt : (k.toNat : Int) < 18446744073709551616 := by exact_mod_cast k.toNat_lt
    exact (wrap_of_inRange ⟨Int.natCast_nonneg _, Int.le_sub_one_of_lt hlt⟩).symm

theorem cast_of_integer? (ht : t.isIntegral = true) : v.cast t
    = if t.isSigned then int (Int64.ofInt (t.wrap n)) else uint (UInt64.ofInt (t.wrap n)) := by
  have hsigned : t.wrap v.toSigned = t.wrap n := by
    rw [toSigned_of_integer? hv]
    exact wrap_wrap_of_le (by cases t <;> decide) n
  have hunsigned : t.wrap v.toUnsigned = t.wrap n := by
    rw [toUnsigned_of_integer? hv]
    exact wrap_wrap_of_le (by cases t <;> decide) n
  cases t <;> cases ht <;> simp only [cast, fastWrap_eq, hsigned, hunsigned] <;> rfl

theorem cast_cases (ht : t.isIntegral = true) :
    (∃ z : Int64, v.cast t = int z ∧ z.toInt = t.wrap n) ∨
      ∃ k : UInt64, v.cast t = uint k ∧ (k.toNat : Int) = t.wrap n := by
  have hrange := t.wrap_inRange n
  rw [cast_of_integer? hv ht]
  split
  next hs =>
    have h64 : ElementType.i64.InRange (t.wrap n) := by
      apply hrange.mono <;> cases t <;> cases hs <;> decide
    have hword : (Int64.ofInt (t.wrap n)).toInt = ElementType.i64.wrap (t.wrap n) :=
      fastWrap_eq .i64 _
    exact .inl ⟨_, rfl, hword.trans (wrap_of_inRange h64)⟩
  next hs =>
    have hu : t.isUnsigned = true := by simpa [ElementType.isIntegral, hs] using ht
    have h64 : ElementType.u64.InRange (t.wrap n) := by
      apply hrange.mono <;> cases t <;> cases hu <;> decide
    obtain ⟨hmin, hmax⟩ : 0 ≤ t.wrap n ∧ t.wrap n ≤ 18446744073709551615 := h64
    refine .inr ⟨_, rfl, ?_⟩
    simp only [UInt64.ofInt, UInt64.toNat_ofNat']
    omega

theorem integer?_cast (ht : t.isIntegral = true) : (v.cast t).integer? = some (t.wrap n) := by
  obtain ⟨z, h, hz⟩ | ⟨k, h, hk⟩ := cast_cases hv ht
  · rw [h, integer?, hz]
  · rw [h, integer?, hk]

theorem ofLiteral_of_integer? (ht : t.isIntegral = true) :
    Value.ofLiteral v t = .int (t.wrap n) := by
  unfold Value.ofLiteral
  obtain ⟨z, h, hz⟩ | ⟨k, h, hk⟩ := cast_cases hv ht
  · rw [h, ← hz]
  · rw [h, ← hk]

end Literal

namespace Code

theorem Phrase.chars_inj {x y : Phrase} (h : x.chars = y.chars) : x = y :=
  (append_inj ends_semicolon ends_semicolon (congrArg (· ++ [';']) h)).1

def Word.Fits (w : Word) : Prop := ∃ n t, w.token? = some (n, t) ∧ t.InRange n

/-- The text can be read in one way, as a phrase of numbers that fit, and denotes the integer. -/
def Spells (text : String) (t : ElementType) (z : Int) : Prop :=
  ∃ x : Phrase, (∀ y : Phrase, y.chars = text.toList ↔ y = x) ∧ (∀ w ∈ x.words, w.Fits) ∧
    ∀ H, x.Denotes H t z

theorem Spells.of_phrase {x : Phrase} (htext : text.toList = x.chars)
    (hfits : ∀ w ∈ x.words, w.Fits) (hx : ∀ H, x.Denotes H t z) : Spells text t z := by
  refine ⟨x, fun y => ⟨fun hy => Phrase.chars_inj (hy.trans htext), ?_⟩, hfits, hx⟩
  rintro rfl
  exact htext.symm

theorem Spells.unique {u : ElementType} {a b : Int} (h : Spells text t a) (h' : Spells text u b) :
    t = u ∧ a = b := by
  obtain ⟨x, hread, -, hx⟩ := h
  obtain ⟨y, hread', -, hy⟩ := h'
  obtain rfl := (hread' x).1 ((hread x).2 rfl)
  exact (hx ⟨fun _ => none, fun _ => none⟩).unique (hy _)

theorem Spells.cast {t : ElementType} {z : Int} (h : Spells text t z) {u : ElementType}
    (hu : u.isIntegral = true) : Spells (castText u.spelling text) u (u.wrap z) := by
  obtain ⟨x, hread, hfits, hx⟩ := h
  refine .of_phrase (x := .apply (.cast u) x) ?_ hfits fun H => (hx H).cast hu
  rw [toList_castText, ← (hread x).2 rfl]
  rfl

theorem inRange_natAbs (hz : ElementType.i64.InRange z) (hmin : z ≠ ElementType.i64.minValue) :
    ElementType.i64.InRange z.natAbs := by
  have hlow : (-9223372036854775808 : Int) ≤ z ∧ z ≤ 9223372036854775807 := hz
  have hne : z ≠ -9223372036854775808 := hmin
  show (-9223372036854775808 : Int) ≤ z.natAbs ∧ (z.natAbs : Int) ≤ 9223372036854775807
  omega

section
variable {H : Holdings}

theorem denotes_signed (hz : ElementType.i64.InRange z) (hmin : z ≠ ElementType.i64.minValue) :
    (Phrase.word (.signed z)).Denotes H .i64 z := by
  have habs := inRange_natAbs hz hmin
  apply Phrase.denotes_of_eq rfl hz
  rw [Phrase.quantity?, Word.quantity?, Quantity.of?_eq_some rfl habs, Option.bind_some]
  split
  next hneg =>
    -- The zero is an int, so the difference is one of the token's own type.
    change Quantity.settle? .i64 (ElementType.i64.wrap 0 - ElementType.i64.wrap z.natAbs) = _
    have hzero : ElementType.i64.wrap 0 = 0 := rfl
    rw [wrap_of_inRange habs, hzero, show (0 : Int) - z.natAbs = z by omega,
      Quantity.settle?_of_inRange hz]
  next hneg =>
    rw [Quantity.of?_eq_some rfl hz]
    congr
    omega

theorem denotes_integerPhrase (hz : ElementType.i64.InRange z) :
    (integerPhrase z).Denotes H .i64 z := by
  unfold integerPhrase
  split
  next h =>
    subst h
    exact ⟨⟨.i64, _, rfl, hz⟩, rfl, rfl, rfl⟩
  next h => exact denotes_signed hz h

theorem denotes_unsigned {n : Nat} (hn : ElementType.u64.InRange n) :
    (Phrase.word (.unsigned n)).Denotes H .u64 n :=
  Phrase.denotes_of_eq rfl hn rfl

end

theorem fits_integerPhrase (hz : ElementType.i64.InRange z) :
    ∀ w ∈ (integerPhrase z).words, w.Fits := by
  unfold integerPhrase
  split
  · intro w hw
    rcases List.mem_cons.1 hw with rfl | hw
    · exact ⟨_, _, rfl, by decide⟩
    · cases List.mem_singleton.1 hw
      exact ⟨_, _, rfl, by decide⟩
  next hmin =>
    intro w hw
    cases List.mem_singleton.1 hw
    exact ⟨_, _, rfl, inRange_natAbs hz hmin⟩

end Code

namespace Literal
open Code

variable {v : Literal} {n : Int} (hv : v.integer? = some n)
include hv

theorem denotes_literalPhrase {H : Holdings} (ht : t.isIntegral = true) :
    (literalPhrase v t).Denotes H t (t.wrap n) ∧ ∀ w ∈ (literalPhrase v t).words, w.Fits := by
  unfold literalPhrase
  rw [← t.wrap_wrap]
  obtain ⟨z, h, hz⟩ | ⟨k, h, hk⟩ := cast_cases hv ht
  · have hrange : ElementType.i64.InRange z.toInt := ⟨z.le_toInt, Int.le_sub_one_of_lt z.toInt_lt⟩
    rw [h, ← hz]
    exact ⟨(denotes_integerPhrase hrange).cast ht, fits_integerPhrase hrange⟩
  · have hlt : (k.toNat : Int) < 18446744073709551616 := by exact_mod_cast k.toNat_lt
    have hrange : ElementType.u64.InRange k.toNat :=
      ⟨Int.natCast_nonneg _, Int.le_sub_one_of_lt hlt⟩
    rw [h, ← hk]
    refine ⟨(denotes_unsigned hrange).cast ht, fun w hw => ?_⟩
    cases List.mem_singleton.1 hw
    exact ⟨_, _, rfl, hrange⟩

theorem spells_spelling (ht : t.isIntegral = true) : Spells (v.spelling t) t (t.wrap n) :=
  .of_phrase (toList_spelling v t) (denotes_literalPhrase hv (H := ⟨fun _ => none, fun _ => none⟩) ht).2
    fun _ => (denotes_literalPhrase hv ht).1

theorem spelling_eq_iff {w : Literal} {m : Int} (hw : w.integer? = some m)
    (ht : t.isIntegral = true) : v.spelling t = w.spelling t ↔ t.wrap n = t.wrap m := by
  constructor
  · intro h
    exact ((spells_spelling hv ht).unique (h ▸ spells_spelling hw ht)).2
  · intro h
    unfold spelling
    rw [cast_of_integer? hv ht, cast_of_integer? hw ht, h]

end Literal

/-! Constants keep the literal they were made of. -/

namespace Recording

theorem ops_closeBlock (r : Recording) : r.closeBlock.2.ops = r.ops := by
  unfold closeBlock
  split <;> rfl

theorem ops_addBranch (r : Recording) (index : Nat) (guard : Option NodeId) (body : List Stmt) :
    (r.addBranch index guard body).ops = r.ops := by
  unfold addBranch
  split <;> rfl

end Recording

namespace Draft
open Recording

theorem Move.ops {s t : Draft} {c : Call} (h : Move s c t) {e : NodeId} {op : Op}
    (ho : s.recording.ops e = some op) : t.recording.ops e = some op := by
  cases h with
  | edit he => exact he.grows.ops e op ho
  | enter => exact ho
  | resume _ _ _ _ _ hq =>
    obtain ⟨-, before, chain, bound, sealed, h⟩ := reopened_of_reopen hq
    exact (congrFun h.ops e).trans ho
  | @leave p rest _ _ =>
    cases p with
    | first cond => exact (congrFun s.recording.ops_closeBlock e).trans ho
    | further key index guard =>
      exact (congrFun ((ops_addBranch _ index guard _).trans s.recording.ops_closeBlock) e).trans ho
  | abandon => exact (congrFun s.recording.ops_closeBlock e).trans ho

theorem Leads.constant {rule : Draft → Call → Prop} {s t : Draft} (hs : s.Holds) (v : Literal)
    (type : ElementType) (h : Leads rule (s.perform (.constant v type)) t) {name : String}
    {returned : List OutputTensor} {g : Graph} (hg : t.recording.finish name returned = .ok g) :
    ∃ scope, g.nodes[(s.recording.constant v type).1.id]?
      = some ⟨.constant (v.cast type), type, scope⟩ := by
  let Kept (d : Draft) : Prop :=
    d.recording.ops (s.recording.constant v type).1.id = some (.constant (v.cast type)) ∧
      d.recording.signature.nodes (s.recording.constant v type).1.id = some type
  have hmade : (s.perform (.constant v type)).recording.nodes[(s.recording.constant v type).1.id]?
      = some ⟨.constant (v.cast type), type, rootScope⟩ := Array.getElem?_push_size
  have hadmits : s.Admits (.constant v type) := trivial
  have hkept : Kept t := by
    refine h.invariant ((move_perform hs hadmits).holds hs) ⟨?_, ?_⟩
      fun _ _ _ _ hd _ hm => ⟨hm.ops hd.1, hm.keeps.types.nodes _ _ hd.2⟩
    · exact Option.map_eq_some_iff.2 ⟨_, hmade, rfl⟩
    · exact Option.map_eq_some_iff.2 ⟨_, hmade, rfl⟩
  obtain ⟨⟨op, u, scope⟩, hn, hop⟩ := Option.map_eq_some_iff.1 hkept.1
  obtain ⟨node, hn', hu⟩ := Option.map_eq_some_iff.1 hkept.2
  cases hn.symm.trans hn'
  obtain rfl : op = .constant (v.cast type) := hop
  obtain rfl : u = type := hu
  rw [(finished_of_finish hg).graph]
  exact ⟨scope, hn⟩

end Draft

section
variable {v : Literal} {n : Int} {S : ElementType} {g : Graph} {e : NodeId} {scope : ScopeId}
  (hv : v.integer? = some n) (hS : S.isIntegral = true)
  (he : g.nodes[e]? = some ⟨.constant (v.cast S), S, scope⟩)
include hv hS he

theorem Graph.spells_reference (hT : T.isIntegral = true) :
    Code.Spells (g.reference e T).text T (T.wrap (S.wrap n)) ∧
      Code.Spells (Code.castText T.spelling (g.atom e).text) T (T.wrap (S.wrap n)) := by
  have hcast := Literal.integer?_cast hv hS
  have hatom : g.atom e = .literal (v.cast S) S := by
    unfold Graph.atom
    rw [he]
  have hreference : g.reference e T = ⟨none, .literal (v.cast S) T⟩ := by
    unfold Graph.reference
    rw [he]
  have hown : Code.Spells (g.atom e).text S (S.wrap n) := by
    rw [hatom, ← S.wrap_wrap]
    exact Literal.spells_spelling hcast hS
  rw [hreference]
  exact ⟨Literal.spells_spelling hcast hT, hown.cast hT⟩

theorem Surroundings.valueAs_constant (inputs : Array Buffer) (position : List Nat) (f : Frame)
    (hT : T.isIntegral = true) :
    valueAs ⟨g, inputs, position⟩ f e T = .int (T.wrap (S.wrap n)) ∧
      (value ⟨g, inputs, position⟩ f e).convert T = .int (T.wrap (S.wrap n)) := by
  have hcast := Literal.integer?_cast hv hS
  have hvalue : value ⟨g, inputs, position⟩ f e = .int (S.wrap n) := by
    unfold value
    rw [he, ← S.wrap_wrap]
    exact Literal.ofLiteral_of_integer? hcast hS
  constructor
  · unfold valueAs
    rw [he]
    exact Literal.ofLiteral_of_integer? hcast hT
  · rw [hvalue, Value.convert_of_isIntegral hT]
    rfl

end

/-- An integer literal of an integral type can be read in one way, without overflow, and denotes the
one value of the type that is congruent to it. Literals with one value there have one spelling. A
constant that was made in one type denotes, where another is needed, its value converted to that
type, in the code as in a run. -/
theorem Literal.spelling_denotes {v : Literal} {n : Int} (hv : v.integer? = some n) :
    (∀ T : ElementType, T.isIntegral = true →
      (∃ z, Code.Spells (v.spelling T) T z ∧ ∀ y, T.IsResidue n y ↔ y = z) ∧
      ∀ (w : Literal) (m : Int), w.integer? = some m →
        (v.spelling T = w.spelling T ↔ Value.ofLiteral v T = Value.ofLiteral w T)) ∧
    ∀ S : ElementType, S.isIntegral = true →
      (∀ (s t : Draft) (id : RecordingId) (inputs : List TensorType) (name : String)
        (returned : List OutputTensor) (g : Graph), Draft.Reachable id inputs s →
        Draft.Leads Draft.Anything (s.perform (.constant v S)) t →
        t.recording.finish name returned = .ok g →
        ∃ scope, g.nodes[(s.recording.constant v S).1.id]?
          = some ⟨.constant (v.cast S), S, scope⟩) ∧
      ∀ (g : Graph) (e : NodeId) (scope : ScopeId),
        g.nodes[e]? = some ⟨.constant (v.cast S), S, scope⟩ →
        ∀ T : ElementType, T.isIntegral = true → ∃ z,
          Code.Spells (g.reference e T).text T z ∧
          Code.Spells (Code.castText T.spelling (g.atom e).text) T z ∧
          ∀ (inputs : Array Buffer) (position : List Nat) (f : Frame),
            Surroundings.valueAs ⟨g, inputs, position⟩ f e T = .int z ∧
            (Surroundings.value ⟨g, inputs, position⟩ f e).convert T = .int z := by
  refine ⟨fun T hT => ⟨⟨_, spells_spelling hv hT, fun y => isResidue_iff⟩, ?_⟩,
    fun S hS => ⟨?_, ?_⟩⟩
  · intro w m hw
    rw [spelling_eq_iff hv hw hT, ofLiteral_of_integer? hv hT, ofLiteral_of_integer? hw hT]
    exact Value.int.injEq .. ▸ Iff.rfl
  · intro s t id inputs name returned g hs ht hg
    exact ht.constant (hs.holds (Draft.holds_start id inputs)) v S hg
  · intro g e scope he T hT
    obtain ⟨hliteral, hconverted⟩ := Graph.spells_reference hv hS he hT
    exact ⟨_, hliteral, hconverted, fun inputs position f =>
      Surroundings.valueAs_constant hv hS he inputs position f hT⟩

/-- The least integer of 64 bits, stored where a natural number is expected. -/
theorem Literal.spelling_denotes_least :
    let least : Literal := .int (-9223372036854775808)
    let vector : TensorType := ⟨⟨[2]⟩, .u64⟩
    let s := ((Draft.start 1 []).perform (.constant least .i64)).performAll
      [.outputLike vector, .positionIn ⟨[2]⟩,
        .store ⟨1, 0, vector⟩ [.expr ⟨1, 1, .i64⟩] (.expr ⟨1, 0, .i64⟩)]
    (∃ z, Code.Spells "static_cast<int64_t>((-9223372036854775807LL - 1))" .i64 z ∧
      ∀ y, ElementType.i64.IsResidue (-9223372036854775808) y ↔ y = z) ∧
    (least.spelling .u32 = (Literal.bool false).spelling .u32 ↔
      Value.ofLiteral least .u32 = Value.ofLiteral (.bool false) .u32) ∧
    ∃ g, s.recording.finish "least" [⟨1, 0, vector⟩] = .ok g ∧ ∃ z,
      Code.Spells (g.reference 0 .u64).text .u64 z ∧
      Code.Spells (Code.castText "uint64_t" (g.atom 0).text) .u64 z ∧
      Surroundings.valueAs ⟨g, #[], [1]⟩ ⟨#[], #[], #[]⟩ 0 .u64 = .int z ∧
      (Surroundings.value ⟨g, #[], [1]⟩ ⟨#[], #[], #[]⟩ 0).convert .u64 = .int z := by
  intro least vector s
  have hleast : least.integer? = some (-9223372036854775808) := by decide
  have htext : least.spelling .i64 = "static_cast<int64_t>((-9223372036854775807LL - 1))" := by
    decide +kernel
  have hs : Draft.Leads Draft.Anything ((Draft.start 1 []).perform (.constant least .i64)) s :=
    Draft.leads_performAll (by decide +kernel)
  have hok : (s.recording.finish "least" [⟨1, 0, vector⟩]).isOk = true := by decide +kernel
  obtain ⟨hspelled, hmade⟩ := Literal.spelling_denotes hleast
  obtain ⟨hkept, hused⟩ := hmade .i64 rfl
  refine ⟨htext ▸ (hspelled .i64 rfl).1, (hspelled .u32 rfl).2 (.bool false) 0 rfl, ?_⟩
  cases hf : s.recording.finish "least" [⟨1, 0, vector⟩] with
  | error e =>
    rw [hf] at hok
    cases hok
  | ok g =>
    obtain ⟨scope, hn⟩ := hkept (Draft.start 1 []) s 1 [] "least" _ g .refl hs hf
    obtain ⟨z, hliteral, hconverted, hvalue⟩ := hused g 0 scope hn .u64 rfl
    obtain ⟨hone, hother⟩ := hvalue #[] [1] ⟨#[], #[], #[]⟩
    exact ⟨g, rfl, z, hliteral, hconverted, hone, hother⟩

end TensorKernel

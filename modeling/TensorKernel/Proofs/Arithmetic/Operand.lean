import TensorKernel.Proofs.Arithmetic.Literal
import TensorKernel.Proofs.Run.Range

/-! Operands of integer operations. Whatever the type of a node and wherever it is spelled out, the
phrase for it in an integral type denotes its value, reduced into that type, and that is what a run
computes with. -/
namespace TensorKernel

variable {e : NodeId} {t : ElementType} {v : Literal}

def Graph.IsInteger (g : Graph) (e : NodeId) : Prop :=
  ∃ node, g.nodes[e]? = some node ∧ node.type.isIntegral = true

instance (g : Graph) (e : NodeId) : Decidable (g.IsInteger e) :=
  decidable_of_iff (g.nodes[e]?.any (·.type.isIntegral) = true) (by
    unfold Graph.IsInteger
    cases g.nodes[e]? <;> simp)

theorem Graph.IsInteger.nodeType {g : Graph} (h : g.IsInteger e) :
    (g.nodeType e).isIntegral = true := by
  obtain ⟨node, hn, hint⟩ := h
  rw [Graph.nodeType_eq hn]
  exact hint

theorem Literal.InRange.integer? (h : v.InRange t) : ∃ n, v.integer? = some n ∧ t.InRange n := by
  cases v with
  | bool b => cases h
  | int z => exact ⟨z.toInt, rfl, h⟩
  | uint n => exact ⟨n.toNat, rfl, h⟩
  | float x => cases h

namespace Surroundings
open Code

variable {S : Surroundings} {f : Frame}

def holdings (S : Surroundings) (f : Frame) : Holdings where
  node e := Quantity.of? (S.graph.nodeType e) (S.value f e).toInt
  axis k := Quantity.of? .i64 (S.position[k]?.getD 0 : Nat)

section
variable (hg : S.graph.WellTyped) (hr : S.Ranged) (hf : S.Everywhere (fun t v => v.InRange t) f)
include hg hr hf

omit hr hf in
theorem value_of_constant {type : ElementType} {scope : ScopeId}
    (hn : S.graph.nodes[e]? = some ⟨.constant v, type, scope⟩) (hint : type.isIntegral = true) :
    ∃ n, v.integer? = some n ∧ type.wrap n = n ∧ S.value f e = .int n := by
  obtain ⟨n, hv, hin⟩ := Literal.InRange.integer? (hg.nodes e _ hn hint)
  have hwrap := ElementType.wrap_of_inRange hin
  refine ⟨n, hv, hwrap, ?_⟩
  unfold value
  rw [hn]
  dsimp only
  rw [Literal.ofLiteral_of_integer? hv hint, hwrap]

theorem valueAs_of_isInteger (he : S.graph.IsInteger e) (ht : t.isIntegral = true) :
    S.valueAs f e t = .int (t.wrap (S.value f e).toInt) := by
  obtain ⟨⟨op, type, scope⟩, hn, hint⟩ := he
  have hrange := inRange_value hg hr hf e
  rw [Graph.nodeType_eq hn] at hrange
  have hother : (if type = t then S.value f e else (S.value f e).convert t)
      = .int (t.wrap (S.value f e).toInt) := by
    split
    next h =>
      subst h
      obtain ⟨z, hz, hin⟩ := hrange ht
      rw [hz, Value.toInt, ElementType.wrap_of_inRange hin]
    · exact Value.convert_of_isIntegral ht _
  cases op with
  | constant v =>
    obtain ⟨n, hv, -, hvalue⟩ := value_of_constant hg (f := f) hn hint
    rw [hvalue]
    unfold valueAs
    rw [hn]
    exact Literal.ofLiteral_of_integer? hv ht
  | _ =>
    unfold valueAs
    rw [hn]
    exact hother

theorem denotes_atom (he : S.graph.IsInteger e) :
    (S.graph.atom e).phrase.Denotes (S.holdings f) (S.graph.nodeType e) (S.value f e).toInt := by
  have hint := he.nodeType
  have hrange := (inRange_value hg hr hf e).toInt hint
  have hnamed : (Phrase.word (.node e)).Denotes (S.holdings f) (S.graph.nodeType e)
      (S.value f e).toInt := Phrase.denotes_of_eq hint hrange rfl
  obtain ⟨⟨op, type, scope⟩, hn, -⟩ := he
  unfold Graph.atom
  rw [hn]
  cases op with
  | constant v =>
    rw [Graph.nodeType_eq hn] at hint ⊢
    obtain ⟨n, hv, hwrap, hvalue⟩ := value_of_constant hg (f := f) hn hint
    have hliteral := (Literal.denotes_literalPhrase hv (H := S.holdings f) hint).1
    rw [hwrap] at hliteral
    rw [hvalue]
    exact hliteral
  | position axis =>
    have htype : S.graph.nodeType e = .i64 := (Graph.nodeType_eq hn).trans (hg.nodes e _ hn).1
    have hvalue : S.value f e = .int (S.position[axis]?.getD 0 : Nat) := by
      unfold value
      rw [hn]
    rw [htype, hvalue]
    exact Phrase.denotes_of_eq rfl (hr.coordinate axis) rfl
  | _ => exact hnamed

theorem denotes_reference (he : S.graph.IsInteger e) (ht : t.isIntegral = true) :
    (S.graph.reference e t).phrase.Denotes (S.holdings f) t (t.wrap (S.value f e).toInt) := by
  have hatom := denotes_atom hg hr hf he
  have hother : (Reference.phrase ⟨if S.graph.nodeType e = t then none else some t,
      S.graph.atom e⟩).Denotes (S.holdings f) t (t.wrap (S.value f e).toInt) := by
    split
    next h =>
      rw [h] at hatom
      rw [ElementType.wrap_of_inRange hatom.inRange]
      exact hatom
    · exact hatom.cast ht
  obtain ⟨⟨op, type, scope⟩, hn, hint⟩ := he
  cases op with
  | constant v =>
    obtain ⟨n, hv, -, hvalue⟩ := value_of_constant hg (f := f) hn hint
    unfold Graph.reference
    rw [hn, hvalue]
    exact (Literal.denotes_literalPhrase hv ht).1
  | _ =>
    unfold Graph.reference
    rw [hn]
    exact hother

end

end Surroundings
end TensorKernel

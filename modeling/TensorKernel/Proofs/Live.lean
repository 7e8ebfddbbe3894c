import Mathlib.Logic.Relation
import TensorKernel.Graph.Live
import TensorKernel.Proofs.Finish

/-! Liveness is closed: what a statement uses is live, and so are the operands of a live
node. The sweep goes down from the last node, so a node is marked, if at all, before it
is looked at. Nothing else is live: every mark has come down from a use. -/
namespace TensorKernel

variable {marks : Array Bool} {g : Graph} {e n : Nat}

def Marked (marks : Array Bool) (e : NodeId) : Prop := marks[e]? = some true

theorem marked_iff {e : NodeId} : marks[e]?.getD false = true ↔ Marked marks e := by
  unfold Marked
  cases marks[e]? <;> simp

theorem Marked.lt {e : NodeId} (h : Marked marks e) : e < marks.size :=
  (Array.getElem?_eq_some_iff.1 h).1

theorem size_markAll (marks : Array Bool) (es : List NodeId) :
    (markAll marks es).size = marks.size := by
  induction es generalizing marks with
  | nil => rfl
  | cons e rest ih =>
    have hstep : markAll marks (e :: rest) = markAll (marks.setIfInBounds e true) rest := rfl
    rw [hstep, ih, Array.size_setIfInBounds]

theorem marked_markAll {es : List NodeId} (he : e < marks.size) :
    Marked (markAll marks es) e ↔ Marked marks e ∨ e ∈ es := by
  induction es generalizing marks with
  | nil => simp [markAll]
  | cons x rest ih =>
    have hstep : markAll marks (x :: rest) = markAll (marks.setIfInBounds x true) rest := rfl
    rw [hstep, ih (by rwa [Array.size_setIfInBounds])]
    by_cases hx : e = x
    · subst hx
      simp [Marked, Array.getElem?_setIfInBounds_self_of_lt he]
    · simp [Marked, Array.getElem?_setIfInBounds_ne (fun h => hx h.symm), hx]

namespace Graph

def sweepBelow (g : Graph) (n : Nat) (marks : Array Bool) : Array Bool :=
  (List.range n).reverse.foldl g.sweepNode marks

theorem sweepBelow_succ (g : Graph) (n : Nat) (marks : Array Bool) :
    g.sweepBelow (n + 1) marks = g.sweepBelow n (g.sweepNode marks n) := by
  unfold sweepBelow
  rw [List.range_succ, List.reverse_append]
  rfl

theorem size_sweepNode (g : Graph) (marks : Array Bool) (e : NodeId) :
    (g.sweepNode marks e).size = marks.size := by
  unfold sweepNode
  split
  · exact size_markAll _ _
  · rfl

theorem size_sweepBelow (g : Graph) (n : Nat) (marks : Array Bool) :
    (g.sweepBelow n marks).size = marks.size := by
  induction n generalizing marks with
  | zero => rfl
  | succ n ih => rw [sweepBelow_succ, ih, size_sweepNode]

theorem marked_sweepNode {k : Nat} (he : e < marks.size) :
    Marked (g.sweepNode marks k) e ↔ Marked marks e ∨ Marked marks k ∧ e ∈ g.operands k := by
  unfold sweepNode
  split
  next hm => rw [marked_markAll he, and_iff_right (marked_iff.1 hm)]
  next hm =>
    have hno : ¬Marked marks k := fun h => hm (marked_iff.2 h)
    simp [hno]

theorem marked_sweepBelow_of_marked (he : e < marks.size) (h : Marked marks e) :
    Marked (g.sweepBelow n marks) e := by
  induction n generalizing marks with
  | zero => exact h
  | succ n ih =>
    rw [sweepBelow_succ]
    exact ih (by rwa [size_sweepNode]) ((marked_sweepNode he).2 (.inl h))

theorem marked_of_sweepBelow (hg : g.Ordered) (hn : n ≤ e) (he : e < marks.size)
    (h : Marked (g.sweepBelow n marks) e) : Marked marks e := by
  induction n generalizing marks with
  | zero => exact h
  | succ n ih =>
    rw [sweepBelow_succ] at h
    have hstep := ih (by omega) (by rwa [size_sweepNode]) h
    rcases (marked_sweepNode he).1 hstep with hm | ⟨-, ho⟩
    · exact hm
    · have hlt : e < n := hg.lt ho
      omega

theorem marked_operand (hg : g.Ordered) (hn : n ≤ marks.size) {o : Nat} (he : e < n)
    (h : Marked (g.sweepBelow n marks) e) (ho : o ∈ g.operands e) :
    Marked (g.sweepBelow n marks) o := by
  induction n generalizing marks with
  | zero => omega
  | succ n ih =>
    rw [sweepBelow_succ] at h ⊢
    have hsize := g.size_sweepNode marks n
    have hlt : o < e := hg.lt ho
    by_cases hen : e = n
    · subst hen
      refine marked_sweepBelow_of_marked (by omega) ?_
      have hnow := marked_of_sweepBelow hg (Nat.le_refl e) (by omega) h
      have hm : Marked marks e := ((marked_sweepNode (by omega)).1 hnow).elim (fun h => h) And.left
      exact (marked_sweepNode (by omega)).2 (.inr ⟨hm, ho⟩)
    · exact ih (by omega) (by omega) h

def used (g : Graph) : Array Bool :=
  markAll (Array.replicate g.nodes.size false) (usesOfBlock g.body)

theorem live_eq (g : Graph) : g.live = g.sweepBelow g.nodes.size g.used := rfl

theorem size_used (g : Graph) : g.used.size = g.nodes.size := by
  rw [used, size_markAll, Array.size_replicate]

theorem live_of_mem_uses (he : e < g.nodes.size) (h : e ∈ usesOfBlock g.body) :
    Marked g.live e := by
  rw [live_eq]
  refine marked_sweepBelow_of_marked (by rwa [size_used]) ?_
  exact (marked_markAll (by rwa [Array.size_replicate])).2 (.inr h)

theorem live_of_mem_operands (hg : g.Ordered) {o : Nat} (h : Marked g.live e)
    (ho : o ∈ g.operands e) : Marked g.live o := by
  have he : e < g.nodes.size := by
    unfold operands at ho
    split at ho
    next node hn => exact (Array.getElem?_eq_some_iff.1 hn).1
    · exact absurd ho List.not_mem_nil
  rw [live_eq] at h ⊢
  exact marked_operand hg (Nat.le_of_eq g.size_used.symm) he h ho

/-! Marks come from uses. -/

/-- The value of the second node goes into the first. -/
def Feeds (g : Graph) (e o : NodeId) : Prop := o ∈ g.operands e

/-- A statement uses the node, or a node whose value it goes into. -/
def Needed (g : Graph) (i : NodeId) : Prop :=
  ∃ e ∈ usesOfBlock g.body, Relation.ReflTransGen g.Feeds e i

theorem needed_of_sweepBelow (h : ∀ e, Marked marks e → g.Needed e)
    (he : Marked (g.sweepBelow n marks) e) : g.Needed e := by
  induction n generalizing marks with
  | zero => exact h e he
  | succ n ih =>
    rw [sweepBelow_succ] at he
    refine ih (fun x hx => ?_) he
    have hlt : x < marks.size := by
      rw [← g.size_sweepNode marks n]
      exact hx.lt
    rcases (marked_sweepNode hlt).1 hx with hm | ⟨hm, ho⟩
    · exact h x hm
    · obtain ⟨u, hu, hpath⟩ := h n hm
      exact ⟨u, hu, hpath.tail ho⟩

theorem needed_of_used (h : Marked g.used e) : g.Needed e := by
  have hlt : e < g.nodes.size := by
    rw [← g.size_used]
    exact h.lt
  have hlt : e < (Array.replicate g.nodes.size false).size := by rwa [Array.size_replicate]
  rcases (marked_markAll hlt).1 h with hm | hu
  · simp [Marked, Array.getElem?_replicate] at hm
  · exact ⟨e, hu, .refl⟩

theorem marked_live_iff (hg : g.Ordered) (hu : ∀ e ∈ usesOfBlock g.body, e < g.nodes.size)
    {i : NodeId} : Marked g.live i ↔ g.Needed i := by
  constructor
  · intro h
    rw [live_eq] at h
    exact needed_of_sweepBelow (fun _ => needed_of_used) h
  · rintro ⟨e, he, hpath⟩
    induction hpath with
    | refl => exact live_of_mem_uses (hu e he) he
    | tail _ ho ih => exact live_of_mem_operands hg ih ho

end Graph
end TensorKernel

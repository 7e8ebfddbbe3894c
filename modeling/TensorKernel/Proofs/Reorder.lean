import TensorKernel.Capture.Chain
import TensorKernel.Proofs.Frame

/-! Moving values in front of a chain. If no branch of the chain runs, nothing changes. If
one does, only values that read a variable can come out differently: the others depend on
nothing that the branch changes, and the branch does not depend on them. -/
namespace TensorKernel

/-- The graph has all that the recording holds so far; only scopes may still change. -/
structure Surroundings.Fits (S : Surroundings) (r : Recording) : Prop where
  nodes : ∀ (e : NodeId) (node : Node), r.nodes[e]? = some node →
    ∃ scope, S.graph.nodes[e]? = some { node with scope }
  slots : ∀ (v : VarId) (slot : Slot), r.slots[v]? = some slot → S.graph.slots[v]? = some slot.type
  inputs : S.graph.inputs = r.inputs
  outputs : ∀ (k : Nat) (type : TensorType), r.outputs[k]? = some type →
    S.graph.outputs[k]? = some type

namespace Recording

def withStateful (r : Recording) (found : List NodeId) (e : NodeId) : List NodeId :=
  if r.readsVariable e || (r.operandsOf e).any found.contains then found ++ [e] else found

theorem stateful_eq (r : Recording) (bound : List NodeId) :
    r.stateful bound = bound.foldl r.withStateful [] := rfl

end Recording

namespace Surroundings

variable (S : Surroundings)

/-- Bindings that do not read a variable, directly or through others of them, get the same
values in frames that agree outside of a chain. -/
theorem values_binds {r : Recording} (hfit : S.Fits r) {inside : List NodeId} {bound : List NodeId}
    {found : List NodeId} {n : Names} {f f' : Frame}
    (hs : BlockScoped S.graph.ops n (bound.map Stmt.bind)) (hn : ∀ e ∈ n.nodes, e ∉ inside)
    (hb : ∀ e ∈ bound, e ∉ inside ∧ e < r.nodes.size)
    (h : ∀ e : NodeId, e ∉ inside → e ∉ found → f.values[e]? = f'.values[e]?) :
    ∀ e : NodeId, e ∉ inside → e ∉ bound.foldl r.withStateful found →
      (S.stepBlock f (bound.map Stmt.bind)).values[e]? =
        (S.stepBlock f' (bound.map Stmt.bind)).values[e]? := by
  induction bound generalizing found n f f' with
  | nil =>
    rw [List.map_nil, stepBlock, stepBlock]
    exact h
  | cons b rest ih =>
    rw [List.map_cons, BlockScoped, Stmt.Scoped] at hs
    obtain ⟨⟨op, hop, hoperands, -⟩, hrest⟩ := hs
    obtain ⟨hinside, hlt⟩ := hb b List.mem_cons_self
    have hnode := Array.getElem?_eq_getElem hlt
    obtain ⟨scope, hgraph⟩ := hfit.nodes b _ hnode
    rw [List.map_cons, List.foldl_cons, stepBlock, stepBlock, step, step, hgraph]
    refine ih hrest ?_ (fun e he => hb e (List.mem_cons_of_mem _ he)) ?_
    · intro e he
      rcases List.mem_cons.1 he with rfl | he
      · exact hinside
      · exact hn e he
    · intro e he hfound
      rw [getElem?_setIfInBounds_map, getElem?_setIfInBounds_map]
      unfold Recording.withStateful at hfound
      split at hfound
      next =>
        rw [List.mem_append, List.mem_singleton, not_or] at hfound
        rw [if_neg (Ne.symm hfound.2), if_neg (Ne.symm hfound.2)]
        exact h e he hfound.1
      next hplain =>
        rw [Bool.or_eq_true, not_or] at hplain
        have hread : r.nodes[b].op.isRead = false := by
          have hr := hplain.1
          rw [Recording.readsVariable, hnode] at hr
          simpa using hr
        have hnone (o : NodeId) (ho : o ∈ r.nodes[b].op.operands) : o ∉ found := by
          have ha := hplain.2
          rw [Recording.operandsOf, hnode, List.any_eq_true] at ha
          exact fun hm => ha ⟨o, ho, List.contains_iff_mem.2 hm⟩
        have hsame : S.compute f { r.nodes[b] with scope } = S.compute f' { r.nodes[b] with scope } := by
          refine S.compute_congr (fun o ho => ?_) fun hr => absurd hr (by simp [hread])
          have hop' : op = r.nodes[b].op := by
            rw [Graph.ops, hgraph] at hop
            exact (Option.some.inj hop).symm
          obtain ⟨oop, hoop, hi | hm⟩ := hoperands o (hop' ▸ ho)
          · exact S.value_of_inline hoop hi f f'
          · exact S.value_congr (h o (hn o hm) (hnone o ho))
        rw [hsame, h e he hfound]

section
variable {r : Recording} {n : Names} {branches : List Branch} {bound : List NodeId} {f : Frame}

theorem picks_reorder (hs : BlockScoped S.graph.ops n (.cond branches :: bound.map Stmt.bind))
    (hn : ∀ e ∈ n.nodes, e ∉ bound) :
    S.picks (S.stepBlock f (bound.map Stmt.bind)) branches = S.picks f branches := by
  rw [BlockScoped, Stmt.Scoped] at hs
  exact (S.picks_sameBut (S.sameBut_binds f bound) hn hs.1.2).symm

theorem reorder_of_not_picks (h : S.picks f branches = false)
    (hsame : S.picks (S.stepBlock f (bound.map Stmt.bind)) branches = S.picks f branches) :
    S.stepBlock f (.cond branches :: bound.map Stmt.bind) =
      S.stepBlock f (bound.map Stmt.bind ++ [.cond branches]) := by
  rw [stepBlock_append, stepBlock, stepBlock_singleton, step, step, S.stepBranches_of_not_picks h,
    S.stepBranches_of_not_picks (hsame.trans h)]

/-- Whatever the chain does, moving values in front of it changes at most those that read
a variable. -/
theorem sameBut_reorder (hfit : S.Fits r)
    (hs : BlockScoped S.graph.ops n (.cond branches :: bound.map Stmt.bind))
    (hn : ∀ e ∈ n.nodes, e ∉ bound) (hinside : ∀ e ∈ n.nodes, e ∉ bindsOfBranches branches)
    (hb : ∀ e ∈ bound, e ∉ bindsOfBranches branches ∧ e < r.nodes.size) :
    (S.stepBlock f (.cond branches :: bound.map Stmt.bind)).SameBut (r.stateful bound)
      (S.stepBlock f (bound.map Stmt.bind ++ [.cond branches])) := by
  rw [BlockScoped, Stmt.Scoped] at hs
  rw [stepBlock_append, stepBlock, stepBlock_singleton, step, step]
  -- The chain runs alike before and after the bindings, and the bindings keep what it does.
  have hchain : (S.stepBranches f branches).SameBut bound
      (S.stepBranches (S.stepBlock f (bound.map Stmt.bind)) branches) :=
    S.sameBut_stepBranches (S.sameBut_binds f bound) hn hs.1.2
      fun e he hm => (hb e hm).1 he
  have houtside := (S.sameBut_binds (S.stepBranches f branches) bound).symm.trans hchain
  refine ⟨fun e he => ?_, houtside.slots, houtside.outputs⟩
  by_cases hm : e ∈ bound
  · have hin := (hb e hm).1
    rw [S.values_stepBranches hin]
    rw [r.stateful_eq] at he
    exact S.values_binds hfit hs.2 hinside hb (fun x hx _ => S.values_stepBranches hx) e hin he
  · exact houtside.values e hm

end

end Surroundings
end TensorKernel

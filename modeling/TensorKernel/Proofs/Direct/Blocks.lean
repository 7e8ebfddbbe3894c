import TensorKernel.Proofs.Direct.Leaves
import TensorKernel.Proofs.Draft.Dependence

/-! Blocks of branches. What is seen around a branch is seen in it, and what it leaves
behind is seen after it, whether it runs or not; and moving values in front of a chain
changes nothing that can still be used. -/
namespace TensorKernel

open Surroundings

variable {t : Recording} {s : ScopeId}

namespace Surroundings
variable (S : Surroundings)

def allows (f : Frame) : Option NodeId → Bool
  | none => true
  | some g => (S.valueAs f g .bool).isTrue

theorem picks_snoc (f : Frame) (branches : List Branch) (guard : Option NodeId)
    (body : List Stmt) :
    S.picks f (branches ++ [.mk guard body]) = (S.picks f branches || S.allows f guard) := by
  rw [picks_append]
  cases guard with
  | none => rfl
  | some g => simp [picks, allows]

/-- One more branch runs, if no other one does, where the chain alone would end. -/
theorem stepBranches_snoc (f : Frame) (branches : List Branch) (guard : Option NodeId)
    (body : List Stmt) :
    S.stepBranches f (branches ++ [.mk guard body]) =
      if !S.picks f branches && S.allows f guard then S.stepBlock (S.stepBranches f branches) body
      else S.stepBranches f branches := by
  rw [stepBranches_append]
  cases hp : S.picks f branches with
  | true => simp
  | false =>
    rw [S.stepBranches_of_not_picks hp]
    cases guard with
    | none => simp [stepBranches, allows]
    | some g => simp [stepBranches, allows]

theorem Fits.ops {S : Surroundings} {r : Recording} (h : S.Fits r) (e : NodeId) (op : Op)
    (ho : r.ops e = some op) : S.graph.ops e = some op := by
  obtain ⟨node, hn, rfl⟩ := Option.map_eq_some_iff.1 ho
  obtain ⟨scope, hg⟩ := h.nodes e node hn
  exact Option.map_eq_some_iff.2 ⟨_, hg, rfl⟩

end Surroundings

namespace View
open Recording

variable {V V' : View} {r q : Recording}

theorem passes_of_now (haround : V'.around = V.around) (htables : r.SameTables q)
    (hnow : V'.now q = V.now r)
    (hn : ∀ (e : NodeId) (node : Node), r.nodes[e]? = some node → node.scope ∈ V'.live →
      node.scope ∈ V.live)
    (hs : ∀ (v : VarId) (slot : Slot), r.slots[v]? = some slot → slot.scope ∈ V'.live →
      slot.scope ∈ V.live) : Passes V r V' q where
  carries := by
    refine ⟨haround, fun e node he => ⟨node.scope, ?_, fun hl => ⟨hn e node he hl, ?_⟩⟩⟩
    · rw [htables.nodes]
      exact he
    · rw [hnow]
  slots := htables.slots
  values v slot hv hl := ⟨hs v slot hv hl, by rw [hnow]⟩
  types := htables.outputs
  domain := htables.domain
  outputs := by rw [hnow]

/-! A block that is entered. -/

def enter (V : View) (now : Bool) (r : Recording) : View where
  around := V.around
  active := now
  entry := V.now r
  live := if now then r.parents.size :: V.live else V.live

theorem now_enter (V : View) (now : Bool) (r : Recording) :
    (V.enter now r).now r.openBlock = V.now r := by
  cases now with
  | true =>
    change V.around.stepBlock (V.now r) [] = V.now r
    rw [stepBlock]
  | false => rfl

theorem mem_live_enter {now : Bool} :
    s ∈ (V.enter now r).live ↔ now = true ∧ s = r.parents.size ∨ s ∈ V.live := by
  cases now <;> simp [enter]

theorem Of.lt_of_live (h : V.Of r) (hs : s ∈ V.live) : s < r.parents.size :=
  h.nested.lt_size s (h.within s hs)

theorem Of.enter (h : V.Of r) {now : Bool} (hnow : now = true → V.active = true) :
    (V.enter now r).Of r.openBlock where
  nested := h.nested.open
  within s hs := by
    rcases mem_live_enter.1 hs with ⟨-, rfl⟩ | hs
    · exact List.mem_cons_self
    · exact List.mem_cons_of_mem _ (h.within s hs)
  active ha s hs := by
    refine mem_live_enter.2 ?_
    rcases List.mem_cons.1 hs with hs | hs
    · exact .inl ⟨ha, hs⟩
    · exact .inr (h.active (hnow ha) s hs)
  skipped ha hs := by
    rcases mem_live_enter.1 hs with ⟨ht, -⟩ | hs
    · exact Bool.false_ne_true (ha.symm.trans ht)
    · exact Nat.lt_irrefl _ (h.lt_of_live hs)
  size := (V.sized_now r).values.trans h.size
  slots := (V.sized_now r).slots.trans h.slots

theorem passes_enter (hp : r.Placed) (now : Bool) : Passes V r (V.enter now r) r.openBlock := by
  refine passes_of_now rfl ⟨rfl, rfl, rfl, rfl, rfl⟩ (V.now_enter now r) (fun e node he hl => ?_)
    fun v slot hv hl => ?_
  · rcases mem_live_enter.1 hl with ⟨-, hs⟩ | hl
    · exact absurd (hp.nodeScopes e node he) (hs ▸ Nat.lt_irrefl _)
    · exact hl
  · rcases mem_live_enter.1 hl with ⟨-, hs⟩ | hl
    · exact absurd (hp.slotScopes v slot hv) (hs ▸ Nat.lt_irrefl _)
    · exact hl

theorem passes_leave {now : Bool} (htables : t.SameTables q)
    (hnow : V.now q = (V.enter now r).now t) : Passes (V.enter now r) t V q :=
  passes_of_now rfl htables hnow
    (fun _ _ _ hl => mem_live_enter.2 (.inr hl)) fun _ _ _ hl => mem_live_enter.2 (.inr hl)

theorem now_snoc {now : Bool} {front : List Stmt} {branches : List Branch} {guard : Option NodeId}
    (hq : V.active = true →
      V.now r = V.around.stepBranches (V.around.stepBlock V.entry front) branches)
    (hbody : q.current.body = front ++ [.cond (branches ++ [.mk guard t.current.body])])
    (hnow : now = (V.active && (!V.around.picks (V.around.stepBlock V.entry front) branches &&
      V.around.allows (V.around.stepBlock V.entry front) guard))) :
    V.now q = (V.enter now r).now t := by
  cases ha : V.active with
  | false =>
    rw [ha, Bool.false_and] at hnow
    subst hnow
    change (if V.active then _ else V.entry) = if V.active then _ else V.entry
    rw [ha]
    rfl
  | true =>
    have hleft : V.now q = V.around.stepBranches (V.around.stepBlock V.entry front)
        (branches ++ [.mk guard t.current.body]) := by
      unfold View.now
      rw [if_pos ha, hbody, stepBlock_append, stepBlock_singleton,
        step]
    rw [ha, Bool.true_and] at hnow
    rw [hleft, Surroundings.stepBranches_snoc, ← hnow, ← hq ha]
    rfl

/-! A chain that is continued. -/

section
variable {index place : Nat} {guard : Option NodeId} {before : List Stmt} {branches : List Branch}
  {bound sealed : List NodeId}

theorem bound_of_once (ho : r.Once)
    (hbody : r.current.body = before ++ .cond branches :: bound.map Stmt.bind) {e : NodeId}
    (he : e ∈ bound) : e ∉ bindsOfBranches branches ∧ e < r.nodes.size := by
  have hnodup := ho.nodup
  have hlt := ho.lt e
  rw [bindings, blocks, List.flatMap_cons, hbody, bindsOf_append, bindsOf_cons, bindsOf_cond,
    bindsOf_binds] at hnodup hlt
  refine ⟨fun hm => ?_, hlt (by simp [he])⟩
  have hboth := (List.nodup_append.1 (List.nodup_append.1 hnodup).1).2.1
  exact (List.nodup_append.1 hboth).2.2 e hm e he rfl

section
variable (hs : StackScoped r.ops r.blocks) (hone : r.Once) (hfit : V.around.Fits r)
  (hr : r.Reopened index guard place q before (.cond branches) bound sealed)
include hs hfit hr

theorem scoped_behind : BlockScoped V.around.graph.ops ((names r.outer).afterAll before)
    (.cond branches :: bound.map Stmt.bind) := by
  have hblock := hs.1
  rw [hr.body] at hblock
  exact (blockScoped_append.1 hblock).2.mono hfit.ops .rfl

include hone

theorem picks_reopened : V.around.picks
      (V.around.stepBlock (V.around.stepBlock V.entry before) (bound.map Stmt.bind)) branches =
    V.around.picks (V.around.stepBlock V.entry before) branches :=
  V.around.picks_reorder (scoped_behind hs hfit hr) fun _ he => (not_mem_of_once hone hr.body he).1

theorem sameBut_reopened : (V.now r).SameBut (r.stateful bound) (V.now q) := by
  unfold View.now
  split
  · rw [hr.body, hr.current, List.append_assoc, stepBlock_append,
      stepBlock_append]
    exact V.around.sameBut_reorder hfit (scoped_behind hs hfit hr)
      (fun _ he => (not_mem_of_once hone hr.body he).1)
      (fun _ he => (not_mem_of_once hone hr.body he).2) fun _ he => bound_of_once hone hr.body he
  · exact .rfl

/-- The values that come out differently are those that are put out of reach. -/
theorem passes_reopened (ho : V.Of r) : Passes V r V q := by
  have hsame := sameBut_reopened hs hone hfit hr
  obtain ⟨nodes, parents, hq, -⟩ := hr.eq
  refine ⟨⟨rfl, fun e node he => ?_⟩, by rw [hq], fun v slot _ hl => ⟨hl, ?_⟩, by rw [hq],
    by rw [hq], hsame.outputs.symm⟩
  · have hnode := hr.nodes e
    rw [he] at hnode
    by_cases hm : e ∈ sealed
    · refine ⟨r.parents.size, by rw [hnode, Option.map_some, if_pos hm], fun hl => ?_⟩
      exact absurd (ho.lt_of_live hl) (Nat.lt_irrefl _)
    · refine ⟨node.scope, by rw [hnode, Option.map_some, if_neg hm], fun hl => ⟨hl, ?_⟩⟩
      exact (hsame.values e fun hst => hm (hr.stateful e hst)).symm
  · rw [hsame.slots]

theorem now_reopened (ha : V.active = true)
    (hp : V.around.picks (V.around.stepBlock V.entry before) branches = false) :
    V.now r = V.around.stepBlock V.entry (before ++ bound.map Stmt.bind) := by
  have hsame := picks_reopened hs hone hfit hr
  unfold View.now
  rw [if_pos ha, hr.body, stepBlock_append, stepBlock_append,
    V.around.reorder_of_not_picks hp hsame, stepBlock_append,
    stepBlock_singleton, step,
    V.around.stepBranches_of_not_picks (hsame.trans hp)]

end

end

end View
end TensorKernel

import TensorKernel.Code.Block
import TensorKernel.Proofs.Draft.Typing
import TensorKernel.Proofs.Frame
import TensorKernel.Proofs.Live

/-! Bindings that nothing needs can be left out. The body without them computes the same
outputs, and code is generated from it as from the whole body. -/
namespace TensorKernel

open List

variable {e : NodeId} {g : Graph} {node : Node}

mutual

/-- The statement, without bindings of nodes that are not marked. -/
def Stmt.keep (marks : Array Bool) : Stmt → List Stmt
  | .bind e => if marks[e]?.getD false then [.bind e] else []
  | .declare slot init => [.declare slot init]
  | .assign slot value => [.assign slot value]
  | .store output indices value => [.store output indices value]
  | .cond branches => [.cond (keepBranches marks branches)]

def keepBlock (marks : Array Bool) : List Stmt → List Stmt
  | [] => []
  | s :: rest => s.keep marks ++ keepBlock marks rest

def keepBranches (marks : Array Bool) : List Branch → List Branch
  | [] => []
  | .mk guard body :: rest => .mk guard (keepBlock marks body) :: keepBranches marks rest

end

theorem usesOfBlock_append (a b : List Stmt) :
    usesOfBlock (a ++ b) = usesOfBlock a ++ usesOfBlock b := by
  induction a with
  | nil => rfl
  | cons s rest ih => rw [cons_append, usesOfBlock, usesOfBlock, ih, append_assoc]

mutual

theorem Stmt.usesOfBlock_keep (marks : Array Bool) (s : Stmt) :
    usesOfBlock (s.keep marks) = s.allUses := by
  match s with
  | .bind e =>
    rw [Stmt.keep, Stmt.allUses]
    split <;> rfl
  | .declare v x | .assign v x | .store k indices x =>
    rw [Stmt.keep, usesOfBlock, usesOfBlock, append_nil]
  | .cond branches =>
    rw [Stmt.keep, usesOfBlock, usesOfBlock, append_nil, Stmt.allUses, Stmt.allUses,
      usesOfBranches_keep marks branches]

theorem usesOfBlock_keep (marks : Array Bool) (body : List Stmt) :
    usesOfBlock (keepBlock marks body) = usesOfBlock body := by
  match body with
  | [] => rfl
  | s :: rest =>
    rw [keepBlock, usesOfBlock_append, usesOfBlock, Stmt.usesOfBlock_keep marks s,
      usesOfBlock_keep marks rest]

theorem usesOfBranches_keep (marks : Array Bool) (branches : List Branch) :
    usesOfBranches (keepBranches marks branches) = usesOfBranches branches := by
  match branches with
  | [] => rfl
  | .mk guard body :: rest =>
    rw [keepBranches, usesOfBranches, usesOfBranches, usesOfBlock_keep marks body,
      usesOfBranches_keep marks rest]

end

mutual

theorem Stmt.bindsOf_keep (marks : Array Bool) (s : Stmt) :
    bindsOf (s.keep marks) = (bindsOf [s]).filter fun e => marks[e]?.getD false := by
  match s with
  | .bind e =>
    have hbinds : bindsOf [.bind e] = [e] := bindsOf_binds [e]
    rw [Stmt.keep, hbinds]
    split
    next h =>
      rw [hbinds]
      simp [h]
    next h =>
      have hnil : bindsOf [] = [] := rfl
      simp [h, hnil]
  | .declare v x | .assign v x | .store k indices x =>
    rw [Stmt.keep]
    rfl
  | .cond branches =>
    rw [Stmt.keep, bindsOf_cond, bindsOf_cond, bindsOfBranches_keep marks branches]

theorem bindsOf_keepBlock (marks : Array Bool) (body : List Stmt) :
    bindsOf (keepBlock marks body) = (bindsOf body).filter fun e => marks[e]?.getD false := by
  match body with
  | [] => rfl
  | s :: rest =>
    rw [keepBlock, bindsOf_append, bindsOf_cons, filter_append, Stmt.bindsOf_keep marks s,
      bindsOf_keepBlock marks rest]

theorem bindsOfBranches_keep (marks : Array Bool) (branches : List Branch) :
    bindsOfBranches (keepBranches marks branches) =
      (bindsOfBranches branches).filter fun e => marks[e]?.getD false := by
  match branches with
  | [] => rfl
  | .mk guard body :: rest =>
    rw [keepBranches, bindsOfBranches_cons, bindsOfBranches_cons, filter_append,
      bindsOf_keepBlock marks body, bindsOfBranches_keep marks rest]

end

namespace Graph

/-- The graph without bindings of nodes that are not live. -/
def pruned (g : Graph) : Graph := { g with body := keepBlock g.live g.body }

theorem live_pruned (g : Graph) : g.pruned.live = g.live := by
  have huses : usesOfBlock g.pruned.body = usesOfBlock g.body := usesOfBlock_keep g.live g.body
  unfold live
  rw [huses]
  rfl

/-! Generated code. -/

theorem commands_append (g : Graph) (marks : Array Bool) (a b : List Stmt) :
    g.commands marks (a ++ b) = g.commands marks a ++ g.commands marks b := by
  induction a with
  | nil => rfl
  | cons s rest ih => rw [cons_append, commands, commands, ih, append_assoc]

theorem definition_of_not_marked (g : Graph) {marks : Array Bool} (h : ¬marks[e]?.getD false = true) :
    g.definition marks e = [] := by
  unfold definition
  split
  · simp [h]
  · rfl

mutual

theorem commands_keep (g : Graph) (marks : Array Bool) (s : Stmt) :
    g.pruned.commands marks (s.keep marks) = g.command marks s := by
  match s with
  | .bind e =>
    rw [Stmt.keep, command]
    split
    · rw [commands, commands, append_nil, command]
      rfl
    next h =>
      rw [commands, g.definition_of_not_marked h]
  | .declare v x | .assign v x | .store k indices x =>
    rw [Stmt.keep, commands, commands, append_nil, command, command]
    rfl
  | .cond branches =>
    rw [Stmt.keep, commands, commands, append_nil, command, command,
      g.arms_keepBranches marks branches]

theorem commands_keepBlock (g : Graph) (marks : Array Bool) (body : List Stmt) :
    g.pruned.commands marks (keepBlock marks body) = g.commands marks body := by
  match body with
  | [] => rfl
  | s :: rest =>
    rw [keepBlock, commands_append, commands, g.commands_keep marks s,
      g.commands_keepBlock marks rest]

theorem arms_keepBranches (g : Graph) (marks : Array Bool) (branches : List Branch) :
    g.pruned.arms marks (keepBranches marks branches) = g.arms marks branches := by
  match branches with
  | [] => rfl
  | .mk guard body :: rest =>
    rw [keepBranches, arms, arms, g.commands_keepBlock marks body,
      g.arms_keepBranches marks rest]
    rfl

end

theorem code_pruned (g : Graph) : g.pruned.code = g.code := by
  unfold code
  rw [live_pruned]
  exact g.commands_keepBlock g.live g.body

/-! Evaluation. -/

def dead (g : Graph) : List NodeId :=
  (range g.nodes.size).filter fun e => !g.live[e]?.getD false

theorem not_mem_dead (h : Marked g.live e) : e ∉ g.dead := by
  simp [dead, marked_iff.2 h]

theorem mem_dead (hn : g.nodes[e]? = some node) (h : ¬g.live[e]?.getD false = true) :
    e ∈ g.dead := by
  have hlt := (Array.getElem?_eq_some_iff.1 hn).1
  simp [dead, hlt, h]

end Graph

namespace Surroundings

def pruned (S : Surroundings) : Surroundings := { S with graph := S.graph.pruned }

variable {S : Surroundings} {f f' : Frame}

theorem value_live (h : f.SameBut S.graph.dead f') (he : Marked S.graph.live e) :
    S.value f e = S.pruned.value f' e :=
  S.value_congr (h.values e (Graph.not_mem_dead he))

theorem valueAs_live (h : f.SameBut S.graph.dead f') (he : Marked S.graph.live e) (t : ElementType) :
    S.valueAs f e t = S.pruned.valueAs f' e t :=
  S.valueAs_congr (value_live h he) t

theorem offset_live (h : f.SameBut S.graph.dead f') {indices : List NodeId}
    (hi : ∀ i ∈ indices, Marked S.graph.live i) (type : TensorType) :
    S.offset f type indices = S.pruned.offset f' type indices :=
  S.offset_congr (fun i hm => value_live h (hi i hm)) type

theorem compute_live (h : f.SameBut S.graph.dead f') (hg : S.graph.Ordered)
    (hn : S.graph.nodes[e]? = some node) (he : Marked S.graph.live e) :
    S.compute f node = S.pruned.compute f' node := by
  refine S.compute_congr (fun o ho => ?_) fun _ => h.slots
  have hoperand : o ∈ S.graph.operands e := by
    rw [Graph.operands, hn]
    exact ho
  exact value_live h (Graph.live_of_mem_operands hg he hoperand)

theorem setVariable_live (h : f.SameBut S.graph.dead f') (he : Marked S.graph.live e) (v : VarId) :
    (S.setVariable f v e).SameBut S.graph.dead (S.pruned.setVariable f' v e) := by
  refine ⟨h.values, ?_, h.outputs⟩
  unfold setVariable
  dsimp only
  rw [valueAs_live h he, h.slots]
  rfl

theorem sameBut_bind_live (h : f.SameBut S.graph.dead f') (hg : S.graph.Ordered) (e : NodeId) :
    (S.step f (.bind e)).SameBut S.graph.dead
      (S.pruned.stepBlock f' (Stmt.keep S.graph.live (.bind e))) := by
  by_cases hm : S.graph.live[e]?.getD false = true
  · rw [Stmt.keep, if_pos hm, stepBlock_singleton, step, step]
    cases hn : S.graph.nodes[e]? with
    | none =>
      rw [show S.pruned.graph.nodes[e]? = none from hn]
      exact h
    | some node =>
      rw [show S.pruned.graph.nodes[e]? = some node from hn]
      dsimp only
      rw [← compute_live h hg hn (marked_iff.1 hm)]
      exact sameBut_set h e _
  · -- The value of a dead node changes on one side only.
    rw [Stmt.keep, if_neg hm, stepBlock, step]
    split
    next node hn =>
      refine ⟨fun x hx => ?_, h.slots, h.outputs⟩
      have hne : e ≠ x := by
        rintro rfl
        exact hx (Graph.mem_dead hn hm)
      exact (Array.getElem?_setIfInBounds_ne hne).trans (h.values x hx)
    · exact h

mutual

theorem sameBut_step_live {f f' : Frame} (h : f.SameBut S.graph.dead f') (hg : S.graph.Ordered)
    {s : Stmt} (hu : ∀ e ∈ s.allUses, Marked S.graph.live e) :
    (S.step f s).SameBut S.graph.dead (S.pruned.stepBlock f' (s.keep S.graph.live)) := by
  match s with
  | .bind e => exact sameBut_bind_live h hg e
  | .declare v x | .assign v x =>
    rw [Stmt.keep, stepBlock_singleton, step, step]
    exact setVariable_live h (hu x (by simp [Stmt.allUses])) v
  | .store k indices x =>
    have hvalue : Marked S.graph.live x := hu x (by simp [Stmt.allUses])
    have hindices : ∀ i ∈ indices, Marked S.graph.live i :=
      fun i hi => hu i (by simp [Stmt.allUses, hi])
    rw [Stmt.keep, stepBlock_singleton, step, step]
    cases ho : S.graph.outputs[k]? with
    | none =>
      rw [show S.pruned.graph.outputs[k]? = none from ho]
      exact h
    | some type =>
      rw [show S.pruned.graph.outputs[k]? = some type from ho]
      refine ⟨h.values, h.slots, ?_⟩
      dsimp only
      rw [offset_live h hindices, valueAs_live h hvalue, h.outputs]
  | .cond branches =>
    rw [Stmt.allUses] at hu
    rw [Stmt.keep, stepBlock_singleton, step, step]
    exact sameBut_stepBranches_live h hg hu

theorem sameBut_stepBlock_live {f f' : Frame} (h : f.SameBut S.graph.dead f')
    (hg : S.graph.Ordered) {body : List Stmt} (hu : ∀ e ∈ usesOfBlock body, Marked S.graph.live e) :
    (S.stepBlock f body).SameBut S.graph.dead
      (S.pruned.stepBlock f' (keepBlock S.graph.live body)) := by
  match body with
  | [] =>
    rw [keepBlock, stepBlock, stepBlock]
    exact h
  | s :: rest =>
    rw [usesOfBlock] at hu
    rw [keepBlock, stepBlock_append, stepBlock]
    have hfirst := sameBut_step_live h hg fun e he => hu e (mem_append_left _ he)
    exact sameBut_stepBlock_live hfirst hg fun e he => hu e (mem_append_right _ he)

theorem sameBut_stepBranches_live {f f' : Frame} (h : f.SameBut S.graph.dead f')
    (hg : S.graph.Ordered) {branches : List Branch}
    (hu : ∀ e ∈ usesOfBranches branches, Marked S.graph.live e) :
    (S.stepBranches f branches).SameBut S.graph.dead
      (S.pruned.stepBranches f' (keepBranches S.graph.live branches)) := by
  match branches with
  | [] =>
    rw [keepBranches, stepBranches, stepBranches]
    exact h
  | .mk guard body :: rest =>
    rw [usesOfBranches] at hu
    have hlive : ∀ e ∈ usesOfBlock body, Marked S.graph.live e := fun e he => hu e (by simp [he])
    have hbody := sameBut_stepBlock_live h hg hlive
    rw [keepBranches]
    match guard with
    | none =>
      rw [stepBranches, stepBranches]
      exact hbody
    | some g =>
      rw [stepBranches, stepBranches, valueAs_live h (hu g (by simp))]
      split
      · exact hbody
      · exact sameBut_stepBranches_live h hg fun e he => hu e (by simp [he])

end

end Surroundings

namespace Graph

theorem runAt_pruned (hg : g.Ordered) (hu : ∀ e ∈ usesOfBlock g.body, Marked g.live e)
    (inputs outputs : Array Buffer) (position : List Nat) :
    g.pruned.runAt inputs outputs position = g.runAt inputs outputs position := by
  have hsame := Surroundings.sameBut_stepBlock_live (S := ⟨g, inputs, position⟩)
    (Frame.SameBut.rfl (f := ⟨Array.replicate g.nodes.size default,
      Array.replicate g.slots.length default, outputs⟩)) hg hu
  exact hsame.outputs.symm

theorem run_pruned (hg : g.Ordered) (hu : ∀ e ∈ usesOfBlock g.body, Marked g.live e)
    (inputs : Array Buffer) : g.pruned.run inputs = g.run inputs := by
  rw [run_eq_foldl, run_eq_foldl]
  have hstep : g.pruned.runAt inputs = g.runAt inputs := by
    funext outputs position
    exact runAt_pruned hg hu inputs outputs position
  rw [hstep]
  rfl

end Graph

theorem Stmt.Typed.has_of_mem_uses {σ : Signature} {s : Stmt} (h : s.Typed σ) (he : e ∈ s.uses) :
    σ.Has e := by
  cases s with
  | bind x => cases he
  | declare v x => exact mem_singleton.1 he ▸ h.2
  | assign v x => exact mem_singleton.1 he ▸ h.2
  | store k indices x =>
    obtain ⟨⟨t, -, hi⟩, hx⟩ := h
    rcases mem_append.1 he with he | he
    · obtain ⟨type, ht, -⟩ := hi.2 e he
      exact ⟨type, ht⟩
    · exact mem_singleton.1 he ▸ hx
  | cond branches =>
    obtain ⟨branch, hm, hg⟩ := mem_filterMap.1 he
    exact h e (hg ▸ mem_map_of_mem hm)

theorem Graph.WellTyped.lt_of_mem_uses (h : g.WellTyped) (he : e ∈ usesOfBlock g.body) :
    e < g.nodes.size := by
  obtain ⟨s, hs, hu⟩ := (mem_usesOfBlock _).1 he
  obtain ⟨type, ht⟩ := (h.body s hs).has_of_mem_uses hu
  obtain ⟨node, hn, -⟩ := Option.map_eq_some_iff.1 ht
  exact (Array.getElem?_eq_some_iff.1 hn).1

/-- In a finished graph exactly the nodes are marked that a statement uses, or whose values go
into one that it uses. Without the bindings of the others, for which no code is generated, the
body writes the same. -/
theorem Graph.IsCaptured.live_exact {g : Graph} (h : g.IsCaptured) :
    (g.live.size = g.nodes.size ∧ ∀ i : NodeId, g.live[i]? = some true ↔
        ∃ stmt ∈ deepBlock g.body, ∃ e ∈ stmt.uses, Relation.ReflTransGen g.Feeds e i) ∧
      bindsOf g.pruned.body = (bindsOf g.body).filter (fun e => g.live[e]?.getD false) ∧
      g.pruned.code = g.code ∧ ∀ inputs, g.pruned.run inputs = g.run inputs := by
  have hg := h.wellTyped
  have hlt (e : NodeId) (he : e ∈ usesOfBlock g.body) : e < g.nodes.size := hg.lt_of_mem_uses he
  refine ⟨⟨?_, fun i => ?_⟩, bindsOf_keepBlock g.live g.body, g.code_pruned, ?_⟩
  · rw [live_eq, size_sweepBelow, size_used]
  · refine (marked_live_iff hg.operands hlt).trans ⟨?_, ?_⟩
    · rintro ⟨e, he, hpath⟩
      obtain ⟨s, hs, hu⟩ := (mem_usesOfBlock _).1 he
      exact ⟨s, hs, e, hu, hpath⟩
    · rintro ⟨s, hs, e, hu, hpath⟩
      exact ⟨e, (mem_usesOfBlock _).2 ⟨s, hs, hu⟩, hpath⟩
  · exact run_pruned hg.operands fun e he => live_of_mem_uses (hlt e he) he

/-- Stores the positive elements. Each element is also negated, and in the branch the exponential
of that is taken, for nothing. -/
def Draft.wasteful : List Call :=
  let vector : TensorType := ⟨⟨[2]⟩, .f32⟩
  let at0 : Operand := .expr ⟨1, 0, .i64⟩
  let x : Expr := ⟨1, 1, .f32⟩
  [.outputLike vector, .positionIn ⟨[2]⟩, .element ⟨1, 0, vector⟩ [at0], .unary .neg x,
    .binary .gt x (.literal (.int 0)), .branch ⟨1, 4, .bool⟩, .unary .exp ⟨1, 2, .f32⟩,
    .store ⟨1, 0, vector⟩ [at0] (.expr x), .leave]

theorem Graph.IsCaptured.live_exact_wasteful :
    ∃ g : Graph, g.IsCaptured ∧ g.live = #[true, true, false, true, true, false] ∧
      (¬∃ stmt ∈ deepBlock g.body, ∃ e ∈ stmt.uses, Relation.ReflTransGen g.Feeds e 2) ∧
      bindsOf g.body = [1, 2, 4, 5] ∧ bindsOf g.pruned.body = [1, 4] ∧
      ∀ inputs, g.pruned.run inputs = g.run inputs := by
  let vector : TensorType := ⟨⟨[2]⟩, .f32⟩
  let s := (Draft.start 1 [vector]).performAll Draft.wasteful
  have hs : Draft.Reachable 1 [vector] s := Draft.leads_performAll (by decide +kernel)
  have hall : (s.recording.finish "wasteful" [⟨1, 0, vector⟩]).toOption.any (fun g => decide
      (g.live = #[true, true, false, true, true, false] ∧ bindsOf g.body = [1, 2, 4, 5])) = true := by
    decide +kernel
  cases hf : s.recording.finish "wasteful" [⟨1, 0, vector⟩] with
  | error e =>
    rw [hf] at hall
    cases hall
  | ok g =>
    rw [hf] at hall
    obtain ⟨hlive, hbinds⟩ := of_decide_eq_true hall
    have hg : g.IsCaptured := ⟨1, [vector], s, "wasteful", [⟨1, 0, vector⟩], hs, by decide +kernel, hf⟩
    obtain ⟨⟨-, hexact⟩, hkept, -, hrun⟩ := Graph.IsCaptured.live_exact hg
    refine ⟨g, hg, hlive, ?_, hbinds, ?_, hrun⟩
    · rw [← hexact 2, hlive]
      decide
    · rw [hkept, hlive, hbinds]
      decide

end TensorKernel

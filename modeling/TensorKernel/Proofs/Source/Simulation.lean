import TensorKernel.Proofs.Source.Values

/-! The statements of a graph do what its body does. A node that reaches no statement has no
definition; the others are defined where the body binds them, with the types that the text gives. -/
namespace TensorKernel

open List

variable {e : NodeId} {node : Node}

namespace Graph

variable {g : Graph}

theorem readable_of_available (h : Available g.ops ⟨bindsOf g.body, []⟩ e)
    (hl : e < g.nodes.size → Marked g.live e) : g.Readable e := by
  obtain ⟨op, ho, hop⟩ := h
  obtain ⟨node, hn, rfl⟩ := Option.map_eq_some_iff.1 ho
  exact ⟨node, hn, hop.imp_right fun hb => ⟨hl (Array.getElem?_eq_some_iff.1 hn).1, hb⟩⟩

theorem IsAnchored.readable_uses (h : g.IsAnchored) {s : Stmt} (hs : s ∈ deepBlock g.body)
    (he : e ∈ s.uses) : g.Readable e := by
  have hread := h s hs
  cases s with
  | bind x => cases he
  | declare | assign | store | cond =>
    exact readable_of_available (hread e he) fun hlt =>
      live_of_mem_uses hlt ((mem_usesOfBlock _).2 ⟨_, hs, he⟩)

theorem IsAnchored.readable_operands (h : g.IsAnchored) (hg : g.Ordered)
    (hn : g.nodes[e]? = some node) (hb : .bind e ∈ deepBlock g.body) (hl : Marked g.live e) :
    ∀ o ∈ node.op.operands, g.Readable o := by
  intro o ho
  obtain ⟨op, hop, hread⟩ := h _ hb
  have hsame : op = node.op := by
    rw [Graph.ops, hn] at hop
    exact (Option.some.inj hop).symm
  refine readable_of_available (hread o (hsame ▸ ho)) fun _ => live_of_mem_operands hg hl ?_
  rw [operands, hn]
  exact ho

end Graph

namespace Code

theorem runBlock_append (S : Setting) (c : Cells) (a b : List Statement) :
    runBlock S c (a ++ b) = runBlock S (runBlock S c a) b := by
  induction a generalizing c with
  | nil => rfl
  | cons s rest ih =>
    rw [cons_append, runBlock, runBlock, ih]

theorem runBlock_single (S : Setting) (c : Cells) (s : Statement) :
    runBlock S c [s] = s.run S c := by
  rw [runBlock, runBlock]

theorem definitionsOf_append (a b : List Statement) :
    definitionsOf (a ++ b) = definitionsOf a ++ definitionsOf b := by
  induction a with
  | nil => rfl
  | cons s rest ih => rw [cons_append, definitionsOf, definitionsOf, ih, append_assoc]

end Code

namespace Surroundings
open Code

theorem update_eq_getD {cells : Nat → Value} {xs : Array Value} {i : Nat} (hi : i < xs.size)
    (v : Value) {x : Nat} (h : cells x = xs.getD x default) :
    Function.update cells i v x = (xs.setIfInBounds i v).getD x default := by
  rw [getD_setIfInBounds]
  by_cases hx : x = i
  · subst hx
    rw [Function.update_self, if_pos ⟨rfl, hi⟩]
  · rw [Function.update_of_ne hx, if_neg fun h => hx h.1.symm, h]

theorem getD_replicate (n i : Nat) :
    (Array.replicate n (default : Value)).getD i default = default := by
  rw [Array.getD_eq_getD_getElem?, Array.getElem?_replicate]
  split <;> rfl

section
variable {G : Surroundings} {S : Setting} {c : Cells} {f : Frame}

theorem agrees_start (G : Surroundings) (outputs : Array Buffer) :
    Cells.Agrees ⟨fun _ => default, fun _ => default, outputs⟩ G
      ⟨.replicate G.graph.nodes.size default, .replicate G.graph.slots.length default, outputs⟩ where
  values e _ _ _ _ := (getD_replicate _ e).symm
  slots v := (getD_replicate _ v).symm
  outputs := rfl
  valueCount := Array.size_replicate
  slotCount := Array.size_replicate

theorem suitable_start (G : Surroundings) (outputs : Array Buffer) :
    G.Suitable ⟨.replicate G.graph.nodes.size default, .replicate G.graph.slots.length default,
      outputs⟩ where
  values e := by
    rw [getD_replicate]
    exact Value.suits_default _
  slots v := by
    rw [getD_replicate]
    exact Value.suits_default _

theorem agrees_bind (hs : S.Renders G) (hc : c.Agrees G f) (hf : G.Suitable f)
    (he : .bind e ∈ deepBlock G.graph.body) :
    (runBlock S c (G.graph.definitionStatements G.graph.live e)).Agrees G (G.step f (.bind e)) := by
  unfold Graph.definitionStatements
  rw [step]
  cases hn : G.graph.nodes[e]? with
  | none => exact hc
  | some node =>
    dsimp only
    have hlt : e < f.values.size := hc.valueCount ▸ (Array.getElem?_eq_some_iff.1 hn).1
    split
    next hdefined =>
      rw [Bool.and_eq_true, marked_iff] at hdefined
      have hread := hs.anchored.readable_operands hs.typed.operands hn he hdefined.1
      rw [runBlock_single, Statement.run, value_expression hs hc hf hn hread]
      exact { hc with
        values := fun x nx hx hi hl => update_eq_getD hlt _ (hc.values x nx hx hi hl)
        valueCount := Array.size_setIfInBounds.trans hc.valueCount }
    next hdefined =>
      rw [Bool.and_eq_true, marked_iff, Bool.not_eq_true'] at hdefined
      refine { hc with values := ?_, valueCount := Array.size_setIfInBounds.trans hc.valueCount }
      intro x nx hx hi hl
      have hne : e ≠ x := by
        rintro rfl
        rw [hn] at hx
        cases hx
        exact hdefined ⟨hl, hi⟩
      rw [getD_setIfInBounds, if_neg fun h => hne h.1]
      exact hc.values x nx hx hi hl

theorem agrees_setVariable (hc : c.Agrees G f) {v : VarId}
    (hv : ∃ type, G.graph.signature.slots v = some type) {x : Value}
    (hx : x = G.valueAs f e (G.graph.slots[v]?.getD .bool)) :
    Cells.Agrees { c with slots := Function.update c.slots v x } G (G.setVariable f v e) := by
  obtain ⟨type, hv⟩ := hv
  have hlt : v < f.slots.size := hc.slotCount ▸ (List.getElem?_eq_some_iff.1 hv).1
  rw [hx]
  exact { hc with
    slots := fun w => update_eq_getD hlt _ (hc.slots w)
    slotCount := Array.size_setIfInBounds.trans hc.slotCount }

theorem agrees_store (hs : S.Renders G) (hc : c.Agrees G f) {k : Nat} {indices : List NodeId}
    (hi : ∀ i ∈ indices, G.graph.Readable i) (he : G.graph.Readable e) :
    (runBlock S c (G.graph.statement G.graph.live (.store k indices e))).Agrees G
      (G.step f (.store k indices e)) := by
  rw [Graph.statement, step]
  cases G.graph.outputs[k]? with
  | none => exact hc
  | some type =>
    rw [runBlock_single, Statement.run, value_offset hs hc hi type,
      (value_reference hs hc he _).1, hc.outputs]
    exact { hc with outputs := rfl }

end

mutual

theorem agrees_statement {G : Surroundings} {S : Setting} {c : Cells} {f : Frame} (hs : S.Renders G)
    (hc : c.Agrees G f) (hf : G.Suitable f) (s : Stmt)
    (hd : ∀ t ∈ s.deep, t ∈ deepBlock G.graph.body) :
    (runBlock S c (G.graph.statement G.graph.live s)).Agrees G (G.step f s) := by
  have hself := hd s s.mem_deep_self
  have hread {e : NodeId} (he : e ∈ s.uses) := hs.anchored.readable_uses hself he
  match s with
  | .bind e =>
    rw [Graph.statement]
    exact agrees_bind hs hc hf hself
  | .declare v x =>
    have htyped := hs.typed.body _ hself
    rw [Graph.statement, step, runBlock_single, Statement.run]
    exact agrees_setVariable hc htyped.1 (value_reference hs hc (hread mem_cons_self) _).1
  | .assign v x =>
    have htyped := hs.typed.body _ hself
    rw [Graph.statement, step, runBlock_single, Statement.run]
    exact agrees_setVariable hc htyped.1 (value_reference hs hc (hread mem_cons_self) _).1
  | .store k indices x =>
    refine agrees_store hs hc (fun i hi => hread ?_) (hread ?_)
    · exact mem_append_left _ hi
    · exact mem_append_right _ mem_cons_self
  | .cond [] =>
    rw [Graph.statement, step, stepBranches]
    exact hc
  | .cond (.mk guard body :: rest) =>
    rw [Stmt.deep, deepBranches] at hd
    have hbody := agrees_statements hs hc hf body fun t ht => hd t (by simp [ht])
    rw [Graph.statement, step, runBlock_single, Statement.run]
    cases guard with
    | none =>
      rw [stepBranches]
      exact hbody
    | some guard =>
      have hguard : guard ∈ guard :: rest.filterMap Branch.guard := mem_cons_self
      rw [stepBranches, Option.map_some, Option.getD_some,
        (value_reference hs hc (hread hguard) .bool).1]
      split
      · exact hbody
      · refine agrees_alternatives hs hc hf rest (fun e he => ?_) fun t ht => hd t (by simp [ht])
        exact hread (mem_cons_of_mem guard he)

theorem agrees_statements {G : Surroundings} {S : Setting} {c : Cells} {f : Frame}
    (hs : S.Renders G) (hc : c.Agrees G f) (hf : G.Suitable f) (body : List Stmt)
    (hd : ∀ t ∈ deepBlock body, t ∈ deepBlock G.graph.body) :
    (runBlock S c (G.graph.statements G.graph.live body)).Agrees G (G.stepBlock f body) := by
  match body with
  | [] =>
    rw [Graph.statements, stepBlock]
    exact hc
  | s :: rest =>
    rw [deepBlock] at hd
    rw [Graph.statements, stepBlock, runBlock_append]
    have hstep := agrees_statement hs hc hf s fun t ht => hd t (by simp [ht])
    have hsuits := hf.step hs.typed hs.elements s
    exact agrees_statements hs hstep hsuits rest fun t ht => hd t (by simp [ht])

theorem agrees_alternatives {G : Surroundings} {S : Setting} {c : Cells} {f : Frame}
    (hs : S.Renders G) (hc : c.Agrees G f) (hf : G.Suitable f) (branches : List Branch)
    (hread : ∀ e ∈ branches.filterMap Branch.guard, G.graph.Readable e)
    (hd : ∀ t ∈ deepBranches branches, t ∈ deepBlock G.graph.body) :
    (runOthers S c (G.graph.alternatives G.graph.live branches)).Agrees G
      (G.stepBranches f branches) := by
  match branches with
  | [] =>
    rw [Graph.alternatives, stepBranches]
    exact hc
  | .mk none body :: rest =>
    rw [deepBranches] at hd
    rw [Graph.alternatives, stepBranches, Option.map_none, runOthers]
    exact agrees_statements hs hc hf body fun t ht => hd t (by simp [ht])
  | .mk (some guard) body :: rest =>
    rw [deepBranches] at hd
    rw [Graph.alternatives, stepBranches, Option.map_some, runOthers,
      (value_reference hs hc (hread guard mem_cons_self) .bool).1]
    split
    · exact agrees_statements hs hc hf body fun t ht => hd t (by simp [ht])
    · refine agrees_alternatives hs hc hf rest (fun e he => ?_) fun t ht => hd t (by simp [ht])
      exact hread e (mem_cons_of_mem guard he)

end

end Surroundings

namespace Graph
open Code

mutual

theorem definitionsOf_statement (g : Graph) (live : Array Bool) (s : Stmt) :
    definitionsOf (g.statement live s)
      = (bindsOf [s]).flatMap fun e => definitionsOf (g.definitionStatements live e) := by
  match s with
  | .bind e => simp [statement, bindsOf, deepBlock, Stmt.deep, Stmt.bound?]
  | .declare v x | .assign v x => rfl
  | .store k indices x =>
    rw [statement]
    cases g.outputs[k]? <;> rfl
  | .cond [] =>
    rw [statement]
    rfl
  | .cond (.mk guard body :: rest) =>
    rw [statement, definitionsOf, definitionsOf, append_nil, Statement.definitions, bindsOf_cond,
      bindsOfBranches_cons, flatMap_append, g.definitionsOf_statements live body,
      g.definitionsOfOthers_alternatives live rest]

theorem definitionsOf_statements (g : Graph) (live : Array Bool) (body : List Stmt) :
    definitionsOf (g.statements live body)
      = (bindsOf body).flatMap fun e => definitionsOf (g.definitionStatements live e) := by
  match body with
  | [] =>
    rw [statements]
    rfl
  | s :: rest =>
    rw [statements, definitionsOf_append, bindsOf_cons, flatMap_append,
      g.definitionsOf_statement live s, g.definitionsOf_statements live rest]

theorem definitionsOfOthers_alternatives (g : Graph) (live : Array Bool) (branches : List Branch) :
    definitionsOfOthers (g.alternatives live branches)
      = (bindsOfBranches branches).flatMap fun e => definitionsOf (g.definitionStatements live e) := by
  match branches with
  | [] =>
    rw [alternatives]
    rfl
  | .mk guard body :: rest =>
    rw [alternatives, definitionsOfOthers, bindsOfBranches_cons, flatMap_append,
      g.definitionsOf_statements live body, g.definitionsOfOthers_alternatives live rest]

end

theorem definitionsOf_definitionStatements {g : Graph} {live : Array Bool}
    (hn : g.nodes[e]? = some node) (hi : node.op.isInline = false) (hl : Marked live e) :
    definitionsOf (g.definitionStatements live e) = [(e, node.type)] := by
  unfold definitionStatements
  rw [hn, hl]
  dsimp only
  rw [hi]
  rfl

theorem lookup_definitionStatements (g : Graph) (live : Array Bool) {x : NodeId} (h : e ≠ x) :
    (definitionsOf (g.definitionStatements live x)).lookup e = none := by
  unfold definitionStatements
  cases g.nodes[x]? with
  | none => rfl
  | some node =>
    dsimp only
    split
    · have hne : (e == x) = false := beq_false_of_ne h
      simp [definitionsOf, Statement.definitions, lookup_cons, hne]
    · rfl

theorem typeIn_statements {g : Graph} (hn : g.nodes[e]? = some node) (hi : node.op.isInline = false)
    (hl : Marked g.live e) (hb : e ∈ bindsOf g.body) :
    typeIn (g.statements g.live g.body) e = node.type := by
  rw [typeIn, definitionsOf_statements]
  generalize bindsOf g.body = bound at hb
  induction bound with
  | nil => cases hb
  | cons x rest ih =>
    rw [flatMap_cons, lookup_append]
    by_cases hx : e = x
    · subst hx
      rw [definitionsOf_definitionStatements hn hi hl, lookup_cons_self]
      rfl
    · rw [lookup_definitionStatements g g.live hx, Option.none_or]
      exact ih ((mem_cons.1 hb).resolve_left hx)

/-- What a graph computes is read off its statements. -/
theorem runAt_eq_runAt {g : Graph} (hg : g.WellTyped) (ha : g.IsAnchored) {inputs : Array Buffer}
    {position : List Nat} (hi : Surroundings.InputsSuit ⟨g, inputs, position⟩)
    (outputs : Array Buffer) : g.runAt inputs outputs position
      = Code.runAt (g.statements g.live g.body) inputs outputs position := by
  have hs : Setting.Renders ⟨typeIn (g.statements g.live g.body), inputs, position⟩
      ⟨g, inputs, position⟩ := ⟨hg, ha, hi, rfl, rfl, fun _ _ => typeIn_statements⟩
  exact (Surroundings.agrees_statements hs (Surroundings.agrees_start _ outputs)
    (Surroundings.suitable_start _ outputs) g.body fun _ ht => ht).outputs.symm

end Graph
end TensorKernel

import TensorKernel.Proofs.Draft.Scoping

/-! Every node that a finished graph reads is bound in it. A chain that is continued through a
stale handle can move a binding behind its uses, so nothing is said about the order; but what is
read in an open block is bound there or in a block around it, and bindings are lost only together
with all statements that read them. -/
namespace TensorKernel

open List

variable {r q : Recording} {rule : Draft → Call → Prop} {inputs : List TensorType} {e : NodeId}
  {branches : List Branch} {s : Stmt} {outer blocks : List Block} {id : RecordingId}
  {body : List Stmt} {guard : Option NodeId} {ops : Ops}

/-- What the statement itself reads has a name or is spelled out. -/
def Stmt.Anchored (ops : Ops) (n : Names) : Stmt → Prop
  | .bind e => ∃ op, ops e = some op ∧ ∀ o ∈ op.operands, Available ops n o
  | s => ∀ e ∈ s.uses, Available ops n e

/-- So does what the statements of a body read, at any depth. -/
def BlockAnchored (ops : Ops) (n : Names) (body : List Stmt) : Prop :=
  ∀ s ∈ deepBlock body, s.Anchored ops n

section
variable {a b : Ops} {n m : Names}

theorem Stmt.Anchored.mono (hops : ∀ e op, a e = some op → b e = some op) (hn : n.Within m)
    (h : s.Anchored a n) : s.Anchored b m := by
  cases s with
  | bind e =>
    obtain ⟨op, ho, hs⟩ := h
    exact ⟨op, hops e op ho, fun o hm => (hs o hm).mono hops hn⟩
  | declare | assign | store | cond => exact fun e he => (h e he).mono hops hn

theorem BlockAnchored.mono (hops : ∀ e op, a e = some op → b e = some op) (hn : n.Within m)
    (h : BlockAnchored a n body) : BlockAnchored b m body :=
  fun s hs => (h s hs).mono hops hn

theorem BlockAnchored.weaken (hn : n.Within m) (h : BlockAnchored a n body) :
    BlockAnchored a m body :=
  h.mono (fun _ _ h => h) hn

theorem blockAnchored_append {x y : List Stmt} :
    BlockAnchored a n (x ++ y) ↔ BlockAnchored a n x ∧ BlockAnchored a n y := by
  simp only [BlockAnchored, deepBlock_append, forall_mem_append]

theorem Stmt.Scoped.anchored (h : s.Scoped a n) (hs : ∀ branches, s ≠ .cond branches)
    (hn : ∀ e ∈ n.nodes, e ∈ m.nodes) : BlockAnchored a m [s] := by
  have avail {e : NodeId} (he : Available a n e) : Available a m e := by
    obtain ⟨op, ho, hop⟩ := he
    exact ⟨op, ho, hop.imp_right (hn e)⟩
  intro t ht
  cases s with
  | bind e =>
    rw [mem_singleton.1 ht]
    rw [Stmt.Scoped] at h
    obtain ⟨op, ho, hoperands, -⟩ := h
    exact ⟨op, ho, fun o hm => avail (hoperands o hm)⟩
  | declare v x =>
    rw [mem_singleton.1 ht]
    rw [Stmt.Scoped] at h
    exact forall_mem_singleton.2 (avail h)
  | assign v x =>
    rw [mem_singleton.1 ht]
    rw [Stmt.Scoped] at h
    exact forall_mem_singleton.2 (avail h.2)
  | store k indices x =>
    rw [mem_singleton.1 ht]
    rw [Stmt.Scoped] at h
    exact forall_mem_append.2 ⟨fun i hi => avail (h.1 i hi), forall_mem_singleton.2 (avail h.2)⟩
  | cond branches => exact absurd rfl (hs branches)

theorem blockAnchored_cond : BlockAnchored a n [.cond branches] ↔
    ∀ branch ∈ branches, (∀ g ∈ branch.guard, Available a n g) ∧
      BlockAnchored a n branch.body := by
  have hinside : (∀ s ∈ deepBranches branches, s.Anchored a n) ↔
      ∀ branch ∈ branches, BlockAnchored a n branch.body := by
    induction branches with
    | nil => simp [deepBranches]
    | cons branch rest ih =>
      obtain ⟨guard, body⟩ := branch
      simp only [deepBranches, forall_mem_append, forall_mem_cons, ih]
      rfl
  have hguards : (Stmt.cond branches).Anchored a n ↔
      ∀ branch ∈ branches, ∀ g ∈ branch.guard, Available a n g := by
    simp only [Stmt.Anchored, Stmt.uses, mem_filterMap, forall_exists_index, and_imp]
    exact ⟨fun h branch hb g hg => h g branch hb hg, fun h g branch hb hg => h branch hb g hg⟩
  rw [BlockAnchored, deepBlock, deepBlock, append_nil, Stmt.deep, forall_mem_cons, hinside,
    hguards]
  exact ⟨fun h branch hb => ⟨h.1 branch hb, h.2 branch hb⟩,
    fun h => ⟨fun branch hb => (h branch hb).1, fun branch hb => (h branch hb).2⟩⟩

end

namespace Recording

/-- The nodes that open blocks bind, at any depth. -/
def boundIn (blocks : List Block) : Names := ⟨blocks.flatMap fun b => bindsOf b.body, []⟩

theorem mem_boundIn : e ∈ (boundIn blocks).nodes ↔ ∃ b ∈ blocks, e ∈ bindsOf b.body := mem_flatMap

theorem boundIn_within {b c : Block} (h : ∀ e ∈ bindsOf b.body, e ∈ bindsOf c.body) :
    (boundIn (b :: outer)).Within (boundIn (c :: outer)) := by
  refine ⟨fun e he => ?_, fun _ h => h⟩
  simp only [boundIn, flatMap_cons, mem_append] at he ⊢
  exact he.imp_left (h e)

def StackAnchored (ops : Ops) : List Block → Prop
  | [] => True
  | b :: outer => BlockAnchored ops (boundIn (b :: outer)) b.body ∧ StackAnchored ops outer

theorem StackAnchored.mono {a b : Ops} (hops : ∀ e op, a e = some op → b e = some op)
    (h : StackAnchored a blocks) : StackAnchored b blocks := by
  induction blocks with
  | nil => trivial
  | cons block outer ih => exact ⟨h.1.mono hops .rfl, ih h.2⟩

theorem StackAnchored.pushStmt (h : StackAnchored ops r.blocks)
    (hs : BlockAnchored ops (boundIn r.blocks) [s]) : StackAnchored ops (r.pushStmt s).blocks := by
  have hbound : (boundIn r.blocks).Within (boundIn (r.pushStmt s).blocks) := by
    apply boundIn_within
    intro e he
    rw [Recording.pushStmt, bindsOf_append]
    exact mem_append_left _ he
  exact ⟨blockAnchored_append.2 ⟨h.1.weaken hbound, hs.weaken hbound⟩, h.2⟩

theorem mem_boundIn_of_names (h : e ∈ (names blocks).nodes) : e ∈ (boundIn blocks).nodes := by
  obtain ⟨b, hb, hbind⟩ := mem_nodes_names.1 h
  exact mem_boundIn.2 ⟨b, hb, mem_filterMap.2 ⟨_, mem_deepBlock_of_mem hbind, rfl⟩⟩

theorem Placed.anchored (h : r.Placed) (hu : r.Usable e) :
    Available r.ops (boundIn r.blocks) e := by
  obtain ⟨op, ho, hop⟩ := h.available hu
  exact ⟨op, ho, hop.imp_right mem_boundIn_of_names⟩

theorem StackAnchored.edit (h : StackAnchored r.ops r.blocks) (hp : r.Placed) (he : Edit r q)
    (herr : q.error = none) : StackAnchored q.ops q.blocks := by
  have hmono := h.mono he.grows.ops
  rcases he.blocks_cases hp herr with hb | ⟨s, hb, hs, hplain⟩
  · exact hb ▸ hmono
  · exact hb ▸ hmono.pushStmt (hs.anchored hplain fun _ => mem_boundIn_of_names)

theorem StackAnchored.edits (h : StackAnchored r.ops r.blocks) (hp : r.Placed) (he : Edits r q)
    (herr : q.error = none) : StackAnchored q.ops q.blocks := by
  induction he with
  | refl => exact h
  | tail hs he ih => exact (ih (he.grows.error herr)).edit (hp.edits hs) he herr

theorem StackAnchored.reopened {index place : Nat} {before : List Stmt} {chain : Stmt}
    {bound sealed : List NodeId} (h : StackAnchored r.ops r.blocks)
    (hr : r.Reopened index guard place q before chain bound sealed) :
    StackAnchored q.ops q.blocks ∧ (boundIn r.blocks).Within (boundIn q.blocks) := by
  have hdeep {s : Stmt} : s ∈ deepBlock q.current.body ↔ s ∈ deepBlock r.current.body := by
    simp only [mem_deepBlock, hr.mem_iff]
  have hbound : (boundIn r.blocks).Within (boundIn q.blocks) := by
    rw [blocks, blocks, hr.outer]
    apply boundIn_within
    intro e he
    obtain ⟨s, hs, hse⟩ := mem_filterMap.1 he
    exact mem_filterMap.2 ⟨s, hdeep.2 hs, hse⟩
  refine ⟨⟨fun s hs => ?_, ?_⟩, hbound⟩
  · rw [hr.ops]
    exact (h.1 s (hdeep.1 hs)).mono (fun _ _ h => h) hbound
  · rw [hr.ops, hr.outer]
    exact h.2

theorem boundIn_close {b c d : Block}
    (h : ∀ e, e ∈ bindsOf b.body ∨ e ∈ bindsOf c.body → e ∈ bindsOf d.body) :
    (boundIn (b :: c :: outer)).Within (boundIn (d :: outer)) := by
  refine ⟨fun e he => ?_, fun _ h => h⟩
  simp only [boundIn, flatMap_cons, mem_append] at he ⊢
  rcases he with he | he | he
  · exact .inl (h e (.inl he))
  · exact .inl (h e (.inr he))
  · exact .inr he

theorem StackAnchored.pushChain {b : Block} {cond : Expr} (h : StackAnchored ops (b :: r.blocks))
    (hg : Available ops (boundIn r.blocks) cond.id) :
    StackAnchored ops (r.pushChain cond b.body).2.blocks := by
  obtain ⟨hb, hr, houter⟩ := h
  have hbinds : bindsOf (r.current.body ++ [.cond [.mk (some cond.id) b.body]])
      = bindsOf r.current.body ++ bindsOf b.body := by
    rw [bindsOf_append, bindsOf_cond, bindsOfBranches_cons]
    exact congrArg _ (append_nil _)
  have hin : (boundIn r.blocks).Within (boundIn (r.pushChain cond b.body).2.blocks) := by
    apply boundIn_within
    intro e he
    exact hbinds ▸ mem_append_left _ he
  have hclose : (boundIn (b :: r.blocks)).Within (boundIn (r.pushChain cond b.body).2.blocks) := by
    apply boundIn_close
    intro e he
    exact hbinds ▸ mem_append.2 he.symm
  refine ⟨blockAnchored_append.2 ⟨hr.weaken hin, blockAnchored_cond.2 ?_⟩, houter⟩
  intro branch hm
  rw [mem_singleton.1 hm]
  refine ⟨fun g hm => ?_, hb.weaken hclose⟩
  exact Option.some.inj hm ▸ hg.mono (fun _ _ h => h) hin

theorem mem_bindsOf_addBranch {front back : List Stmt} :
    e ∈ bindsOf (front ++ .cond (branches ++ [.mk guard body]) :: back) ↔
      e ∈ bindsOf body ∨ e ∈ bindsOf (front ++ .cond branches :: back) := by
  have hnil : bindsOfBranches [] = [] := rfl
  rw [bindsOf_append, bindsOf_append, bindsOf_cons, bindsOf_cons (.cond branches), bindsOf_cond,
    bindsOf_cond, bindsOfBranches_append, bindsOfBranches_cons, hnil]
  simp only [mem_append, not_mem_nil, or_false]
  grind

theorem StackAnchored.addBranch {b : Block} (h : StackAnchored ops (b :: r.blocks))
    (hg : ∀ g ∈ guard, Available ops (boundIn r.blocks) g) (index : Nat) :
    StackAnchored ops (r.addBranch index guard b.body).blocks := by
  obtain ⟨hb, hr, houter⟩ := h
  unfold Recording.addBranch
  split
  next branches hi =>
    obtain ⟨hlt, hget⟩ := List.getElem?_eq_some_iff.1 hi
    have hbody : r.current.body
        = r.current.body.take index ++ .cond branches :: r.current.body.drop (index + 1) := by
      rw [← hget, ← drop_eq_getElem_cons hlt, take_append_drop]
    rw [set_eq_take_append_cons_drop, if_pos hlt]
    generalize r.current.body.take index = front at hbody ⊢
    generalize r.current.body.drop (index + 1) = back at hbody ⊢
    have hin : (boundIn r.blocks).Within (boundIn (⟨r.current.scope,
        front ++ .cond (branches ++ [.mk guard b.body]) :: back⟩ :: r.outer)) :=
      boundIn_within fun e he => mem_bindsOf_addBranch.2 (.inr (hbody ▸ he))
    have hclose : (boundIn (b :: r.blocks)).Within (boundIn (⟨r.current.scope,
        front ++ .cond (branches ++ [.mk guard b.body]) :: back⟩ :: r.outer)) :=
      boundIn_close fun e he => mem_bindsOf_addBranch.2 (he.imp_right (hbody ▸ ·))
    rw [hbody] at hr
    obtain ⟨hfront, hrest⟩ := blockAnchored_append.1 hr
    obtain ⟨hcond, hback⟩ := blockAnchored_append (x := [.cond branches]) |>.1 hrest
    refine ⟨blockAnchored_append.2 ⟨hfront.weaken hin, ?_⟩, houter⟩
    refine blockAnchored_append (x := [_]) |>.2 ⟨blockAnchored_cond.2 ?_, hback.weaken hin⟩
    intro branch hm
    rcases mem_append.1 hm with hm | hm
    · obtain ⟨hguard, hinside⟩ := blockAnchored_cond.1 hcond branch hm
      exact ⟨fun g hm => (hguard g hm).mono (fun _ _ h => h) hin, hinside.weaken hin⟩
    · rw [mem_singleton.1 hm]
      exact ⟨fun g hm => (hg g hm).mono (fun _ _ h => h) hin, hb.weaken hclose⟩
  · exact ⟨hr, houter⟩

end Recording

namespace Draft
open Recording

/-- The guards of the branches under way are known where their chains stand. -/
def GuardsAnchored (ops : Ops) : List Purpose → List Block → Prop
  | p :: rest, b :: outer =>
    (∀ g ∈ p.guard?, Available ops (boundIn (b :: outer)) g) ∧ GuardsAnchored ops rest outer
  | _, _ => True

theorem GuardsAnchored.mono {a b : Ops} (hops : ∀ e op, a e = some op → b e = some op)
    {purposes : List Purpose} (h : GuardsAnchored a purposes blocks) :
    GuardsAnchored b purposes blocks := by
  induction purposes generalizing blocks with
  | nil => trivial
  | cons p rest ih =>
    cases blocks with
    | nil => trivial
    | cons block outer => exact ⟨fun g hg => (h.1 g hg).mono hops .rfl, ih h.2⟩

/-- What is read in the open blocks and by the guards of branches under way is bound. -/
structure IsAnchored (s : Draft) : Prop where
  stack : StackAnchored s.recording.ops s.recording.blocks
  guards : GuardsAnchored s.recording.ops s.purposes s.recording.outer

theorem isAnchored_start (id : RecordingId) (inputs : List TensorType) :
    (start id inputs).IsAnchored where
  stack := ⟨by simp [BlockAnchored, start, Recording.start, deepBlock], trivial⟩
  guards := trivial

theorem Move.isAnchored {s t : Draft} {c : Call} (h : Move s c t) (hn : s.Nests)
    (hp : s.recording.Placed) (hs : s.IsAnchored) (he : t.recording.error = none) :
    t.IsAnchored := by
  cases h with
  | edit hedits _ hpu =>
    have hg := hedits.grows
    refine ⟨hs.stack.edits hp hedits he, ?_⟩
    rw [hpu, hg.outer]
    exact hs.guards.mono hg.ops
  | @enter cond _ hx =>
    have hu := usable_of_operandError? hx (note_error_eq_none_iff.1 he).2
    refine ⟨⟨by simp [BlockAnchored, openBlock, deepBlock], hs.stack⟩, ?_, hs.guards⟩
    intro g hg
    exact Option.some.inj hg ▸ hp.anchored hu.2
  | @resume key place w guard e q _ _ _ _ hguard hq =>
    obtain ⟨-, before, chain, bound, sealed, hr⟩ := reopened_of_reopen hq
    have hops : q.ops = s.recording.ops := hr.ops
    obtain ⟨hstack, hin⟩ := StackAnchored.reopened (r := s.recording.note e) hs.stack hr
    refine ⟨⟨by simp [BlockAnchored, openBlock, deepBlock], hstack⟩, ?_, ?_⟩
    · intro g hg
      have hu := hp.anchored (hguard g hg (hr.keeps.error he))
      exact hu.mono (fun _ _ h => hops ▸ h) hin
    · rw [show q.openBlock.ops = s.recording.ops from hops, show q.outer = s.recording.outer from hr.outer]
      exact hs.guards
  | @leave p rest _ hpu =>
    obtain ⟨b, outer, ho⟩ := hn.outer_eq hpu
    have hstack := hs.stack
    have hguards := hs.guards
    rw [blocks, ho] at hstack
    rw [hpu, ho] at hguards
    cases p with
    | first cond =>
      unfold complete
      rw [closeBlock_eq ho]
      exact ⟨StackAnchored.pushChain (r := { s.recording with current := b, outer }) hstack
        (hguards.1 _ rfl), hguards.2⟩
    | further key index guard =>
      have hadded := StackAnchored.addBranch (r := { s.recording with current := b, outer }) hstack
        hguards.1 index
      have hops : (s.complete rest (.further key index guard)).recording.ops = s.recording.ops := by
        unfold Recording.ops
        rw [(tables_complete rest (.further key index guard) ho).nodes]
      have houter := (closed_complete rest (.further key index guard) ho).outer
      refine ⟨?_, ?_⟩
      · rw [hops]
        unfold complete
        rw [closeBlock_eq ho]
        exact hadded
      · rw [hops, houter]
        exact hguards.2
  | @abandon p rest _ hpu =>
    obtain ⟨b, outer, ho⟩ := hn.outer_eq hpu
    have hstack := hs.stack
    have hguards := hs.guards
    rw [blocks, ho] at hstack
    rw [hpu, ho] at hguards
    rw [closeBlock_eq ho]
    exact ⟨hstack.2, hguards.2⟩

/-- However a capture went, what is read in a draft without errors is bound in it. -/
theorem Leads.isAnchored {s : Draft} (h : Leads rule (start id inputs) s)
    (he : s.recording.error = none) : s.IsAnchored := by
  have hall : s.Nests ∧ s.recording.Placed ∧ (s.recording.error = none → s.IsAnchored) := by
    refine h.invariant (P := fun s => s.Nests ∧ s.recording.Placed ∧
      (s.recording.error = none → s.IsAnchored)) (holds_start id inputs)
      ⟨nests_start id inputs, placed_start id inputs, fun _ => isAnchored_start id inputs⟩ ?_
    intro s c t _ hs _ hm
    obtain ⟨hn, hp, ha⟩ := hs
    exact ⟨hm.nests hn, hm.placed hn hp, fun he => hm.isAnchored hn hp (ha (hm.keeps.error he)) he⟩
  exact hall.2.2 he

end Draft

/-- Every node that a statement of the body reads is spelled out or bound in the body. -/
def Graph.IsAnchored (g : Graph) : Prop := BlockAnchored g.ops ⟨bindsOf g.body, []⟩ g.body

theorem Stmt.uses_mapOutputs (f : Nat → Nat) (s : Stmt) : (s.mapOutputs f).uses = s.uses := by
  cases s with
  | cond branches =>
    have hguards := congrArg (·.filterMap id) (guards_mapOutputsBranches f branches)
    simpa [Stmt.mapOutputs, Stmt.uses, filterMap_map] using hguards
  | _ => simp [Stmt.mapOutputs, Stmt.uses]

theorem bindsOf_mapOutputsBlock (f : Nat → Nat) (body : List Stmt) :
    bindsOf (mapOutputsBlock f body) = bindsOf body := by
  have hbound : Stmt.bound? ∘ Stmt.mapOutputs f = Stmt.bound? := by
    funext s
    cases s <;> simp [Stmt.mapOutputs, Stmt.bound?]
  rw [bindsOf, deepBlock_mapOutputs, filterMap_map, hbound]
  rfl

theorem BlockAnchored.mapOutputs {n : Names} (f : Nat → Nat) (h : BlockAnchored ops n body) :
    BlockAnchored ops n (mapOutputsBlock f body) := by
  intro s hs
  rw [deepBlock_mapOutputs] at hs
  obtain ⟨t, ht, rfl⟩ := mem_map.1 hs
  have hanchored := h t ht
  have huses := t.uses_mapOutputs f
  cases t with
  | bind e => simpa [Stmt.mapOutputs] using hanchored
  | declare | assign | store | cond =>
    rw [Stmt.mapOutputs] at huses ⊢
    exact fun e he => hanchored e (huses ▸ he)

theorem Draft.finish_isAnchored {s : Draft} (h : Leads rule (start id inputs) s) {name : String}
    {returned : List OutputTensor} {g : Graph} (hg : s.recording.finish name returned = .ok g) :
    g.IsAnchored := by
  have hfin := Recording.finished_of_finish hg
  have hstack := (h.isAnchored hfin.error).stack
  rw [Recording.blocks, hfin.outer] at hstack
  have hbody : g.body = mapOutputsBlock (Recording.returnOrder returned) s.recording.current.body := by
    rw [hfin.graph]
    rfl
  have hops : g.ops = s.recording.ops := by
    rw [hfin.graph]
    rfl
  have hbound : Recording.boundIn [s.recording.current] = ⟨bindsOf s.recording.current.body, []⟩ := by
    simp [Recording.boundIn]
  rw [Graph.IsAnchored, hops, hbody, bindsOf_mapOutputsBlock, ← hbound]
  exact hstack.1.mapOutputs _

end TensorKernel

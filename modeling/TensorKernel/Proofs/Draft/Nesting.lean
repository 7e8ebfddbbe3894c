import TensorKernel.Proofs.Draft.Move

/-! Open blocks. Their scopes are exactly the scopes that can be seen from the innermost
one, a new block gets a scope of its own, and what happens inside of a block leaves the
blocks around it as they are. -/
namespace TensorKernel

variable {parents : Array (Option ScopeId)} {outer : List Block} {b : Block} {s : Draft}
  {stack rest : List ScopeId} {r q : Recording} {p : Purpose} {c : Call} {t : Draft}
  {before : List Stmt}

namespace Recording

def blocks (r : Recording) : List Block := r.current :: r.outer

def scopes (r : Recording) : List ScopeId := r.blocks.map Block.scope

/-- Each scope lies in the next one, up to a scope that lies in none. -/
def Nested (parents : Array (Option ScopeId)) : List ScopeId → Prop
  | [] => False
  | [s] => parents[s]? = some none
  | s :: p :: rest => parents[s]? = some (some p) ∧ p < s ∧ Nested parents (p :: rest)

theorem Nested.push (h : Nested parents stack) (p : Option ScopeId) :
    Nested (parents.push p) stack := by
  induction stack with
  | nil => exact h
  | cons s rest ih =>
    cases rest with
    | nil => exact getElem?_push_of_some h
    | cons q rest => exact ⟨getElem?_push_of_some h.1, h.2.1, ih h.2.2⟩

theorem Nested.lt_size (h : Nested parents stack) : ∀ s ∈ stack, s < parents.size := by
  induction stack with
  | nil => simp
  | cons s rest ih =>
    cases rest with
    | nil =>
      intro t ht
      rw [List.mem_singleton.1 ht]
      exact (Array.getElem?_eq_some_iff.1 h).1
    | cons q rest =>
      intro t ht
      rcases List.mem_cons.1 ht with rfl | ht
      · exact (Array.getElem?_eq_some_iff.1 h.1).1
      · exact ih h.2.2 t ht

theorem Nested.open {s : ScopeId} (h : Nested parents (s :: rest)) :
    Nested (parents.push (some s)) (parents.size :: s :: rest) :=
  ⟨Array.getElem?_push_size, h.lt_size s List.mem_cons_self, h.push _⟩

theorem Nested.close {s p : ScopeId} (h : Nested parents (s :: p :: rest)) :
    Nested parents (p :: rest) := h.2.2

theorem Nested.lt {s : ScopeId} (h : Nested parents (s :: rest)) : ∀ p ∈ rest, p < s := by
  induction rest generalizing s with
  | nil => simp
  | cons q rest ih =>
    intro p hp
    rcases List.mem_cons.1 hp with rfl | hp
    · exact h.2.1
    · exact Nat.lt_trans (ih h.2.2 p hp) h.2.1

theorem enclosing_eq {s : ScopeId} (h : Nested parents (s :: rest)) :
    enclosing parents s = s :: rest := by
  induction rest generalizing s with
  | nil =>
    rw [enclosing, show parents[s]? = some none from h]
  | cons q rest ih =>
    rw [enclosing, h.1]
    dsimp only
    rw [if_pos h.2.1, ih h.2.2]

theorem isVisible_iff (h : Nested r.parents r.scopes) {s : ScopeId} :
    r.isVisible s = true ↔ s ∈ r.scopes := by
  unfold isVisible
  rw [enclosing_eq (s := r.current.scope) h, List.contains_iff_mem]
  rfl

theorem closeBlock_eq (h : r.outer = b :: outer) :
    r.closeBlock = (r.current.body, { r with current := b, outer }) := by
  unfold closeBlock
  rw [h]

theorem Grows.scopes {r : Recording} (h : r.Grows q) : q.scopes = r.scopes := by
  simp only [Recording.scopes, blocks, List.map_cons, h.scope, h.outer]

theorem Reopened.scopes {r : Recording} {index place : Nat} {guard : Option NodeId} {chain : Stmt}
    {bound sealed : List NodeId} (h : r.Reopened index guard place q before chain bound sealed) :
    q.scopes = r.scopes := by
  simp only [Recording.scopes, blocks, List.map_cons, h.current, h.outer]

theorem Reopened.nested {r : Recording} {index place : Nat} {guard : Option NodeId} {chain : Stmt}
    {bound sealed : List NodeId} (h : r.Reopened index guard place q before chain bound sealed)
    (hn : Nested r.parents r.scopes) : Nested q.parents q.scopes := by
  rw [h.scopes]
  obtain ⟨nodes, parents, rfl, ⟨rfl, -⟩ | rfl⟩ := h.eq
  · exact hn
  · exact hn.push _

@[simp] theorem parents_addBranch (r : Recording) (index : Nat) (guard : Option NodeId)
    (body : List Stmt) : (r.addBranch index guard body).parents = r.parents := by
  unfold addBranch
  split <;> rfl

@[simp] theorem outer_addBranch (r : Recording) (index : Nat) (guard : Option NodeId)
    (body : List Stmt) : (r.addBranch index guard body).outer = r.outer := by
  unfold addBranch
  split <;> rfl

@[simp] theorem scope_addBranch (r : Recording) (index : Nat) (guard : Option NodeId)
    (body : List Stmt) : (r.addBranch index guard body).current.scope = r.current.scope := by
  unfold addBranch
  split <;> rfl

structure SameTables (r q : Recording) : Prop where
  nodes : q.nodes = r.nodes
  slots : q.slots = r.slots
  inputs : q.inputs = r.inputs
  outputs : q.outputs = r.outputs
  domain : q.domain = r.domain

theorem tables_addBranch (r : Recording) (index : Nat) (guard : Option NodeId) (body : List Stmt) :
    r.SameTables (r.addBranch index guard body) := by
  unfold addBranch
  split <;> exact ⟨rfl, rfl, rfl, rfl, rfl⟩

end Recording

namespace Draft
open Recording

/-- The open blocks are nested, and each but the outermost serves a purpose. -/
structure Nests (s : Draft) : Prop where
  nested : Nested s.recording.parents s.recording.scopes
  purposes : s.purposes.length = s.recording.outer.length

theorem nests_start (id : RecordingId) (inputs : List TensorType) : (start id inputs).Nests :=
  ⟨rfl, rfl⟩

theorem Nests.outer_eq (h : s.Nests) {rest : List Purpose} (hp : s.purposes = p :: rest) :
    ∃ b outer, s.recording.outer = b :: outer := by
  have hl := h.purposes
  rw [hp] at hl
  cases ho : s.recording.outer with
  | nil =>
    rw [ho] at hl
    cases hl
  | cons b outer => exact ⟨b, outer, rfl⟩

theorem Nests.close (h : s.Nests) {rest : List Purpose} (hp : s.purposes = p :: rest)
    (ho : s.recording.outer = b :: outer) :
    Nested s.recording.parents ((b :: outer).map Block.scope) ∧ rest.length = outer.length := by
  have hn := h.nested
  have hl := h.purposes
  rw [Recording.scopes, blocks, ho] at hn
  rw [hp, ho] at hl
  exact ⟨hn.close, Nat.succ.inj hl⟩

structure Closed (s t : Draft) (b : Block) (outer : List Block) (rest : List Purpose) : Prop where
  parents : t.recording.parents = s.recording.parents
  scope : t.recording.current.scope = b.scope
  outer : t.recording.outer = outer
  purposes : t.purposes = rest

theorem closed_complete (rest : List Purpose) (p : Purpose) (ho : s.recording.outer = b :: outer) :
    Closed s (s.complete rest p) b outer rest := by
  cases p with
  | first cond =>
    unfold complete
    rw [closeBlock_eq ho]
    exact ⟨rfl, rfl, rfl, rfl⟩
  | further key index guard =>
    unfold complete
    rw [closeBlock_eq ho]
    exact ⟨parents_addBranch _ _ _ _, scope_addBranch _ _ _ _, outer_addBranch _ _ _ _, rfl⟩

theorem tables_complete (rest : List Purpose) (p : Purpose) (ho : s.recording.outer = b :: outer) :
    s.recording.SameTables (s.complete rest p).recording := by
  cases p with
  | first cond =>
    unfold complete
    rw [closeBlock_eq ho]
    exact ⟨rfl, rfl, rfl, rfl, rfl⟩
  | further key index guard =>
    obtain ⟨hn, hs, hi, ho', hd⟩ := tables_addBranch { s.recording with current := b, outer } index
      guard s.recording.current.body
    unfold complete
    rw [closeBlock_eq ho]
    exact ⟨hn, hs, hi, ho', hd⟩

theorem closed_drop (rest : List Purpose) (ho : s.recording.outer = b :: outer) :
    Closed s { s with recording := s.recording.closeBlock.2, purposes := rest } b outer rest := by
  rw [closeBlock_eq ho]
  exact ⟨rfl, rfl, rfl, rfl⟩

theorem Closed.nests {rest : List Purpose} (h : Closed s t b outer rest)
    (hn : Nested s.recording.parents ((b :: outer).map Block.scope))
    (hl : rest.length = outer.length) : t.Nests := by
  refine ⟨?_, ?_⟩
  · rw [h.parents]
    simp only [Recording.scopes, blocks, List.map_cons, h.scope, h.outer]
    exact hn
  · rw [h.purposes, h.outer, hl]

theorem Move.nests (h : Move s c t) (hs : s.Nests) : t.Nests := by
  cases h with
  | edit he _ hp =>
    have hg := he.grows
    refine ⟨?_, ?_⟩
    · rw [hg.parents, hg.scopes]
      exact hs.nested
    · rw [hp, hg.outer]
      exact hs.purposes
  | enter _ hx => exact ⟨hs.nested.open, congrArg Nat.succ hs.purposes⟩
  | resume _ _ _ _ _ hq =>
    obtain ⟨-, before, chain, bound, sealed, h⟩ := reopened_of_reopen hq
    refine ⟨(h.nested hs.nested).open, congrArg Nat.succ ?_⟩
    rw [h.outer]
    exact hs.purposes
  | @leave p rest _ hp =>
    obtain ⟨b, outer, ho⟩ := hs.outer_eq hp
    obtain ⟨hn, hl⟩ := hs.close hp ho
    exact (closed_complete rest p ho).nests hn hl
  | @abandon p rest _ hp =>
    obtain ⟨b, outer, ho⟩ := hs.outer_eq hp
    obtain ⟨hn, hl⟩ := hs.close hp ho
    exact (closed_drop rest ho).nests hn hl

theorem Leads.nests {rule : Draft → Call → Prop} (h : Leads rule s t) (hs : s.Holds) (hn : s.Nests) :
    t.Nests :=
  h.invariant hs hn fun _ _ _ _ hs _ hm => hm.nests hs

/-- The call does not close the block that has `n` blocks around it. -/
def Inside (n : Nat) (s : Draft) (c : Call) : Prop :=
  c = .leave ∨ c = .abandon → n < s.purposes.length

instance (n : Nat) (s : Draft) (c : Call) : Decidable (Inside n s c) :=
  match c with
  | .leave => decidable_of_iff (n < s.purposes.length) (by simp [Inside])
  | .abandon => decidable_of_iff (n < s.purposes.length) (by simp [Inside])
  | .constant _ _ | .unary _ _ | .binary _ _ _ | .binaryFrom _ _ _ | .cast _ _ | .element _ _
  | .output _ | .outputLike _ | .positionIn _ | .declare _ _ | .get _ | .assign _ _
  | .update _ _ _ | .store _ _ _ | .branch _ | .elif _ _ | .otherwise _ =>
    .isTrue (by simp [Inside])

/-- The second draft is at a point inside of the first one's innermost block. -/
def Within (s t : Draft) : Prop :=
  ∃ blocks purposes, t.recording.outer = blocks ++ s.recording.outer ∧
    t.purposes = purposes ++ s.purposes ∧ blocks.length = purposes.length

theorem Move.within {u : Draft} (h : Move t c u) (hr : Inside s.purposes.length t c)
    (hw : s.Within t) : s.Within u := by
  obtain ⟨blocks, purposes, hb, hp, hl⟩ := hw
  have inner (hc : c = .leave ∨ c = .abandon) :
      ∃ b bs p ps, blocks = b :: bs ∧ purposes = p :: ps := by
    have hlt := hr hc
    rw [hp, List.length_append] at hlt
    cases purposes with
    | nil => simp at hlt
    | cons p ps =>
      cases blocks with
      | nil => cases hl
      | cons b bs => exact ⟨b, bs, p, ps, rfl, rfl⟩
  cases h with
  | edit he _ hpu => exact ⟨blocks, purposes, he.grows.outer.trans hb, hpu.trans hp, hl⟩
  | @enter cond hx =>
    refine ⟨t.recording.current :: blocks, .first cond :: purposes, ?_, ?_, congrArg Nat.succ hl⟩
    · exact congrArg (t.recording.current :: ·) hb
    · exact congrArg (Purpose.first cond :: ·) hp
  | @resume key place _ guard _ q _ _ _ _ _ hq =>
    obtain ⟨-, before, chain, bound, sealed, h⟩ := reopened_of_reopen hq
    refine ⟨q.current :: blocks, .further key place guard :: purposes, ?_, ?_, congrArg Nat.succ hl⟩
    · exact congrArg (q.current :: ·) (h.outer.trans hb)
    · exact congrArg (Purpose.further key place guard :: ·) hp
  | @leave p rest hc hpu =>
    obtain ⟨b, bs, p', ps, rfl, rfl⟩ := inner (.inl hc)
    have hclosed := closed_complete rest p hb
    have hrest : rest = ps ++ s.purposes := (List.cons.inj (hpu.symm.trans hp)).2
    exact ⟨bs, ps, hclosed.outer, hclosed.purposes.trans hrest, Nat.succ.inj hl⟩
  | @abandon p rest hc hpu =>
    obtain ⟨b, bs, p', ps, rfl, rfl⟩ := inner (.inr hc)
    have hclosed := closed_drop rest hb
    have hrest : rest = ps ++ s.purposes := (List.cons.inj (hpu.symm.trans hp)).2
    exact ⟨bs, ps, hclosed.outer, hclosed.purposes.trans hrest, Nat.succ.inj hl⟩

/-- Calls inside of a block leave the blocks around it, and what they are for, as they
are. -/
theorem Leads.within (h : Leads (Inside s.purposes.length) s t) (hs : s.Holds) : s.Within t :=
  h.invariant hs ⟨[], [], rfl, rfl, rfl⟩ fun _ _ _ _ hw hr hm => hm.within hr hw

end Draft
end TensorKernel

import TensorKernel.Proofs.Draft.Acceptance

/-! What can be seen is what is open. At every moment of a capture the scopes around the
innermost block are those of the open blocks. A scope that is not among them, since its block
was closed or since it only seals values, is never seen again. -/
namespace TensorKernel

namespace Recording

variable {r q : Recording} {c : Call}

/-- Every scope lies in an older one. -/
def OlderParents (parents : Array (Option ScopeId)) : Prop :=
  ∀ child parent : ScopeId, parents[child]? = some (some parent) → parent < child

/-- How a call changes the open blocks. -/
inductive Restacks (r : Recording) (c : Call) (q : Recording) : Prop where
  /-- No block is entered or closed: a chain may be refused, or only the outermost block left. -/
  | keeps : c.isPlain ∨ c.continues?.isSome ∨ (c = .leave ∨ c = .abandon) ∧ r.outer = [] →
      q.parents = r.parents → q.scopes = r.scopes → Restacks r c q
  /-- A block is entered. Its scope is the newest, after `k` that no block has. -/
  | enters (k : Nat) : c.continues?.isSome ∨ (∃ cond, c = .branch cond) →
      q.parents = r.parents ++ Array.replicate (k + 1) (some r.current.scope) →
      q.scopes = (r.parents.size + k) :: r.scopes → Restacks r c q
  | closes : c = .leave ∨ c = .abandon → q.parents = r.parents →
      r.scopes = r.current.scope :: q.scopes → Restacks r c q

theorem Restacks.hidden (h : r.Restacks c q) {scope : ScopeId} (hlt : scope < r.parents.size)
    (hout : scope ∉ r.scopes) : scope < q.parents.size ∧ scope ∉ q.scopes := by
  cases h with
  | keeps _ hparents hscopes => exact ⟨hparents ▸ hlt, hscopes ▸ hout⟩
  | enters k _ hparents hscopes =>
    rw [hparents, hscopes, Array.size_append, List.mem_cons, not_or]
    have hle (n : Nat) : scope < r.parents.size + n := Nat.lt_add_right n hlt
    exact ⟨hle _, Nat.ne_of_lt (hle k), hout⟩
  | closes _ hparents hscopes =>
    refine ⟨hparents ▸ hlt, fun hin => hout ?_⟩
    rw [hscopes]
    exact List.mem_cons_of_mem _ hin

theorem Restacks.olderParents (h : r.Restacks c q) (hr : OlderParents r.parents)
    (hscope : r.current.scope < r.parents.size) : OlderParents q.parents := by
  cases h with
  | keeps _ hparents => exact hparents ▸ hr
  | closes _ hparents => exact hparents ▸ hr
  | enters k _ hparents =>
    intro child parent hget
    rw [hparents, Array.getElem?_append] at hget
    split at hget
    · exact hr child parent hget
    next hge =>
      rw [Array.getElem?_replicate] at hget
      split at hget
      · cases hget
        exact Nat.lt_of_lt_of_le hscope (Nat.not_lt.1 hge)
      · cases hget

end Recording

namespace Draft
open Recording

variable {s t : Draft} {c : Call} {b : Block} {outer : List Block} {rest : List Purpose}

theorem Closed.restacks (h : Closed s t b outer rest) (hc : c = .leave ∨ c = .abandon)
    (ho : s.recording.outer = b :: outer) : s.recording.Restacks c t.recording := by
  refine .closes hc h.parents ?_
  simp only [Recording.scopes, blocks, List.map_cons, h.scope, h.outer, ho]

theorem Nests.outer_nil (hn : s.Nests) (hp : s.purposes = []) : s.recording.outer = [] :=
  List.eq_nil_of_length_eq_zero (hn.purposes.symm.trans (congrArg List.length hp))

/-- A chain is continued in a new block, or not at all. What its guard needs gets a scope that
no block has. -/
theorem Move.restacks (h : Move s c t) {key : Nat} (hc : c.continues? = some key) :
    s.recording.Restacks c t.recording := by
  have hsome : c.continues?.isSome := hc ▸ rfl
  cases h with
  | edit he => exact .keeps (.inr (.inl hsome)) he.grows.parents he.grows.scopes
  | enter h | leave h | abandon h =>
    subst h
    cases hc
  | resume _ _ _ _ _ hq =>
    obtain ⟨-, before, chain, bound, sealed, hr⟩ := reopened_of_reopen hq
    obtain ⟨nodes, parents, rfl, ⟨rfl, -⟩ | rfl⟩ := hr.eq
    · exact .enters 0 (.inl hsome) Array.push_eq_append rfl
    · refine .enters 1 (.inl hsome) ?_ ?_
      · change (s.recording.parents.push _).push _ = _
        rw [Array.push_eq_append, Array.push_eq_append, Array.append_assoc]
        rfl
      · simp [openBlock, note, Recording.scopes, blocks]

theorem restacks_perform (hs : s.Holds) (hn : s.Nests) (hc : s.Admits c) :
    s.recording.Restacks c (s.perform c).recording := by
  have hm := move_perform hs hc
  cases c with
  | branch cond => exact .enters 0 (.inr ⟨cond, rfl⟩) Array.push_eq_append rfl
  | leave =>
    unfold perform
    dsimp only
    split
    next p rest hp =>
      obtain ⟨b, outer, ho⟩ := hn.outer_eq hp
      exact (closed_complete rest p ho).restacks (.inl rfl) ho
    next hp => exact .keeps (.inr (.inr ⟨by simp, hn.outer_nil hp⟩)) rfl rfl
  | abandon =>
    unfold perform
    dsimp only
    split
    next p rest hp =>
      obtain ⟨b, outer, ho⟩ := hn.outer_eq hp
      exact (closed_drop rest ho).restacks (.inr rfl) ho
    next hp => exact .keeps (.inr (.inr ⟨by simp, hn.outer_nil hp⟩)) rfl rfl
  | elif | otherwise => exact hm.restacks rfl
  | _ =>
    have he := (hm.edits rfl).1.grows
    exact .keeps (.inl rfl) he.parents he.scopes

/-- The open blocks are nested in scopes that were there before them. -/
structure Layered (s : Draft) : Prop where
  holds : s.Holds
  nests : s.Nests
  older : OlderParents s.recording.parents

theorem layered_start (id : RecordingId) (inputs : List TensorType) : (start id inputs).Layered :=
  ⟨holds_start id inputs, nests_start id inputs, by rintro (_ | child) parent h <;> cases h⟩

theorem Layered.perform (h : s.Layered) (hc : s.Admits c) : (s.perform c).Layered := by
  have hm := move_perform h.holds hc
  have hscope := h.nests.nested.lt_size _ List.mem_cons_self
  exact ⟨hm.holds h.holds, hm.nests h.nests,
    (restacks_perform h.holds h.nests hc).olderParents h.older hscope⟩

variable {rule : Draft → Call → Prop}

theorem Leads.layered (h : Leads rule s t) (hs : s.Layered) : t.Layered := by
  induction h with
  | refl => exact hs
  | call _ hc _ ih => exact ih.perform hc

theorem Leads.hidden (h : Leads rule s t) (hs : s.Layered) {scope : ScopeId}
    (hlt : scope < s.recording.parents.size) (hout : scope ∉ s.recording.scopes) :
    scope < t.recording.parents.size ∧ scope ∉ t.recording.scopes := by
  induction h with
  | refl => exact ⟨hlt, hout⟩
  | call hlead hc _ ih =>
    have ht := hlead.layered hs
    exact (restacks_perform ht.holds ht.nests hc).hidden ih.1 ih.2

/-- At every moment of a capture the scopes found by following parents from the innermost block
are those of the open blocks, from the inside out; exactly they are visible. Each call keeps
the open blocks, enters one with a new scope or closes the innermost one, and a scope that
is not visible stays so. -/
theorem visible_iff_open {id : RecordingId} {inputs : List TensorType}
    (h : Reachable id inputs s) :
    let r := s.recording
    enclosing r.parents r.current.scope = r.blocks.map Block.scope ∧
    Nested r.parents (r.blocks.map Block.scope) ∧ OlderParents r.parents ∧
    (∀ scope, r.isVisible scope = true ↔ ∃ b ∈ r.blocks, b.scope = scope) ∧
    (∀ c, s.Admits c → r.Restacks c (s.perform c).recording) ∧
    ∀ scope < r.parents.size, r.isVisible scope = false → ∀ t, Leads Anything s t →
      t.recording.isVisible scope = false := by
  intro r
  have hs := h.layered (layered_start id inputs)
  refine ⟨enclosing_eq hs.nests.nested, hs.nests.nested, hs.older, ?_,
    fun c hc => restacks_perform hs.holds hs.nests hc, ?_⟩
  · intro scope
    exact (isVisible_iff hs.nests.nested).trans List.mem_map
  · intro scope hlt hout t ht
    rw [← Bool.not_eq_true, isVisible_iff hs.nests.nested] at hout
    rw [← Bool.not_eq_true, isVisible_iff (ht.layered hs).nests.nested]
    exact (ht.hidden hs hlt hout).2

/-- Scope 1 was closed and scope 2 holds what the guard needed. -/
theorem visible_iff_open_rereads :
    let s := (start 1 [⟨⟨[2]⟩, .f32⟩]).performAll (rereads ++ [.elif 0 ⟨1, 8, .bool⟩])
    s.recording.scopes = [3, 0] ∧ s.recording.parents = #[none, some 0, some 0, some 0] ∧
    s.recording.isVisible 3 = true ∧ s.recording.isVisible 0 = true ∧
    ∀ t, Leads Anything s t →
      t.recording.isVisible 1 = false ∧ t.recording.isVisible 2 = false := by
  intro s
  have hs : Reachable 1 [⟨⟨[2]⟩, .f32⟩] s := leads_performAll (by decide +kernel)
  have hscopes : s.recording.scopes = [3, 0] := by decide +kernel
  have hparents : s.recording.parents = #[none, some 0, some 0, some 0] := by decide +kernel
  obtain ⟨-, -, -, hopen, -, hlater⟩ := visible_iff_open hs
  have hmem (scope : ScopeId) : s.recording.isVisible scope = true ↔ scope ∈ [3, 0] := by
    rw [hopen, ← hscopes, Recording.scopes, List.mem_map]
  have hnot (scope : ScopeId) (h : scope ∉ [3, 0]) : s.recording.isVisible scope = false := by
    rw [← Bool.not_eq_true, hmem]
    exact h
  refine ⟨hscopes, hparents, (hmem 3).2 (by decide), (hmem 0).2 (by decide), ?_⟩
  intro t ht
  exact ⟨hlater 1 (by rw [hparents]; decide) (hnot 1 (by decide)) t ht,
    hlater 2 (by rw [hparents]; decide) (hnot 2 (by decide)) t ht⟩

end Draft
end TensorKernel

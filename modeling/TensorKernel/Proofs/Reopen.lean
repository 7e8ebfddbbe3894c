import TensorKernel.Capture.Chain

/-! What continuing a chain does to a recording. The statements after the chain are
bindings; they change places with it, and those among them that read a variable, all
of which the guard needs, are put out of reach. -/
namespace TensorKernel.Recording

open List

variable {e : NodeId} {r : Recording}

theorem getElem?_rescope (nodes : Array Node) (scope : ScopeId) (es : List NodeId) (e : NodeId) :
    (rescope nodes scope es)[e]? =
      nodes[e]?.map fun node => if e ∈ es then { node with scope } else node := by
  induction es generalizing nodes with
  | nil => simp [rescope]
  | cons x rest ih =>
    have hstep : rescope nodes scope (x :: rest) =
      rescope (nodes.modify x fun node => { node with scope }) scope rest := rfl
    rw [hstep, ih, Array.getElem?_modify]
    by_cases hx : x = e
    · subst hx
      cases nodes[x]? with
      | none => simp
      | some node => by_cases hr : x ∈ rest <;> simp [hr]
    · have hne : e ≠ x := fun h => hx h.symm
      simp [hx, hne]

theorem getElem?_nodes_sealNodes (r : Recording) (es : List NodeId) (e : NodeId) :
    (r.sealNodes es).nodes[e]? =
      r.nodes[e]?.map fun node => if e ∈ es then { node with scope := r.parents.size } else node := by
  unfold sealNodes
  split
  next h => simp [isEmpty_iff.1 h]
  next => exact getElem?_rescope r.nodes r.parents.size es e

theorem sealNodes_eq (r : Recording) (es : List NodeId) :
    ∃ nodes parents, r.sealNodes es = { r with nodes, parents } ∧
      (parents = r.parents ∧ es = [] ∨ parents = r.parents.push (some r.current.scope)) := by
  unfold sealNodes
  split
  next h => exact ⟨r.nodes, r.parents, rfl, .inl ⟨rfl, isEmpty_iff.1 h⟩⟩
  next => exact ⟨_, _, rfl, .inr rfl⟩

theorem mem_of_mem_spread {among found : List NodeId} (h : e ∈ r.spread among found) : e ∈ among :=
  (mem_filter.1 h).1

theorem mem_of_mem_needed {among : List NodeId} {guard : Option NodeId}
    (h : e ∈ r.needed among guard) : e ∈ among := by
  have general (n : Nat) (found : List NodeId) (hf : ∀ x ∈ found, x ∈ among) :
      ∀ x ∈ n.repeat (r.spread among) found, x ∈ among := by
    induction n with
    | zero => exact hf
    | succ n ih => exact fun x hx => mem_of_mem_spread hx
  exact general among.length _ (fun x hx => (mem_filter.1 hx).1) e h

theorem needed_none (r : Recording) (among : List NodeId) : r.needed among none = [] := by
  have general (n : Nat) : n.repeat (r.spread among) [] = [] := by
    induction n with
    | zero => rfl
    | succ n ih =>
      change r.spread among (n.repeat (r.spread among) []) = []
      rw [ih]
      simp [spread]
  unfold needed
  rw [show (among.filter fun e => (none : Option NodeId) == some e) = [] by simp]
  exact general _

/-- How a recording changes when the statement at `index` of its innermost block is
made the last one. -/
structure Reopened (r : Recording) (index : Nat) (guard : Option NodeId) (place : Nat)
    (q : Recording) (before : List Stmt) (chain : Stmt) (bound sealed : List NodeId) : Prop where
  body : r.current.body = before ++ chain :: bound.map Stmt.bind
  length : before.length = index
  stateful : ∀ e ∈ r.stateful bound, e ∈ sealed
  needed : sealed = r.needed (r.stateful bound) guard
  place : place = before.length + bound.length
  result : q = { r.sealNodes sealed with
    current := ⟨r.current.scope, before ++ bound.map Stmt.bind ++ [chain]⟩ }

section
variable {r q : Recording} {index place : Nat} {guard : Option NodeId} {before : List Stmt}
  {chain : Stmt} {bound sealed : List NodeId}

theorem Reopened.eq (h : r.Reopened index guard place q before chain bound sealed) :
    ∃ nodes parents, q = { r with
        nodes, parents, current := ⟨r.current.scope, before ++ bound.map Stmt.bind ++ [chain]⟩ } ∧
      (parents = r.parents ∧ sealed = [] ∨ parents = r.parents.push (some r.current.scope)) := by
  obtain ⟨nodes, parents, he, hp⟩ := r.sealNodes_eq sealed
  refine ⟨nodes, parents, ?_, hp⟩
  rw [h.result, he]

theorem Reopened.outer (h : r.Reopened index guard place q before chain bound sealed) :
    q.outer = r.outer := by
  obtain ⟨nodes, parents, rfl, -⟩ := h.eq
  rfl

theorem Reopened.current (h : r.Reopened index guard place q before chain bound sealed) :
    q.current = ⟨r.current.scope, before ++ bound.map Stmt.bind ++ [chain]⟩ := by
  obtain ⟨nodes, parents, rfl, -⟩ := h.eq
  rfl

theorem Reopened.scope (h : r.Reopened index guard place q before chain bound sealed) :
    q.current.scope = r.current.scope := by
  rw [h.current]

theorem Reopened.parents_le (h : r.Reopened index guard place q before chain bound sealed) :
    r.parents.size ≤ q.parents.size := by
  obtain ⟨nodes, parents, rfl, ⟨rfl, -⟩ | rfl⟩ := h.eq
  · exact Nat.le_refl _
  · simp

theorem Reopened.nodes (h : r.Reopened index guard place q before chain bound sealed)
    (e : NodeId) : q.nodes[e]? =
      r.nodes[e]?.map fun node => if e ∈ sealed then { node with scope := r.parents.size }
        else node := by
  rw [← getElem?_nodes_sealNodes, h.result]

theorem Reopened.size (h : r.Reopened index guard place q before chain bound sealed) :
    q.nodes.size = r.nodes.size := by
  have hnone (e : NodeId) : q.nodes.size ≤ e ↔ r.nodes.size ≤ e := by
    rw [← Array.getElem?_eq_none_iff, ← Array.getElem?_eq_none_iff, h.nodes]
    exact Option.map_eq_none_iff
  exact Nat.le_antisymm ((hnone _).2 (Nat.le_refl _)) ((hnone _).1 (Nat.le_refl _))

theorem Reopened.mem (h : r.Reopened index guard place q before chain bound sealed) {s : Stmt}
    (hs : s ∈ q.current.body) : s ∈ r.current.body := by
  rw [h.current] at hs
  rw [h.body]
  simp only [mem_append, mem_cons, not_mem_nil, or_false] at hs ⊢
  rcases hs with (hs | hs) | hs
  · exact .inl hs
  · exact .inr (.inr hs)
  · exact .inr (.inl hs)

end

theorem map_bind_filterMap_bound? {body : List Stmt} (h : body.all Stmt.isBind = true) :
    (body.filterMap Stmt.bound?).map Stmt.bind = body := by
  induction body with
  | nil => rfl
  | cons s rest ih =>
    simp only [all_cons, Bool.and_eq_true] at h
    cases s with
    | bind e => simp [Stmt.bound?, ih h.2]
    | declare | assign | store | cond => exact absurd h.1 (by simp [Stmt.isBind])

theorem reopened_of_reopen {q : Recording} {depth index place : Nat} {guard : Option NodeId}
    (h : r.reopen depth index guard = .ok (place, q)) :
    r.depth = depth ∧ ∃ before chain bound sealed,
      r.Reopened index guard place q before chain bound sealed := by
  unfold reopen at h
  dsimp only at h
  split at h
  · cases h
  next hd =>
    refine ⟨Decidable.of_not_not hd, ?_⟩
    split at h
    · cases h
    next chain hc =>
      split at h
      · cases h
      next hall =>
        split at h
        · cases h
        next hfind =>
          have hall : (r.current.body.drop (index + 1)).all Stmt.isBind = true := by simpa using hall
          have hbound := map_bind_filterMap_bound? hall
          obtain ⟨hlt, hget⟩ := List.getElem?_eq_some_iff.1 hc
          have hbody : r.current.body =
              r.current.body.take index ++ chain :: r.current.body.drop (index + 1) := by
            rw [← hget, ← drop_eq_getElem_cons hlt, take_append_drop]
          have hlen : (r.current.body.take index).length = index := by
            rw [length_take]; omega
          cases h
          refine ⟨r.current.body.take index, chain,
            (r.current.body.drop (index + 1)).filterMap Stmt.bound?, _, ?_, hlen, ?_, rfl, ?_, ?_⟩
          · rw [hbound]
            exact hbody
          · intro e he
            have := find?_eq_none.1 hfind e he
            simpa using this
          · have hl := congrArg List.length hbound
            rw [length_map] at hl
            simp only [length_append, length_cons, length_nil]
            omega
          · rw [hbound]
            obtain ⟨nodes, parents, he, -⟩ := r.sealNodes_eq
              (r.needed (r.stateful ((r.current.body.drop (index + 1)).filterMap Stmt.bound?)) guard)
            rw [he]

end TensorKernel.Recording

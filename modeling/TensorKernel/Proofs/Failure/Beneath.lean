import TensorKernel.Proofs.Draft.Outline
import TensorKernel.Proofs.Draft.Scoping

/-! Inside of a block. Whatever calls are made there, failed ones too, the blocks around are as
they were: their statements, their chains and the scopes of what is seen from them. What is new
has scopes that no block around has. -/
namespace TensorKernel

open List

namespace Recording

theorem Edits.newSlots {r q : Recording} (h : Edits r q) {v : VarId} {slot : Slot}
    (hv : q.slots[v]? = some slot) : r.slots[v]? = some slot ∨ slot.scope = r.current.scope := by
  induction h with
  | refl => exact .inl hv
  | tail hs he ih =>
    cases he with
    | slot type init _ =>
      change (Array.push _ _)[v]? = _ at hv
      rw [Array.getElem?_push] at hv
      split at hv
      · cases hv
        exact .inr (Edits.grows hs).scope
      · exact ih hv
    | node op type _ =>
      unfold addNode at hv
      split at hv <;> exact ih hv
    | note | assign | store | output | domain => exact ih hv

end Recording

namespace Draft
open Recording

def around (s : Draft) : List ScopeId := s.recording.outer.map Block.scope

/-- The second draft is at a point inside of the first one's innermost block. -/
structure Beneath (s t : Draft) : Prop where
  /-- Blocks were opened inside; a chain that is continued in one of them belongs there. -/
  blocks : ∃ inner ps, t.recording.outer = inner ++ s.recording.outer ∧
    t.purposes = ps ++ s.purposes ∧ inner.length = ps.length ∧
    ∀ key index guard, .further key index guard ∈ ps →
      ∃ u, t.chains[key]? = some u ∧ s.recording.depth ≤ u.chain.depth
  handles : ∀ (key : Nat) (u : Started), s.chains[key]? = some u →
    u.chain.depth < s.recording.depth → ∃ v, t.chains[key]? = some v ∧ v.chain = u.chain
  chains : ∀ (i : Nat) (u : Started), u.scope ∈ s.around →
    (t.chains[i]? = some u ↔ s.chains[i]? = some u)
  nodes : ∀ (e : NodeId) (node : Node), s.recording.nodes[e]? = some node → ∃ scope,
    t.recording.nodes[e]? = some { node with scope } ∧ (scope = node.scope ∨ scope ∉ s.around)
  slots : ∀ (v : VarId) (slot : Slot), s.recording.slots[v]? = some slot →
    t.recording.slots[v]? = some slot
  newSlots : ∀ (v : VarId) (slot : Slot), t.recording.slots[v]? = some slot →
    s.recording.slots[v]? = some slot ∨ slot.scope ∉ s.around
  outputs : s.recording.outputs <+: t.recording.outputs

theorem Beneath.rfl {s : Draft} : s.Beneath s where
  blocks := ⟨[], [], Eq.refl _, Eq.refl _, Eq.refl _, fun _ _ _ hm => by cases hm⟩
  handles _ u hu _ := ⟨u, hu, Eq.refl _⟩
  chains _ _ _ := Iff.rfl
  nodes _ node hn := ⟨node.scope, hn, .inl (Eq.refl _)⟩
  slots _ _ h := h
  newSlots _ _ h := .inl h
  outputs := prefix_rfl

namespace Beneath

variable {s t u : Draft} {rest : List Purpose} {p : Purpose}

theorem depth_le (h : s.Beneath t) : s.recording.depth ≤ t.recording.depth := by
  obtain ⟨inner, ps, ho, -⟩ := h.blocks
  unfold depth
  rw [ho, length_append]
  exact Nat.le_add_left _ _

theorem lt_of_around (h : s.Beneath t) (hn : t.Nests) {scope : ScopeId} (hs : scope ∈ s.around) :
    scope < t.recording.current.scope := by
  obtain ⟨inner, ps, ho, -⟩ := h.blocks
  refine hn.nested.lt scope ?_
  rw [ho, map_append]
  exact mem_append_right _ hs

theorem current_not_around (h : s.Beneath t) (hn : t.Nests) :
    t.recording.current.scope ∉ s.around :=
  fun hs => Nat.lt_irrefl _ (h.lt_of_around hn hs)

theorem size_not_around (h : s.Beneath t) (hn : t.Nests) :
    t.recording.parents.size ∉ s.around := fun hs =>
  Nat.lt_asymm (h.lt_of_around hn hs) (hn.nested.lt_size _ mem_cons_self)

theorem depth_lt (h : s.Beneath t) (ht : t.Tracks) {key : Nat} {x : Started}
    (hx : t.chains[key]? = some x) (hs : x.scope ∈ s.around) :
    x.chain.depth < s.recording.depth := by
  obtain ⟨inner, ps, ho, -⟩ := h.blocks
  have hstand := (ht.standing x (mem_of_getElem? hx)).2
  rw [ho] at hstand
  exact Standing.depth_lt hstand.around hs

theorem closing (h : s.Beneath t) (hp : t.purposes = p :: rest)
    (hlt : s.purposes.length < t.purposes.length) :
    ∃ b inner ps, t.recording.outer = b :: (inner ++ s.recording.outer) ∧
      rest = ps ++ s.purposes ∧ inner.length = ps.length ∧
      (∀ key index guard, p = .further key index guard →
        ∃ u, t.chains[key]? = some u ∧ s.recording.depth ≤ u.chain.depth) ∧
      ∀ key index guard, .further key index guard ∈ ps →
        ∃ u, t.chains[key]? = some u ∧ s.recording.depth ≤ u.chain.depth := by
  obtain ⟨inner, ps, ho, hps, hlen, hfurther⟩ := h.blocks
  cases ps with
  | nil =>
    rw [hps] at hlt
    exact absurd hlt (Nat.lt_irrefl _)
  | cons p' ps =>
    cases inner with
    | nil => cases hlen
    | cons b inner =>
      rw [hp] at hps
      obtain ⟨rfl, rfl⟩ := List.cons.inj hps
      refine ⟨b, inner, ps, ho, Eq.refl _, Nat.succ.inj hlen, fun key index guard he => ?_,
        fun key index guard hm => hfurther key index guard (mem_cons_of_mem _ hm)⟩
      exact hfurther key index guard (he ▸ mem_cons_self)

theorem edit (h : s.Beneath t) (hn : t.Nests) (he : Edits t.recording u.recording)
    (hc : u.chains = t.chains) (hp : u.purposes = t.purposes) : s.Beneath u := by
  have hg := he.grows
  refine ⟨?_, ?_, ?_, fun e node hnode => ?_, fun v slot hv => hg.slots v slot (h.slots v slot hv),
    fun v slot hv => ?_, h.outputs.trans (prefix_iff_getElem?.2 fun i hi => ?_)⟩
  · rw [hg.outer, hc, hp]
    exact h.blocks
  · rw [hc]
    exact h.handles
  · rw [hc]
    exact h.chains
  · obtain ⟨scope, hscope, hkept⟩ := h.nodes e node hnode
    exact ⟨scope, hg.nodes e _ hscope, hkept⟩
  · rcases he.newSlots hv with hold | hnew
    · exact h.newSlots v slot hold
    · exact .inr (hnew ▸ h.current_not_around hn)
  · exact hg.outputs i _ (getElem?_eq_getElem hi)

theorem enter (h : s.Beneath t) (cond : Expr) : s.Beneath { t with
    recording := (t.recording.checkOperand cond).openBlock
    purposes := .first cond :: t.purposes } := by
  obtain ⟨inner, ps, ho, hp, hlen, hfurther⟩ := h.blocks
  refine { h with
    blocks := ⟨t.recording.current :: inner, .first cond :: ps, ?_, ?_,
      congrArg Nat.succ hlen, ?_⟩ }
  · exact congrArg (t.recording.current :: ·) ho
  · exact congrArg (Purpose.first cond :: ·) hp
  · intro key index guard hm
    rcases mem_cons.1 hm with he | hm
    · cases he
    · exact hfurther key index guard hm

theorem resume (h : s.Beneath t) (hn : t.Nests) (ht : t.Tracks) {key place : Nat} {w : Started}
    {guard : Option NodeId} {e : Option CaptureError} {q : Recording}
    (hw : t.chains[key]? = some w)
    (hq : (t.recording.note e).reopen w.chain.depth w.chain.index guard = .ok (place, q)) :
    s.Beneath { t with
      recording := q.openBlock
      chains := (t.chains.map (Started.follow q.current.scope w.chain.index place)).modify key
        fun u => { u with chain := { w.chain with index := place } }
      purposes := .further key place guard :: t.purposes } := by
  obtain ⟨hd, before, chain, bound, sealed, hr⟩ := reopened_of_reopen hq
  have hd : t.recording.depth = w.chain.depth := hd
  obtain ⟨inner, ps, ho, hp, hlen, hfurther⟩ := h.blocks
  have hscope : q.current.scope = t.recording.current.scope := hr.scope
  have hget (i : Nat) (u : Started) (hu : t.chains[i]? = some u) :
      ∃ v, ((t.chains.map (Started.follow q.current.scope w.chain.index place)).modify key
          fun u => { u with chain := { w.chain with index := place } })[i]? = some v ∧
        v.chain.depth = u.chain.depth ∧ (key ≠ i → v.chain = u.chain) := by
    rw [getElem?_modify, getElem?_map, hu]
    by_cases hi : key = i
    · subst hi
      rw [hw] at hu
      cases hu
      refine ⟨{ w.follow q.current.scope w.chain.index place with
        chain := { w.chain with index := place } }, by simp, Eq.refl _, fun hne => ?_⟩
      exact absurd (Eq.refl _) hne
    · exact ⟨u.follow q.current.scope w.chain.index place, by simp [hi], by rw [chain_follow],
        fun _ => chain_follow _ _ _ _⟩
  obtain ⟨nodes, parents, hres, -⟩ := hr.eq
  refine ⟨⟨q.current :: inner, .further key place guard :: ps, ?_, ?_, congrArg Nat.succ hlen, ?_⟩,
    fun i u hu hlt => ?_, fun i u hu => ?_, fun e node hnode => ?_, ?_, ?_, ?_⟩
  · exact congrArg (q.current :: ·) (hr.outer.trans ho)
  · exact congrArg (Purpose.further key place guard :: ·) hp
  · intro i index g hm
    rcases mem_cons.1 hm with he | hm
    · cases he
      obtain ⟨v, hv, hdepth, -⟩ := hget key w hw
      exact ⟨v, hv, by rw [hdepth, ← hd]; exact h.depth_le⟩
    · obtain ⟨u, hu, hle⟩ := hfurther i index g hm
      obtain ⟨v, hv, hdepth, -⟩ := hget i u hu
      exact ⟨v, hv, hdepth ▸ hle⟩
  · obtain ⟨v, hv, hsame⟩ := h.handles i u hu hlt
    obtain ⟨x, hx, -, hkept⟩ := hget i v hv
    refine ⟨x, hx, (hkept ?_).trans hsame⟩
    rintro rfl
    rw [hw] at hv
    cases hv
    rw [← hsame, ← hd] at hlt
    exact Nat.lt_irrefl _ (Nat.lt_of_lt_of_le hlt h.depth_le)
  · refine Iff.trans (getElem?_followed_of_ne (fun _ => Eq.refl _) hw (fun he => ?_) fun he => ?_)
      (h.chains i u hu)
    · have hlt := h.depth_lt ht hw (he ▸ hu)
      rw [← hd] at hlt
      exact Nat.lt_irrefl _ (Nat.lt_of_lt_of_le hlt h.depth_le)
    · exact h.current_not_around hn (hscope ▸ he ▸ hu)
  · obtain ⟨scope, hnode', hkept⟩ := h.nodes e node hnode
    have hafter : q.nodes[e]? = _ := hr.nodes e
    rw [show (t.recording.note _).nodes[e]? = _ from hnode', Option.map_some] at hafter
    by_cases hm : e ∈ sealed
    · rw [if_pos hm] at hafter
      exact ⟨_, hafter, .inr (h.size_not_around hn)⟩
    · rw [if_neg hm] at hafter
      exact ⟨scope, hafter, hkept⟩
  · rw [hres]
    exact h.slots
  · rw [hres]
    exact h.newSlots
  · rw [hres]
    exact h.outputs

theorem leave (h : s.Beneath t) (hn : t.Nests) (ht : t.Tracks) (hp : t.purposes = p :: rest)
    (hlt : s.purposes.length < t.purposes.length) : s.Beneath (t.complete rest p) := by
  obtain ⟨b, inner, ps, ho, hrest, hlen, hkey, hfurther⟩ := h.closing hp hlt
  have hclosed := closed_complete rest p ho
  have htables := tables_complete rest p ho
  have hchains : (∀ (i : Nat) (u : Started), t.chains[i]? = some u →
        ∃ v, (t.complete rest p).chains[i]? = some v ∧ v.chain.depth = u.chain.depth ∧
          (u.chain.depth < s.recording.depth → v.chain = u.chain)) ∧
      ∀ (i : Nat) (u : Started), u.scope ∈ s.around →
        ((t.complete rest p).chains[i]? = some u ↔ t.chains[i]? = some u) := by
    cases p with
    | first cond =>
      obtain ⟨hnested, -⟩ := hn.close hp ho
      unfold complete
      rw [closeBlock_eq ho]
      refine ⟨fun i u hu => ⟨u, ?_, Eq.refl _, fun _ => Eq.refl _⟩,
        fun i u hu => ⟨fun hi => ?_, fun hi => ?_⟩⟩
      · exact (List.getElem?_append_left (List.getElem?_eq_some_iff.1 hu).1).trans hu
      · rcases getElem?_snoc hi with hi | ⟨-, rfl⟩
        · exact hi
        · have hin : b.scope ∈ (inner ++ s.recording.outer).map Block.scope := by
            rw [map_append]
            exact mem_append_right _ hu
          exact absurd (hnested.lt _ hin) (Nat.lt_irrefl _)
      · exact (List.getElem?_append_left (List.getElem?_eq_some_iff.1 hi).1).trans hi
    | further key index guard =>
      obtain ⟨w, hw, hle⟩ := hkey key index guard (Eq.refl _)
      unfold complete
      dsimp only
      split
      · refine ⟨fun i u hu => ?_,
          fun i u hu => getElem?_modify_iff (fun _ => Eq.refl _) fun x hx he => ?_⟩
        · rw [getElem?_modify, hu]
          by_cases hi : key = i
          · subst hi
            rw [hw] at hu
            cases hu
            exact ⟨{ w with chain := { w.chain with closed := true } }, by simp, Eq.refl _,
              fun hd => absurd hd (Nat.not_lt.2 hle)⟩
          · exact ⟨u, by simp [hi], Eq.refl _, fun _ => Eq.refl _⟩
        · rw [hw] at hx
          cases hx
          exact absurd (h.depth_lt ht hw (he ▸ hu)) (Nat.not_lt.2 hle)
      · exact ⟨fun i u hu => ⟨u, hu, Eq.refl _, fun _ => Eq.refl _⟩, fun _ _ _ => Iff.rfl⟩
  refine ⟨⟨inner, ps, hclosed.outer, hclosed.purposes.trans hrest, hlen, ?_⟩, ?_, fun i u hu => ?_,
    ?_, ?_, ?_, ?_⟩
  · intro key index guard hm
    obtain ⟨u, hu, hle⟩ := hfurther key index guard hm
    obtain ⟨v, hv, hdepth, -⟩ := hchains.1 key u hu
    exact ⟨v, hv, hdepth ▸ hle⟩
  · intro key u hu hd
    obtain ⟨v, hv, hsame⟩ := h.handles key u hu hd
    obtain ⟨x, hx, -, hkept⟩ := hchains.1 key v hv
    exact ⟨x, hx, (hkept (hsame ▸ hd)).trans hsame⟩
  · exact (hchains.2 i u hu).trans (h.chains i u hu)
  · rw [htables.nodes]
    exact h.nodes
  · rw [htables.slots]
    exact h.slots
  · rw [htables.slots]
    exact h.newSlots
  · rw [htables.outputs]
    exact h.outputs

theorem abandon (h : s.Beneath t) (hp : t.purposes = p :: rest)
    (hlt : s.purposes.length < t.purposes.length) :
    s.Beneath { t with recording := t.recording.closeBlock.2, purposes := rest } := by
  obtain ⟨b, inner, ps, ho, hrest, hlen, -, hfurther⟩ := h.closing hp hlt
  rw [closeBlock_eq ho]
  exact { h with blocks := ⟨inner, ps, Eq.refl _, hrest, hlen, hfurther⟩ }

end Beneath

variable {s t u : Draft}

theorem Move.beneath {c : Call} (h : Move t c u) (hr : Inside s.purposes.length t c)
    (hn : t.Nests) (ht : t.Tracks) (hb : s.Beneath t) : s.Beneath u := by
  cases h with
  | edit he hc hp => exact hb.edit hn he hc hp
  | enter => exact hb.enter _
  | resume _ hw _ _ _ hq => exact hb.resume hn ht hw hq
  | leave hc hp => exact hb.leave hn ht hp (hr (.inl hc))
  | abandon hc hp => exact hb.abandon hp (hr (.inr hc))

/-- Calls inside of a block leave what is around it. -/
theorem Leads.beneath (h : Leads (Inside s.purposes.length) s t) (hs : s.Holds) (hn : s.Nests)
    (ht : s.Tracks) : s.Beneath t := by
  refine (h.invariant (P := fun t => t.Nests ∧ t.Tracks ∧ s.Beneath t) hs ⟨hn, ht, .rfl⟩ ?_).2.2
  rintro t c u - ⟨hn, ht, hb⟩ hr hm
  exact ⟨hm.nests hn, hm.tracks hn ht, hm.beneath hr hn ht hb⟩

end Draft
end TensorKernel

import TensorKernel.Proofs.Draft.Acceptance
import TensorKernel.Proofs.Failure.Beneath
import TensorKernel.Proofs.Direct.Record

/-! Blocks that are given up. A call that starts or continues a chain may fail: it is refused, or
the block of its branch fails after any calls. Then the open blocks are those from before, with
the same statements, and every chain of them has the branches that it had. -/
namespace TensorKernel

open List

variable {key : Nat} {started : Started} {q : Recording} {d : Chain}

namespace Draft
open Recording

variable {s t a b : Draft}

theorem Leads.domain (h : Leads (Inside s.purposes.length) s t) (hs : s.Holds)
    (ho : s.recording.outer ≠ []) : t.recording.domain = s.recording.domain := by
  induction h with
  | refl => rfl
  | @call t c hl hc hr ih =>
    rw [← ih]
    cases hd : c.declares with
    | false => exact congrArg Prod.snd (t.outline_perform hd).1
    | true =>
      cases c with
      | outputLike type => rfl
      | output type =>
        cases hp : t.recording.output type with
        | error e => simp only [perform, hp]
        | ok p =>
          simp only [perform, hp, withOutput]
          unfold Recording.output at hp
          split at hp
          · cases hp
          · cases hp
            rfl
      | positionIn shape =>
        cases hp : t.recording.positionIn shape with
        | error e => simp only [perform, hp]
        | ok p =>
          obtain ⟨inner, ps, hb, -⟩ := hl.within hs
          have hzero := length_eq_zero_iff.1 (built_of_positionIn hp).1
          rw [hb] at hzero
          exact absurd (append_eq_nil_iff.1 hzero).2 ho
      | _ => cases hd

theorem Leads.chains_le {rule : Draft → Call → Prop} (h : Leads rule s t) (hs : s.Holds) :
    s.chains.length ≤ t.chains.length := by
  refine Nat.le_of_not_lt fun hlt => ?_
  obtain ⟨v, hv, -⟩ := h.chain hs (getElem?_eq_getElem hlt)
  exact Nat.lt_irrefl _ (List.getElem?_eq_some_iff.1 hv).1

/-- The second draft has more than the first one, but nothing that is seen from the open
blocks. -/
structure Aside (a b : Draft) : Prop where
  purposes : b.purposes = a.purposes
  current : b.recording.current = a.recording.current
  outer : b.recording.outer = a.recording.outer
  nodes : ∀ (e : NodeId) (node : Node), a.recording.nodes[e]? = some node → ∃ scope,
    b.recording.nodes[e]? = some { node with scope } ∧
      (scope = node.scope ∨ scope ∉ a.recording.scopes)
  slots : ∀ (v : VarId) (slot : Slot), a.recording.slots[v]? = some slot →
    b.recording.slots[v]? = some slot
  newSlots : ∀ (v : VarId) (slot : Slot), b.recording.slots[v]? = some slot →
    a.recording.slots[v]? = some slot ∨ slot.scope ∉ a.recording.scopes
  outputs : a.recording.outputs <+: b.recording.outputs
  domain : b.recording.domain = a.recording.domain
  chains : ∀ (i : Nat) (u : Started), u.scope ∈ a.recording.scopes →
    (b.chains[i]? = some u ↔ a.chains[i]? = some u)
  length : a.chains.length ≤ b.chains.length

theorem Aside.rfl : a.Aside a where
  purposes := Eq.refl _
  current := Eq.refl _
  outer := Eq.refl _
  nodes _ node hn := ⟨node.scope, hn, .inl (Eq.refl _)⟩
  slots _ _ h := h
  newSlots _ _ h := .inl h
  outputs := prefix_rfl
  domain := Eq.refl _
  chains _ _ _ := Iff.rfl
  length := Nat.le_refl _

theorem Aside.blocks (h : a.Aside b) : b.recording.blocks = a.recording.blocks := by
  rw [Recording.blocks, h.current, h.outer]
  exact Eq.refl _

theorem Aside.scopes (h : a.Aside b) : b.recording.scopes = a.recording.scopes := by
  rw [Recording.scopes, h.blocks]
  exact Eq.refl _

theorem Aside.ops (h : a.Aside b) (e : NodeId) (op : Op) (ho : a.recording.ops e = some op) :
    b.recording.ops e = some op := by
  obtain ⟨node, hn, rfl⟩ := Option.map_eq_some_iff.1 ho
  obtain ⟨scope, hb, -⟩ := h.nodes e node hn
  exact Option.map_eq_some_iff.2 ⟨_, hb, Eq.refl _⟩

theorem Aside.regular (h : a.Aside b) (ha : a.Regular) : b.Regular where
  stack := by
    rw [h.blocks]
    exact ha.stack.mono h.ops
  unclosed u hu := by
    rw [h.blocks]
    by_cases hs : u.scope ∈ a.recording.scopes
    · obtain ⟨i, hi⟩ := mem_iff_getElem?.1 hu
      exact ha.unclosed u (mem_of_getElem? ((h.chains i u hs).1 hi))
    · exact where_of_not_mem hs
  pending := by
    rw [h.purposes, h.outer]
    refine ha.pending.mono h.ops fun key u hu hs => ⟨u, ?_, Eq.refl _, Eq.refl _⟩
    exact (h.chains key u (mem_cons_of_mem _ hs)).2 hu

theorem perform_abandon {p : Purpose} {rest : List Purpose} (hp : s.purposes = p :: rest)
    {b : Block} {outer : List Block} (ho : s.recording.outer = b :: outer) : s.perform .abandon =
      { s with recording := { s.recording with current := b, outer }, purposes := rest } := by
  simp only [perform, hp, closeBlock_eq ho]

theorem Beneath.aside (h : s.Beneath t) (hn : s.Nests) {p : Purpose} {rest : List Purpose}
    (hp : s.purposes = p :: rest) (ht : t.purposes = s.purposes)
    (hd : t.recording.domain = s.recording.domain) (hl : s.chains.length ≤ t.chains.length) :
    (s.perform .abandon).Aside (t.perform .abandon) := by
  obtain ⟨block, outer, ho⟩ := hn.outer_eq hp
  have hto : t.recording.outer = block :: outer := by
    obtain ⟨inner, ps, hb, hps, hlen, -⟩ := h.blocks
    rw [ht] at hps
    rw [self_eq_append_left.1 hps] at hlen
    rw [hb, length_eq_zero_iff.1 hlen, ho]
    exact Eq.refl _
  have haround : s.around = (block :: outer).map Block.scope := by rw [around, ho]
  have hchains := h.chains
  have hnodes := h.nodes
  have hslots := h.newSlots
  rw [haround] at hchains hnodes hslots
  rw [perform_abandon hp ho, perform_abandon (ht.trans hp) hto]
  exact ⟨Eq.refl _, Eq.refl _, Eq.refl _, hnodes, h.slots, hslots, h.outputs, hd, hchains, hl⟩

/-- The chain stands in an open block and has these branches. -/
def HasBranches (s : Draft) (u : Started) (branches : List Branch) : Prop :=
  ∃ block ∈ s.recording.blocks, block.scope = u.scope ∧
    block.body[u.place]? = some (.cond branches)

/-- The open blocks are the same, with the same statements, and so are the branches of every
chain in them. -/
structure Unharmed (s t : Draft) : Prop where
  scopes : t.recording.scopes = s.recording.scopes
  outer : t.recording.outer = s.recording.outer
  body : t.recording.current.body.Perm s.recording.current.body
  chains : ∀ (key : Nat) (u : Started), s.chains[key]? = some u → u.scope ∈ s.recording.scopes →
    ∃ v branches, t.chains[key]? = some v ∧ v.scope = u.scope ∧ v.chain.closed = u.chain.closed ∧
      s.HasBranches u branches ∧ t.HasBranches v branches

theorem Standing.block {u : Started} {blocks : List Block} (h : Standing u blocks)
    (hm : u.scope ∈ blocks.map Block.scope) : ∃ block ∈ blocks, block.scope = u.scope ∧
      ∃ branches, block.body[u.place]? = some (.cond branches) := by
  induction blocks with
  | nil => cases hm
  | cons block outer ih =>
    rcases mem_cons.1 hm with hb | hm
    · exact ⟨block, mem_cons_self, hb.symm, (h.1 hb).2.2⟩
    · obtain ⟨found, hf, hrest⟩ := ih h.2 hm
      exact ⟨found, mem_cons_of_mem _ hf, hrest⟩

theorem Tracks.hasBranches (ht : s.Tracks) {u : Started} (hu : s.chains[key]? = some u)
    (hm : u.scope ∈ s.recording.scopes) : ∃ branches, s.HasBranches u branches := by
  obtain ⟨block, hb, hs, branches, hget⟩ := (ht.standing u (mem_of_getElem? hu)).block hm
  exact ⟨branches, block, hb, hs, hget⟩

theorem unharmed_of_blocks (ht : s.Tracks) (hb : t.recording.blocks = s.recording.blocks)
    (hc : t.chains = s.chains) : s.Unharmed t := by
  obtain ⟨hcurrent, houter⟩ := List.cons.inj hb
  refine ⟨congrArg (map Block.scope) hb, houter, by rw [hcurrent], fun key u hu hm => ?_⟩
  obtain ⟨branches, hbranches⟩ := ht.hasBranches hu hm
  refine ⟨u, branches, by rw [hc]; exact hu, rfl, rfl, hbranches, ?_⟩
  unfold HasBranches
  rw [hb]
  exact hbranches

theorem Unharmed.aside (h : s.Unharmed a) (h' : a.Aside b) : s.Unharmed b := by
  refine ⟨h'.scopes.trans h.scopes, h'.outer.trans h.outer, by rw [h'.current]; exact h.body,
    fun key u hu hm => ?_⟩
  obtain ⟨v, branches, hv, hscope, hclosed, hold, hnew⟩ := h.chains key u hu hm
  refine ⟨v, branches, (h'.chains key v ?_).2 hv, hscope, hclosed, hold, ?_⟩
  · rw [hscope, h.scopes]
    exact hm
  · unfold HasBranches
    rw [h'.blocks]
    exact hnew

theorem unharmed_reopened (hn : s.Nests) (ht : s.Tracks) {guard : Option Expr}
    (hw : s.chains[key]? = some started)
    (hq : s.recording.reopenWith started.chain guard = (.ok d, q))
    (hb : t.recording.blocks = q.blocks)
    (hc : t.chains = (s.perform (.continuing key guard)).chains) : s.Unharmed t := by
  obtain ⟨-, hdepth, hd, before, chain, bound, sealed, hr⟩ := reopened_of_reopenWith hq
  obtain ⟨hcurrent, houter⟩ := List.cons.inj hb
  have houter : t.recording.outer = s.recording.outer := houter.trans hr.outer
  have hscope : q.current.scope = s.recording.current.scope := hr.scope
  have hbody : s.recording.current.body = before ++ chain :: bound.map Stmt.bind := hr.body
  refine ⟨(congrArg (map Block.scope) hb).trans hr.scopes, houter, ?_, fun i u hu hm => ?_⟩
  · rw [hcurrent, hr.current, hbody, append_assoc]
    exact Perm.append_left _ perm_append_comm
  · obtain ⟨v, hv, hvs, hvp, hclosed⟩ : ∃ v, t.chains[i]? = some v ∧ v.scope = u.scope ∧
        v.place = (u.follow q.current.scope started.chain.index d.index).place ∧
        v.chain.closed = u.chain.closed := by
      rw [hc, perform_reopened hw hq, getElem?_modify, getElem?_map, hu]
      by_cases hi : key = i
      · subst hi
        rw [hw] at hu
        cases hu
        refine ⟨{ started.follow q.current.scope started.chain.index d.index with chain := d },
          by simp, scope_follow _ _ _ _, rfl, ?_⟩
        rw [hd]
      · exact ⟨u.follow q.current.scope started.chain.index d.index, by simp [hi],
          scope_follow _ _ _ _, rfl, by rw [chain_follow]⟩
    have hstand := ht.standing u (mem_of_getElem? hu)
    rcases mem_cons.1 hm with hown | hout
    · obtain ⟨-, -, branches, hget⟩ := hstand.1 hown
      refine ⟨v, branches, hv, hvs, hclosed, ⟨_, mem_cons_self, hown.symm, hget⟩,
        ⟨t.recording.current, mem_cons_self, ?_, ?_⟩⟩
      · rw [hcurrent, hscope, hvs, hown]
      · rw [hcurrent, hvp, hscope]
        exact (getElem?_follow hr hown hget).2
    · obtain ⟨block, hblock, hbs, branches, hget⟩ := Standing.block hstand.2 hout
      have hne : u.scope ≠ q.current.scope := fun he =>
        Nat.lt_irrefl _ (hscope ▸ he ▸ hn.nested.lt _ hout)
      refine ⟨v, branches, hv, hvs, hclosed, ⟨block, mem_cons_of_mem _ hblock, hbs, hget⟩,
        ⟨block, mem_cons_of_mem _ (houter ▸ hblock), hbs.trans hvs.symm, ?_⟩⟩
      rw [hvp, Started.follow, if_neg hne]
      exact hget

end Draft

open Draft Recording

/-- A call that starts or continues a chain fails: it is refused, or the block of its branch is
given up after any calls in it. -/
inductive Draft.Slip (s : Draft) : Call → Draft → Prop where
  | refused {key : Nat} {guard : Option Expr} {started : Started} {e : Refusal} {q : Recording} :
      s.chains[key]? = some started →
      s.recording.reopenWith started.chain guard = (.error e, q) →
      Slip s (.continuing key guard) (s.perform (.continuing key guard))
  | block {head : Opener} {regs : Registers} {c : Call} {p : Purpose} {t : Draft} :
      head.Calls regs s c p → Leads (Inside (s.perform c).purposes.length) (s.perform c) t →
      t.purposes = (s.perform c).purposes → Slip s c (t.perform .abandon)

section
variable {s t : Draft} {head : Opener} {regs : Registers} {c : Call} {p : Purpose}

/-! A block that is given up at once. -/

theorem Draft.abandon_branch (s : Draft) (x : Expr) : (s.perform (.branch x)).perform .abandon =
    { s with recording := { s.recording.checkOperand x with
      parents := s.recording.parents.push (some s.recording.current.scope) } } := rfl

theorem Draft.abandon_reopened {guard : Option Expr} (hw : s.chains[key]? = some started)
    (hq : s.recording.reopenWith started.chain guard = (.ok d, q)) :
    (s.perform (.continuing key guard)).perform .abandon =
      { s.perform (.continuing key guard) with
        recording := { q with parents := q.parents.push (some q.current.scope) }
        purposes := s.purposes } := by
  rw [perform_reopened hw hq]
  rfl

theorem Opener.Calls.unharmed (h : head.Calls regs s c p) (hn : s.Nests) (ht : s.Tracks) :
    s.Unharmed ((s.perform c).perform .abandon) := by
  cases h with
  | branch => exact unharmed_of_blocks ht rfl rfl
  | further _ _ hw hq =>
    rw [abandon_reopened hw hq]
    exact unharmed_reopened hn ht hw hq rfl rfl

theorem Opener.Calls.stays (h : head.Calls regs s c p) (hn : s.Nests) (hown : OwnBlock s c) :
    s.Stays ((s.perform c).perform .abandon) := by
  cases h with
  | branch => exact ⟨rfl, rfl, rfl, fun _ _ _ => Iff.rfl⟩
  | @further r cond key guard started d q _ _ hw hq =>
    obtain ⟨-, -, -, _, _, _, _, hr⟩ := reopened_of_reopenWith hq
    have hscope : started.scope = q.current.scope := (hown.scope_eq hw).trans hr.scope.symm
    rw [abandon_reopened hw hq, perform_reopened hw hq]
    refine ⟨rfl, hr.outer, hr.scope, fun i u hm => ?_⟩
    refine getElem?_followed (fun _ => rfl) hw hscope fun he => ?_
    exact Nat.lt_irrefl _ (hr.scope ▸ he ▸ hn.nested.lt _ hm)

theorem Opener.Calls.ownBlock (h : head.Calls regs s c p) (hf : Faithful s c) : OwnBlock s c := by
  refine hf.resolve_right fun hlen => ?_
  rw [h.purposes] at hlen
  exact Nat.succ_ne_self _ hlen

theorem Opener.Calls.aside (h : head.Calls regs s c p) (hc : s.Admits c) (hs : s.Holds)
    (hn : s.Nests) (ht : s.Tracks)
    (hl : Leads (Inside (s.perform c).purposes.length) (s.perform c) t)
    (hp : t.purposes = (s.perform c).purposes) :
    ((s.perform c).perform .abandon).Aside (t.perform .abandon) := by
  have hm := move_perform hs hc
  obtain ⟨block, outer, ho⟩ := (hm.nests hn).outer_eq h.purposes
  refine (hl.beneath (hm.holds hs) (hm.nests hn) (hm.tracks hn ht)).aside (hm.nests hn)
    h.purposes hp (hl.domain (hm.holds hs) ?_) (hl.chains_le (hm.holds hs))
  rw [ho]
  exact cons_ne_nil _ _

/-! A failure at any time. -/

namespace Draft.Slip

theorem leads (h : s.Slip c t) (hc : s.Admits c) : Leads Anything s t := by
  cases h with
  | refused => exact .call .refl hc trivial
  | block _ hl _ =>
    exact .call ((Leads.call .refl hc trivial).trans (hl.imp fun _ _ _ => trivial)) trivial trivial

/-- Right after the failure the open blocks, their statements and the branches of their chains
are those from before. -/
theorem unharmed (h : s.Slip c t) (hc : s.Admits c) (hs : s.Holds) (hn : s.Nests) (ht : s.Tracks) :
    s.Unharmed t := by
  cases h with
  | refused hw hq =>
    have hb := blocks_of_refused (congrArg Prod.fst hq)
    rw [hq] at hb
    rw [perform_continuing hw, hq]
    exact unharmed_of_blocks ht hb rfl
  | block hcalls hl hp => exact (hcalls.unharmed hn ht).aside (hcalls.aside hc hs hn ht hl hp)

theorem stays (h : s.Slip c t) (hc : s.Admits c) (hs : s.Holds) (hn : s.Nests) (ht : s.Tracks)
    (hown : Faithful s c) : s.Stays t := by
  cases h with
  | refused hw hq =>
    have hb := blocks_of_refused (congrArg Prod.fst hq)
    rw [hq] at hb
    obtain ⟨hcurrent, houter⟩ := List.cons.inj hb
    rw [perform_continuing hw, hq]
    exact ⟨rfl, houter, congrArg Block.scope hcurrent, fun _ _ _ => Iff.rfl⟩
  | block hcalls hl hp =>
    have haside := hcalls.aside hc hs hn ht hl hp
    refine (hcalls.stays hn (hcalls.ownBlock hown)).trans ⟨haside.purposes, haside.outer,
      by rw [haside.current], fun i u hm => haside.chains i u (mem_cons_of_mem _ hm)⟩

end Draft.Slip

end

end TensorKernel

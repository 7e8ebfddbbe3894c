import TensorKernel.Proofs.Direct.Took

/-! Which chains the registers of a block hold. A script that continues only the chains that
its text names as those of the block keeps to the block of each chain. -/
namespace TensorKernel

open Draft Registers List

variable {tolerant : Bool} {u : Started} {key : Nat} {c : Call} {result : Option String}
  {action : Action} {name : String} {s s' t : Draft} {regs' regs : Registers} {own : List String}

section
variable {given : Given → Option InputTensor} {regs regs' : Registers} {s s' : Draft}

theorem Took.append {a b : List Step} {middle : Registers} (h : Took given a regs s middle t)
    (h' : Took given b middle t regs' s') : Took given (a ++ b) regs s regs' s' := by
  induction h with
  | nil => exact h'
  | idle hi _ ih => exact .idle hi (ih h')
  | axis hp hx _ ih => exact .axis hp hx (ih h')
  | leaf hl hc _ ih => exact .leaf hl hc (ih h')
  | branch hx hc hbody _ _ ih => exact .branch hx hc hbody (ih h')
  | further ha hk hg hc hw hown hq hbody _ _ ih =>
    exact .further ha hk hg hc hw hown hq hbody (ih h')

theorem Leaf.isSome_item {item : Option Item} (h : Leaf given regs s action c item) :
    item.isSome = action.gives := by
  cases h <;> rfl

theorem lookup_bind {item : Option Item} (h : item.isSome = true → result ≠ some name) :
    (regs.bind result item).lookup name = regs.lookup name := by
  cases result with
  | none => rfl
  | some n =>
    cases item with
    | none => rfl
    | some i =>
      have hne : name ≠ n := fun he => h rfl (by rw [he])
      change lookup name ((n, i) :: regs) = _
      rw [lookup_cons, show (name == n) = false by simpa using hne]

theorem Took.lookup {steps : List Step} (h : Took given steps regs s regs' s')
    (hn : name ∉ boundIn steps) : regs'.lookup name = regs.lookup name := by
  induction h with
  | nil => rfl
  | idle _ _ ih =>
    rw [boundIn, mem_append, not_or] at hn
    exact ih hn.2
  | @axis result _ _ _ _ _ _ _ _ _ _ _ _ _ ih =>
    rw [boundIn, mem_append, not_or] at hn
    rw [ih hn.2]
    refine lookup_bind fun _ he => hn.1 ?_
    subst he
    simp [Step.bound, Action.gives]
  | @leaf result _ action _ _ _ _ _ _ item hl _ _ ih =>
    rw [boundIn, mem_append, not_or] at hn
    rw [ih hn.2]
    refine lookup_bind fun hi he => hn.1 ?_
    rw [hl.isSome_item] at hi
    subst he
    simp [Step.bound, hi]
  | @branch result _ _ body _ _ _ _ _ _ _ _ _ _ _ _ ihbody ih =>
    rw [boundIn, mem_append, not_or, Step.bound, mem_append, not_or, Action.inner] at hn
    rw [ih hn.2, lookup_bind, ihbody hn.1.2]
    intro _ he
    subst he
    exact hn.1.1 (by simp [Action.gives])
  | @further _ _ action _ _ _ _ _ _ _ _ _ _ _ _ _ _ _ ha _ _ _ _ _ _ _ _ ihbody ih =>
    rw [boundIn, mem_append, not_or, Step.bound, mem_append, not_or] at hn
    rw [ih hn.2]
    refine ihbody fun hm => hn.1.2 ?_
    cases action with
    | elif | otherwise =>
      cases ha
      rw [Action.inner]
      exact hm
    | _ => cases ha

end

namespace Draft

theorem Move.chain (h : Move s c t) (hu : s.chains[key]? = some u) :
    ∃ v, t.chains[key]? = some v ∧ v.scope = u.scope := by
  cases h with
  | edit _ hc => exact ⟨u, by rw [hc]; exact hu, rfl⟩
  | enter | abandon => exact ⟨u, hu, rfl⟩
  | resume =>
    refine ⟨_, by rw [getElem?_modify, getElem?_map, hu]; rfl, ?_⟩
    split <;> exact scope_follow _ _ _ _
  | @leave p =>
    cases p with
    | first cond =>
      exact ⟨u, (List.getElem?_append_left (List.getElem?_eq_some_iff.1 hu).1).trans hu, rfl⟩
    | further key' index guard =>
      obtain ⟨v, hv, hscope, -⟩ := exists_getElem?_complete hu
      exact ⟨v, hv, hscope⟩

theorem Leads.chain {rule : Draft → Call → Prop} (h : Leads rule s t) (hs : s.Holds)
    (hu : s.chains[key]? = some u) : ∃ v, t.chains[key]? = some v ∧ v.scope = u.scope := by
  refine h.invariant (P := fun t => ∃ v, t.chains[key]? = some v ∧ v.scope = u.scope) hs
    ⟨u, hu, rfl⟩ ?_
  rintro s c t - ⟨v, hv, hvs⟩ - hm
  obtain ⟨v', hv', hvs'⟩ := hm.chain hv
  exact ⟨v', hv', hvs'.trans hvs⟩

/-- The registers `own` hold chains of the innermost block. -/
def Owned (own : List String) (regs : Registers) (s : Draft) : Prop :=
  ∀ name ∈ own, ∃ key started, regs.lookup name = some (.chain key) ∧
    s.chains[key]? = some started ∧ started.scope = s.recording.current.scope

end Draft

theorem chain_of_branch {given : Given → Option InputTensor}
    (h : Took given [.mk (some name) tolerant action] regs s regs' s') (hs : s.Holds) (hn : s.Nests)
    (hb : action.isBranch = true) : ∃ key started, regs'.lookup name = some (.chain key) ∧
      s'.chains[key]? = some started ∧ started.scope = s'.recording.current.scope := by
  have hscope := (h.stays hs hn).scope
  cases action with
  | branch cond body =>
    cases h with
    | idle hi => cases hi
    | leaf hl => cases hl
    | further ha => cases ha
    | branch hx hc hbody hrest =>
      have hm := move_perform hs hc
      obtain ⟨-, -, c, hchains⟩ := leave_branch (hbody.stays (hm.holds hs) (hm.nests hn))
      cases hrest
      exact ⟨_, _, lookup_cons_self, by rw [hchains, getElem?_concat_length], hscope.symm⟩
  | _ => cases hb

theorem Step.mem_own :
    name ∈ Step.own own (.mk result tolerant action) ↔
      action.isBranch = true ∧ result = some name ∨
        name ∈ own ∧ name ∉ Step.bound (.mk result tolerant action) := by
  have hgives : action.isBranch = true → action.gives = true := by
    cases action with
    | branch => exact fun _ => rfl
    | _ => exact fun h => by cases h
  cases result with
  | none => simp [Step.own, Step.bound]
  | some n => grind [Step.own, Step.bound]

theorem Draft.Owned.later {rule : Draft → Call → Prop} (ho : Owned own regs s)
    (hl : Leads rule s s') (hs : s.Holds)
    (hscope : s'.recording.current.scope = s.recording.current.scope) : Owned own regs s' := by
  intro name hname
  obtain ⟨key, started, hlookup, hk, hown⟩ := ho name hname
  obtain ⟨v, hv, hvs⟩ := hl.chain hs hk
  exact ⟨key, v, hlookup, hv, by rw [hvs, hown, hscope]⟩

/-- What the text of an instruction says of the chains that the registers hold is true if it binds
no other registers than it says, and a new chain is one of the block. -/
theorem Draft.Owned.step {rule : Draft → Call → Prop} {tolerant : Bool} (ho : Owned own regs s)
    (hl : Leads rule s s') (hs : s.Holds)
    (hscope : s'.recording.current.scope = s.recording.current.scope)
    (hkeep : ∀ name ∉ Step.bound (.mk result tolerant action),
      regs'.lookup name = regs.lookup name)
    (hnew : action.isBranch = true → ∀ name, result = some name → ∃ key started,
      regs'.lookup name = some (.chain key) ∧ s'.chains[key]? = some started ∧
        started.scope = s'.recording.current.scope) :
    Owned (Step.own own (.mk result tolerant action)) regs' s' := by
  intro name hname
  rcases Step.mem_own.1 hname with ⟨hb, hr⟩ | ⟨hm, hout⟩
  · exact hnew hb name hr
  · obtain ⟨key, started, hlookup, hk, hown⟩ := ho.later hl hs hscope name hm
    exact ⟨key, started, (hkeep name hout).trans hlookup, hk, hown⟩

theorem Took.owned {given : Given → Option InputTensor}
    (h : Took given [.mk result tolerant action] regs s regs' s') (hs : s.Holds) (hn : s.Nests)
    (ho : Owned own regs s) : Owned (Step.own own (.mk result tolerant action)) regs' s' := by
  refine ho.step h.leads hs (h.stays hs hn).scope (fun name hout => h.lookup ?_) ?_
  · simpa only [boundIn, append_nil] using hout
  · rintro hb name rfl
    exact chain_of_branch h hs hn hb

end TensorKernel

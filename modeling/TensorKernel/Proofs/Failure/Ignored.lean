import TensorKernel.Proofs.Direct.Capture
import TensorKernel.Proofs.Failure.Context
import TensorKernel.Proofs.Failure.Track

/-! Failures that are ignored. A branch that fails leaves the open blocks and their chains as they
were, and if the script goes on without the handles that were made in it, the graph computes what
it computes without the branch. -/
namespace TensorKernel

open Run Draft Registers List

variable {C : Context} {R : Desk → Desk → Prop} {s : Draft} {steps : List Step} {regs : Registers}
  {tolerant : Bool} {o : Opened} {g : Graph} {n : Nat} {id : RecordingId} {d d₁ d' : Desk}
  {result : Option String} {head : Opener}

def Desk.boundSince (d d' : Desk) : List String :=
  (d'.registers.take (d'.registers.length - d.registers.length)).map Prod.fst

theorem runSteps_append (id : RecordingId) (a b : List Step) :
    runSteps id (a ++ b) = (do
      runSteps id a
      runSteps id b) := by
  induction a with
  | nil => simp [runSteps]
  | cons step rest ih => simp [runSteps, ih]

theorem runSteps_append_of_ok {a : List Step} (h : runSteps id a d = (.ok (), d')) (b : List Step) :
    runSteps id (a ++ b) d = runSteps id b d' := by
  rw [runSteps_append, run_bind, h]

theorem moves_enter [Steady R] (id : RecordingId) (head : Opener) : Moves R (head.enter id) := by
  cases head with
  | branch cond =>
    exact (moves_expr cond).bind fun x => (moves_onUnit id (by simp)).bind fun _ => moves_pure _
  | further r cond =>
    refine (moves_chainKey r).bind fun key => (moves_chain _ _).bind fun c => ?_
    refine Moves.bind ?_ fun x => (moves_on _ fun _ => Recording.header_reopenWith _ _ _).bind
      fun res => (moves_reopened res).bind fun c => (moves_setChain _ _ _).bind fun _ =>
        moves_pure _
    cases cond with
    | none => exact moves_pure _
    | some x => exact (moves_expr x).map

theorem runSteps_failed {action : Action} {e : Error}
    (h : runAction id action d = (.error (.failed e), d')) (result : Option String) :
    runSteps id [.mk result true action] d =
      (.ok (), { d' with events := .failed e :: d'.events }) := by
  have hattempt : attempt (runAction id action) d = (.ok (.error e), d') := by
    rw [attempt, h]
  rw [runSteps, run_bind, runStep, run_bind, hattempt]
  rfl

/-! What is run is logged, however that ends. -/

section
variable {id : RecordingId} {d d₁ d₂ : Desk}

theorem logged_step (result : Option String) (tolerant : Bool) (action : Action) :
    Logged (runAction id action d).2 (runStep id (.mk result tolerant action) d).2 := by
  rw [runStep, run_bind, attempt]
  rcases runAction id action d with ⟨(e | _ | _) | ⟨text, item⟩, d₁⟩
  · cases tolerant <;> exact suffix_cons ..
  · exact suffix_rfl
  · exact suffix_rfl
  · cases result <;> cases item <;> exact suffix_cons ..

theorem logged_inBlock {owner : RecordingId} (hopen : onUnit owner (·.openBlock) d = (.ok (), d₁))
    (body : Run Unit) : Logged (body d₁).2 (inBlock owner body d).2 := by
  have hattempt : (attempt body d₁).2 = (body d₁).2 := by
    rw [attempt]
    rcases body d₁ with ⟨(_ | _ | _) | _, _⟩ <;> rfl
  rw [inBlock, run_bind, hopen, ← hattempt]
  exact Moves.after (attempt body) (fun result => (moves_on _ (by simp)).bind fun stmts =>
    (moves_settle result).bind fun _ => moves_pure stmts) d₁

theorem logged_head (henter : head.enter id d = (.ok o, d₁))
    (hopen : onUnit (o.owner id) (·.openBlock) d₁ = (.ok (), d₂)) (body : List Step) :
    Logged (runSteps id body d₂).2 (runAction id (head.action body) d).2 := by
  have hexit : Logged (inBlock (o.owner id) (runSteps id body) d₁).2
      ((do
        let stmts ← inBlock (o.owner id) (runSteps id body)
        o.exit id stmts) d₁).2 :=
    Moves.after _ (fun stmts => moves_exit id stmts o) d₁
  rw [runAction_head, run_bind, henter]
  exact (logged_inBlock hopen _).trans hexit

end

theorem block_ok {d₂ : Desk} (henter : head.enter id d = (.ok o, d₁))
    (hopen : onUnit (o.owner id) (·.openBlock) d₁ = (.ok (), d₂))
    (hstep : runStep id (.mk result tolerant (head.action steps)) d = (.ok (), d'))
    (hn : n ≤ (runSteps id steps d₂).2.events.length) (hdone : d'.DoneSince n) :
    ∃ text item d₃ d₄ d₅ stmts, runSteps id steps d₂ = (.ok (), d₄) ∧
      on (o.owner id) (·.closeBlock) d₄ = (.ok stmts, d₅) ∧
      o.exit id stmts d₅ = (.ok (text, item), d₃) ∧
      d' = { d₃ with
        registers := d₃.registers.bind result item, events := .done text :: d₃.events } ∧
      n ≤ d₃.events.length ∧ d₄.DoneSince n := by
  have hle := Nat.le_trans hn (logged_head henter hopen steps).length_le
  rcases runStep_cases hstep with
    ⟨text, item, d₃, hact, -, rfl⟩ | ⟨e, d₃, hact, -, rfl⟩ | ⟨i, hi, -⟩
  · rw [hact] at hle
    obtain ⟨o', e₁, e₂, d₄, d₅, stmts, henter', hopen', hbody, hclose, hexit⟩ := head_ok hact
    rw [henter] at henter'
    cases henter'
    rw [hopen] at hopen'
    cases hopen'
    obtain ⟨-, hdone₃⟩ := hdone.of_cons hle
    exact ⟨text, item, d₃, d₄, d₅, stmts, hbody, hclose, hexit, rfl, hle,
      (moves_on _ (by simp)).doneSince hclose ((moves_exit id stmts o).doneSince hexit hdone₃)⟩
  · rw [hact] at hle
    obtain ⟨hfailed, -⟩ := hdone.of_cons hle
    cases hfailed
  · cases hi

namespace Context

def approach (id : RecordingId) : Context → Run Unit
  | here before _ => runSteps id before
  | inside before _ _ head inner _ => do
    runSteps id before
    let o ← head.enter id
    onUnit (o.owner id) (·.openBlock)
    inner.approach id

theorem approach_inside {before after : List Step} {inner : Context}
    (h : (inside before result tolerant head inner after).approach id d = (.ok (), d₁)) :
    ∃ a o a₁ a₂, runSteps id before d = (.ok (), a) ∧ head.enter id a = (.ok o, a₁) ∧
      onUnit (o.owner id) (·.openBlock) a₁ = (.ok (), a₂) ∧
      inner.approach id a₂ = (.ok (), d₁) := by
  rw [approach] at h
  obtain ⟨_, a, hbefore, h⟩ := bind_ok.1 h
  obtain ⟨o, a₁, henter, h⟩ := bind_ok.1 h
  obtain ⟨_, a₂, hopen, h⟩ := bind_ok.1 h
  exact ⟨a, o, a₁, a₂, hbefore, henter, hopen, h⟩

theorem logged_fill (h : C.approach id d = (.ok (), d₁)) (hole : List Step) :
    Logged (runSteps id hole d₁).2 (runSteps id (C.fill hole) d).2 := by
  have hafter (x : Run Unit) (after : List Step) (d : Desk) : Logged (x d).2 ((do
      x
      runSteps id after) d).2 :=
    Moves.after x (fun _ => moves_runSteps id after) d
  induction C generalizing d with
  | here before after =>
    have hbefore : runSteps id before d = (.ok (), d₁) := h
    rw [fill, runSteps_append_of_ok hbefore, runSteps_append]
    exact hafter (runSteps id hole) after d₁
  | inside before result tolerant head inner after ih =>
    obtain ⟨a, o, a₁, a₂, hbefore, henter, hopen, hinner⟩ := approach_inside h
    rw [fill, runSteps_append_of_ok hbefore, singleton_append, runSteps]
    exact (ih hinner).trans ((logged_head henter hopen _).trans
      ((logged_step result tolerant _).trans (hafter _ after a)))

theorem tracked {given : Given → Option InputTensor} (h : C.approach id d = (.ok (), d₁))
    (hm : Mirrors given d s) (hs : s.Holds) (hn : s.Nests) (ht : s.Tracks) :
    ∃ s₁, Mirrors given d₁ s₁ ∧ Leads Anything s s₁ := by
  induction C generalizing d s with
  | here before after =>
    obtain ⟨s₁, htracked⟩ := pursuedAll given id before d d₁ s _ h trivial hm hs hn ht
    exact ⟨s₁, htracked.mirrors, htracked.leads.imp fun _ _ _ => trivial⟩
  | inside before result tolerant head inner after ih =>
    obtain ⟨a, o, a₁, a₂, hbefore, henter, hopen, hinner⟩ := approach_inside h
    obtain ⟨t, htracked⟩ := pursuedAll given id before d a s _ hbefore trivial hm hs hn ht
    have hl := htracked.leads
    obtain ⟨c, p, -, hc, -, hin, -⟩ := htracked.mirrors.enter (hl.holds hs) henter hopen
    have hmove := move_perform (hl.holds hs) hc
    obtain ⟨s₁, hm₁, hl₁⟩ := ih hinner hin (hmove.holds (hl.holds hs))
      (hmove.nests (hl.nests hs hn)) (hmove.tracks (hl.nests hs hn) (hl.tracks hs hn ht))
    exact ⟨s₁, hm₁, ((hl.imp fun _ _ _ => trivial).trans (.call .refl hc trivial)).trans hl₁⟩

theorem moves_approach [Steady R] (id : RecordingId) :
    (C : Context) → Moves R (C.approach id)
  | here before _ => moves_runSteps id before
  | inside before _ _ head inner _ =>
    (moves_runSteps id before).bind fun _ => (moves_enter id head).bind fun o =>
      (moves_onUnit _ (by simp)).bind fun _ => inner.moves_approach id

end Context

section
variable {given : Given → Option InputTensor} {id : RecordingId}

/-- The draft follows the steps after the hole, where registers of `T` may hold something else than
they do for the draft. -/
theorem recorded_aside {own T : List String} (hst : structured own steps = true)
    (hT : avoids T steps = true) (hrun : runSteps id steps d = (.ok (), d'))
    (hn : n ≤ d.events.length) (hdone : d'.DoneSince n) (hm : Mirrors given d s) (hs : s.Settled)
    (hab : Agree T d.registers regs) (ho : Owned own regs s) :
    ∃ regs' s', Mirrors given d' s' ∧ Took given steps regs s regs' s' ∧
      Agree (shed T (boundIn steps)) d'.registers regs' := by
  have hkept := structured_of_avoids hst hT fun name hm hn => mem_shed.2 ⟨hm, hn⟩
  obtain ⟨s', hm', htook⟩ := recorded given id n steps _ d d' s hkept hrun hn hdone hm
    hs.orderly.holds hs.orderly.nests (ho.agree hab.symm)
  obtain ⟨regs', htook', hagree⟩ := htook.restore hab hT
  exact ⟨regs', s', hm', htook', hagree⟩

variable {head : Opener} {body : List Step} {e : Error} {d₁ d₂ : Desk}
  (hfail : runAction id (head.action body) d₁ = (.error (.failed e), d₂))
include hfail

theorem events_fill (h : C.approach id d = (.ok (), d₁)) (result : Option String) :
    d₂.events.length + 1 ≤
      (runSteps id (C.fill [.mk result true (head.action body)]) d).2.events.length := by
  have hlogged := Context.logged_fill h [.mk result true (head.action body)]
  rw [runSteps_failed hfail result] at hlogged
  exact hlogged.length_le

theorem past_of_run {own : List String} (hst : structured own (C.fill []) = true)
    (hhead : (head.enter id d₁).1.isOk = true → head.isOwn (C.own own) = true)
    (happroach : C.approach id d = (.ok (), d₁))
    (hrun : runSteps id (C.fill [.mk result true (head.action body)]) d = (.ok (), d'))
    (hbefore : d₁.AllDone) (hafter : d'.DoneSince (d₂.events.length + 1))
    (hT : C.avoids (d₁.boundSince d₂) = true) (hm : Mirrors given d s) (hs : s.Settled)
    (ho : Owned own d.registers s) :
    ∃ c s₁ s₂ regs' s', s₁.Admits c ∧ Faithful s₁ c ∧ s₁.Slip c s₂ ∧
      Past given s₁ s₂ C d.registers s regs' s' ∧ Mirrors given d' s' ∧
      Agree (C.left (d₁.boundSince d₂)) d'.registers regs' := by
  induction C generalizing own d d' s with
  | here before after =>
    rw [Context.fill, nil_append, structured_append, Bool.and_eq_true] at hst
    obtain ⟨hstbefore, hstafter⟩ := hst
    have happroach : runSteps id before d = (.ok (), d₁) := happroach
    rw [Context.fill, runSteps_append_of_ok happroach,
      runSteps_append_of_ok (runSteps_failed hfail result)] at hrun
    obtain ⟨s₁, hm₁, htook⟩ := recorded given id 0 before own d d₁ s hstbefore happroach
      (Nat.zero_le _) (hbefore.since 0) hm hs.orderly.holds hs.orderly.nests ho
    have hs₁ := htook.leads.settled hs
    have ho₁ := hs₁.orderly
    obtain ⟨c, s₂, hasks, hc, hslip, htracked, hentered⟩ := hm₁.slip ho₁.holds ho₁.nests ho₁.tracks
      (pursuedAll given id body) hfail
    have howned := htook.ownedAfter hs.orderly.holds hs.orderly.nests ho
    have hown : Faithful s₁ c := hentered.imp (fun hok => howned.ownBlock hasks (hhead hok))
      (congrArg List.length)
    have hscope := (hslip.stays hc ho₁.holds ho₁.nests ho₁.tracks hown).scope
    obtain ⟨regs', s', hm', htook', hagree⟩ := recorded_aside hstafter hT hrun (Nat.le_refl _)
      hafter (htracked.log _).mirrors (hslip.settled hc hown hs₁)
      (Agree.of_suffix htracked.registers) (howned.later (hslip.leads hc) ho₁.holds hscope)
    exact ⟨c, s₁, s₂, regs', s', hc, hown, hslip, .here htook htook', hm', hagree⟩
  | inside before name tolerant outer inner after ih =>
    simp only [Context.fill, structured_append, Bool.and_eq_true] at hst
    obtain ⟨hstbefore, hstep, hstafter⟩ := hst
    simp only [structured, Step.structured, outer.structured_action, Bool.and_true,
      Bool.and_eq_true] at hstep
    rw [Context.avoids, Bool.and_eq_true] at hT
    obtain ⟨a, o, a₁, a₂, hfirst, henter, hopen, happroach⟩ := Context.approach_inside happroach
    rw [Context.fill, runSteps_append_of_ok hfirst, singleton_append, runSteps] at hrun
    obtain ⟨_, b, hrunstep, hrest⟩ := bind_ok.1 hrun
    have hdone : a.AllDone := (moves_enter id outer).allDone henter <|
      (moves_onUnit _ (by simp)).allDone hopen ((Context.moves_approach id inner).allDone happroach
        hbefore)
    obtain ⟨t, hmt, htook⟩ := recorded given id 0 before own d a s hstbefore hfirst
      (Nat.zero_le _) (hdone.since 0) hm hs.orderly.holds hs.orderly.nests ho
    have ht := htook.leads.settled hs
    have howned := htook.ownedAfter hs.orderly.holds hs.orderly.nests ho
    obtain ⟨c', p, hcalls, hc', hserves, hin, hregs, -⟩ := hmt.enter ht.orderly.holds henter hopen
    have hown' := howned.ownBlock hcalls.asks hstep.1
    have hsettled := (Leads.call .refl hc' hown').settled ht
    obtain ⟨text, item, b₁, b₂, b₃, stmts, hbody, hclose, hexit, rfl, hle, hdone₂⟩ :=
      block_ok henter hopen hrunstep (events_fill hfail happroach result)
        ((moves_runSteps id after).doneSince hrest hafter)
    obtain ⟨c, s₁, s₂, last, u, hc, hown, hslip, hpast, hmu, hagree⟩ := ih hstep.2 hhead happroach
      hbody hdone₂ hT.1 hin hsettled (fun _ hname => absurd hname not_mem_nil)
    rw [hregs] at hpast
    have hu := hpast.leads_after.settled (hpast.settled_hole hslip hc hown hsettled).2
    obtain ⟨hmleave, hregs', hitem⟩ := hmu.exit_of_stays hu.orderly.holds hcalls hown'
      (hpast.stays hslip hc hown hsettled) hserves hclose hexit
    obtain rfl : item = p.item u := hitem
    have hab := hagree.bind name (p.item u)
    rw [hcalls.binds, ← hregs'] at hab
    obtain ⟨regs', s', hm', htook', hagree'⟩ := recorded_aside hstafter hT.2 hrest
      (Nat.le_succ_of_le hle) hafter (hmleave.bind name (fun i hi => Purpose.held_item hi _) _)
      ((leads_leave u).settled hu) hab
      (hpast.owned_leave hslip hc hown ht hcalls hc' hown' howned name tolerant)
    exact ⟨c, s₁, s₂, regs', s', hc, hown, hslip,
      .inside htook hcalls hc' hown' hpast htook', hm', hagree'⟩

end

namespace View

variable {V : View} {G : Gap} {r : Recording} {returns : List Register}
  {returned : List OutputTensor} {w : World}

theorem Concludes.of_spread (h : V.Concludes r returns returned (w.spread G))
    (hG : G.types.items = []) : V.Concludes r returns returned w := by
  have houtput : (w.spread G).output? = w.output? := by
    funext x
    rw [World.output?_spread]
    cases w.output? x with
    | none => rfl
    | some t => simp [Insertion.shift_of_nil hG]
  refine ⟨houtput ▸ h.returned, ?_, h.domain, h.outputs⟩
  rw [← h.types]
  exact (Insertion.into_of_nil hG _).symm

theorem Concludes.items_eq_nil (h : V.Concludes r returns returned (w.spread G))
    (hfit : G.Fits w) (hall : ∀ k < r.outputs.length, k ∈ returned.map OutputTensor.index) :
    G.types.items = [] := by
  by_contra hne
  have hpos : 0 < G.types.items.length := length_pos_iff.2 hne
  have hlt : G.types.place < r.outputs.length := by
    have hlen : (w.spread G).types.length = w.types.length + G.types.items.length :=
      Insertion.length_into_eq hfit.types
    have hplace := hfit.types
    rw [← h.types, hlen]
    omega
  obtain ⟨t, ht, hindex⟩ := mem_map.1 (hall _ hlt)
  obtain ⟨x, -, hx⟩ := exists_of_mem_mapM h.returned (mem_map_of_mem ht)
  rw [World.output?_spread] at hx
  obtain ⟨out, -, hout⟩ := Option.map_eq_some_iff.1 hx
  exact Insertion.shift_ne hpos ((congrArg Prod.fst hout).trans hindex)

end View

theorem Past.interpret {given : Given → Option InputTensor} {name : String}
    {types : List TensorType} {returns : List Register} {s₁ s₂ : Draft} {c : Call}
    {returned : List OutputTensor} {count : Nat} (h : Past given s₁ s₂ C [] (start id types) regs s)
    (hslip : s₁.Slip c s₂) (hc : s₁.Admits c) (hown : Faithful s₁ c)
    (hret : returns.mapM (Registers.output? regs) = some returned)
    (howns : ∀ t ∈ returned, s.recording.OwnsOutput t) (hfin : s.recording.Finished name returned g)
    (inputs : Array Buffer) (hσ : ∀ position, Site.Faces ⟨types, count, inputs, position⟩
      ⟨s.recording.declared name g.domain, inputs, position⟩ given) :
    Script.interpret ⟨C.fill [], returns⟩ types count inputs = some (g.run inputs) := by
  have hwalk (active : Bool) (outputs : Array Buffer) (position : List Nat)
      (ha : active = true → (s₁.gap s₂).types.items = []) :
      ∃ w, Site.walk ⟨types, count, inputs, position⟩ active (.start outputs) (C.fill []) = some w ∧
        (s₁.gap s₂).Fits w ∧
        (View.whole ⟨s.recording.declared name g.domain, inputs, position⟩ active outputs).Concludes
          s.recording returns returned (w.spread (s₁.gap s₂)) := by
    obtain ⟨w, hw, hfit, hm, -⟩ := h.walk hslip hc hown (settled_start id types) hfin.error
      (s.recording.fits_declared name g.domain inputs position) (hσ position) _ _ rfl ha
      (World.ranged_start outputs) (View.matches_start _ active outputs id types)
    exact ⟨w, hw, hfit, hm.agrees.concludes hret⟩
  -- In a first walk nothing runs, which shows that the branch has declared no output.
  obtain ⟨plan, -, hfit, hends⟩ := hwalk false #[] [] fun hactive => by cases hactive
  have hnone := hends.items_eq_nil hfit hfin.all
  refine interpret_of_walks hfin howns fun active outputs position => ?_
  obtain ⟨w, hw, -, hends⟩ := hwalk active outputs position fun _ => hnone
  exact ⟨w, hw, hends.of_spread hnone⟩

def Script.graph (s : Script) (id : RecordingId) (name : String) : Run Graph := do
  let outputs ← s.run id
  finishHome name outputs

theorem interpret_without {body : List Step} {types : List TensorType} {count : Nat} {e : Error}
    {d₂ : Desk} {returns : List Register} {name : String}
    (happroach : C.approach id (Desk.start id types count none) = (.ok (), d₁))
    (hfail : runAction id (head.action body) d₁ = (.error (.failed e), d₂))
    (hst : structured [] (C.fill []) = true)
    (hhead : (head.enter id d₁).1.isOk = true → head.isOwn (C.own []) = true)
    (hT : C.avoids (d₁.boundSince d₂) = true)
    (hreturns : ∀ x ∈ returns, x.name ∉ C.left (d₁.boundSince d₂)) (hbefore : d₁.AllDone)
    (hrun : Script.graph ⟨C.fill [.mk result true (head.action body)], returns⟩ id name
      (Desk.start id types count none) = (.ok g, d)) (hafter : d.DoneSince (d₂.events.length + 1))
    (inputs : Array Buffer) :
    Script.interpret ⟨C.fill [], returns⟩ types count inputs = some (g.run inputs) := by
  obtain ⟨returned, d', hsteps, houtputs, hfinish⟩ := graph_ok hrun
  have hdone := (Moves.mapM moves_outputTensor returns).doneSince houtputs hafter
  have hstart := settled_start id types
  obtain ⟨c, s₁, s₂, regs, s, hc, hown, hslip, hpast, hm, hagree⟩ := past_of_run hfail hst hhead
    happroach hsteps hbefore hdone hT (mirrors_start id types count) hstart
    (fun _ hname => absurd hname not_mem_nil)
  have hholds := (hpast.leads hslip hc).holds hstart.orderly.holds
  obtain ⟨hret, howns, hfin⟩ := hm.finished hholds houtputs hfinish
  exact hpast.interpret hslip hc hown (hagree.returned hreturns ▸ hret) howns hfin inputs
    fun position => ⟨rfl, rfl, fun t tensor h => (given?_start id types count h).2 inputs position⟩

/-- Right after the failure the open blocks are those from before, and every chain has the branches
that it had. If all else goes well, with the call and without it, the two graphs compute the
same. -/
theorem failed_branch_has_no_effect {C : Context} {head : Opener} {body : List Step}
    {id : RecordingId} {types : List TensorType} {count : Nat} {e : Error} {d₁ d₂ : Desk}
    (happroach : C.approach id (Desk.start id types count none) = (.ok (), d₁))
    (hfail : runAction id (head.action body) d₁ = (.error (.failed e), d₂)) :
    (d₂.home.scopes = d₁.home.scopes ∧ d₂.home.outer = d₁.home.outer ∧
        d₂.home.current.body.Perm d₁.home.current.body) ∧
      (∃ s₁ s₂, Reachable id types s₁ ∧ Leads Anything s₁ s₂ ∧
        Mirrors (Desk.start id types count none).given? d₁ s₁ ∧
        Mirrors (Desk.start id types count none).given? d₂ s₂ ∧ s₁.Unharmed s₂) ∧
      ∀ result returns name g g' d d', structured [] (C.fill []) = true →
        ((head.enter id d₁).1.isOk = true → head.isOwn (C.own []) = true) →
        C.avoids (d₁.boundSince d₂) = true →
        (∀ x ∈ returns, x.name ∉ C.left (d₁.boundSince d₂)) → d₁.AllDone →
        Script.graph ⟨C.fill [.mk result true (head.action body)], returns⟩ id name
          (Desk.start id types count none) = (.ok g, d) →
        d.DoneSince (d₂.events.length + 1) →
        Script.graph ⟨C.fill [], returns⟩ id name (Desk.start id types count none) = (.ok g', d') →
        d'.AllDone → ∀ inputs, g.run inputs = g'.run inputs := by
  have hstart := (settled_start id types).orderly
  obtain ⟨s₁, hm₁, hl⟩ := Context.tracked happroach (mirrors_start id types count) hstart.holds
    hstart.nests hstart.tracks
  have hs₁ := hl.holds hstart.holds
  have hn₁ := hl.nests hstart.holds hstart.nests
  have ht₁ := hl.tracks hstart.holds hstart.nests hstart.tracks
  obtain ⟨c, s₂, -, hc, hslip, htracked, -⟩ := hm₁.slip hs₁ hn₁ ht₁ (pursuedAll _ id body) hfail
  have hunharmed := hslip.unharmed hc hs₁ hn₁ ht₁
  refine ⟨?_, ⟨s₁, s₂, hl, hslip.leads hc, hm₁, htracked.mirrors, hunharmed⟩, ?_⟩
  · rw [hm₁.home, htracked.mirrors.home]
    exact ⟨hunharmed.scopes, hunharmed.outer, hunharmed.body⟩
  · intro result returns name g g' d d' hst hhead hT hreturns hbefore hrun hafter hrun' hdone'
      inputs
    have hwith := interpret_without happroach hfail hst hhead hT hreturns hbefore hrun hafter inputs
    have hwithout := interpret_of_run hrun' hdone' hst inputs
    exact Option.some.inj (hwith.symm.trans hwithout)

/-- In the branch for positive elements a chain looks at their size. -/
def sizeOfPositive : Context :=
  let register (name : String) : Register := ⟨false, name⟩
  let value (name : String) : Argument := .register (register name)
  let make (name : String) (action : Action) : Step := .mk (some name) false action
  let change (action : Action) : Step := .mk none false action
  let set (size : Int64) : List Step := [change (.assign (register "size") (.literal (.int size)))]
  .inside
    [make "out" (.outputLike (.given (.input 0))),
      make "at" (.positionIn ⟨[3]⟩),
      make "x" (.element (.input 0) (.position (register "at"))),
      make "positive" (.binary .gt (value "x") (.literal (.int 0))),
      make "size" (.declare (.literal (.int 0)) .i64)]
    (some "sign") false (.branch (register "positive"))
    (.here
      [make "large" (.binary .gt (value "x") (.literal (.int 8))),
        make "sizes" (.branch (register "large") (set 3)),
        make "small" (.binary .lt (value "x") (.literal (.int 4)))]
      [change (.elif (register "sizes") (register "small") (set 1)),
        change (.otherwise (register "sizes") (set 2))])
    [make "now" (.get (register "size")),
      change (.store (register "out") (.position (register "at")) (value "now"))]

/-- A further branch of the chain that gives up in a branch of its own. -/
def givesUp : Opener × List Step :=
  let register (name : String) : Register := ⟨false, name⟩
  (.further (register "sizes") (some (register "small")),
    [.mk (some "other") false (.declare (.literal (.int 7)) .i64),
      .mk (some "now") false (.get (register "size")),
      .mk (some "inner") false (.branch (register "small")
        [.mk none false (.assign (register "size") (.register (register "now"))),
          .mk none false (.ensure false "no")])])

theorem failed_of_attempt {α : Type} {x : Run α} (h : (x d).1.isOk = false)
    (ha : (attempt x d).1.isOk = true) : ∃ e, x d = (.error (.failed e), (x d).2) := by
  rw [attempt] at ha
  rcases hx : x d with ⟨(e | _ | _) | _, d'⟩ <;> rw [hx] at h ha
  · exact ⟨e, rfl⟩
  · cases ha
  · cases ha
  · cases h

theorem failed_branch_has_no_effect_size :
    let start := Desk.start homeId [⟨⟨[3]⟩, .i64⟩] 1 none
    let returns : List Register := [⟨false, "out"⟩]
    let tried := Script.graph
      ⟨sizeOfPositive.fill [.mk none true (givesUp.1.action givesUp.2)], returns⟩ homeId "size"
    let plain := Script.graph ⟨sizeOfPositive.fill [], returns⟩ homeId "size"
    let x : Buffer := #[.int 9, .int 2, .int (-5)]
    ∃ d₁ d₂ e g d g' d', sizeOfPositive.approach homeId start = (.ok (), d₁) ∧
      runAction homeId (givesUp.1.action givesUp.2) d₁ = (.error (.failed e), d₂) ∧
      d₁.boundSince d₂ = ["now", "other"] ∧ d₂.home.scopes = d₁.home.scopes ∧
      tried start = (.ok g, d) ∧ plain start = (.ok g', d') ∧ g'.nodes.size < g.nodes.size ∧
      g.run #[x] = g'.run #[x] ∧ g.run #[x] = #[#[.int 3, .int 1, .int 0]] := by
  intro start returns tried plain x
  have hruns : (sizeOfPositive.approach homeId start).1.isOk = true ∧
      (let d₁ := (sizeOfPositive.approach homeId start).2
      let failing := runAction homeId (givesUp.1.action givesUp.2)
      let d₂ := (failing d₁).2
      (failing d₁).1.isOk = false ∧ (attempt failing d₁).1.isOk = true ∧
        (d₁.boundSince d₂ = ["now", "other"] ∧ sizeOfPositive.avoids (d₁.boundSince d₂) = true ∧
          ∀ x ∈ returns, x.name ∉ sizeOfPositive.left (d₁.boundSince d₂)) ∧
        d₁.AllDone ∧ (tried start).2.DoneSince (d₂.events.length + 1) ∧
        (plain start).2.AllDone) := by
    decide +kernel
  have hgraphs : (tried start).1.toOption.map (fun g => (g.nodes.size, g.run #[x])) =
        some (15, #[#[.int 3, .int 1, .int 0]]) ∧
      (plain start).1.toOption.map (fun g => g.nodes.size) = some 13 := by
    decide +kernel
  rcases happroach : sizeOfPositive.approach homeId start with ⟨_ | ⟨⟩, d₁⟩
  · rw [happroach] at hruns
    cases hruns.1
  rw [happroach] at hruns
  obtain ⟨-, hnot, hfailed, ⟨hnames, havoids, hleft⟩, hbefore, hafter, hdone⟩ := hruns
  obtain ⟨e, hfail⟩ := failed_of_attempt hnot hfailed
  rcases hg : tried start with ⟨_ | g, d⟩
  · rw [hg] at hgraphs
    cases hgraphs.1
  rcases hg' : plain start with ⟨_ | g', d'⟩
  · rw [hg'] at hgraphs
    cases hgraphs.2
  rw [hg] at hgraphs hafter
  rw [hg'] at hgraphs hdone
  obtain ⟨hsize, hvalue⟩ := Prod.mk.inj (Option.some.inj hgraphs.1)
  have hsize' : g'.nodes.size = 13 := Option.some.inj hgraphs.2
  obtain ⟨⟨hscopes, -⟩, -, hsame⟩ := failed_branch_has_no_effect happroach hfail
  refine ⟨d₁, _, e, g, d, g', d', rfl, hfail, hnames, hscopes, rfl, rfl, ?_, ?_, hvalue⟩
  · rw [hsize, hsize']
    decide
  · exact hsame none returns "size" g g' d d' (by decide +kernel) (fun _ => by decide +kernel)
      havoids hleft hbefore hg hafter hg' hdone #[x]

end TensorKernel

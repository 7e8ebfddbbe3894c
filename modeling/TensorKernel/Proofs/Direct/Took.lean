import TensorKernel.Proofs.Draft.Scoping
import TensorKernel.Proofs.Direct.Basic

/-! What a script does to a draft. Where no instruction fails, each one is a call, or a
block with the calls around it, and the registers hold the handles that the calls give. -/
namespace TensorKernel

variable {started : Started} {key : Nat} {c : Call} {x : Expr} {q : Recording} {s t : Draft}
  {guard : Option Expr}

namespace Registers

def item? (regs : Registers) (r : Register) : Option Item :=
  if r.guest then none else regs.lookup r.name

def expr? (regs : Registers) (r : Register) : Option Expr :=
  match item? regs r with
  | some (.expr x) => some x
  | _ => none

def position? (regs : Registers) (r : Register) : Option Position :=
  match item? regs r with
  | some (.position p) => some p
  | _ => none

def output? (regs : Registers) (r : Register) : Option OutputTensor :=
  match item? regs r with
  | some (.output t) => some t
  | _ => none

def slot? (regs : Registers) (r : Register) : Option Variable :=
  match item? regs r with
  | some (.slot v) => some v
  | _ => none

def chain? (regs : Registers) (r : Register) : Option Nat :=
  match item? regs r with
  | some (.chain key) => some key
  | _ => none

def operand? (regs : Registers) : Argument → Option Operand
  | .literal v => some (.literal v)
  | .register r => (expr? regs r).map .expr

def subscript? (regs : Registers) : Subscript → Option (List Operand)
  | .position r => (position? regs r).map Position.operands
  | .indices args => args.mapM (operand? regs)

def guard? (regs : Registers) : Option Register → Option (Option Expr)
  | none => some none
  | some r => (expr? regs r).map some

def bind (regs : Registers) : Option String → Option Item → Registers
  | some name, some i => (name, i) :: regs
  | _, _ => regs

end Registers

open Registers

namespace Action

def isIdle : Action → Bool
  | .inspect _ | .describe | .ensure true _ => true
  | _ => false

/-- A further branch of a chain: the register of the chain, of the guard if there is one,
and the body. -/
def continuation? : Action → Option (Register × Option Register × List Step)
  | .elif chain cond body => some (chain, some cond, body)
  | .otherwise chain body => some (chain, none, body)
  | _ => none

end Action

section
variable (given : Given → Option InputTensor)

def modelType? (regs : Registers) : Model → Option TensorType
  | .given t => (given t).map InputTensor.type
  | .output r => (output? regs r).map OutputTensor.type
  | .type t => some t

/-- Instructions that are one call, and what that call gives. -/
inductive Leaf (regs : Registers) (s : Draft) : Action → Call → Option Item → Prop where
  | element {t : Given} {place : Subscript} {tensor : InputTensor} {os : List Operand} :
      given t = some tensor → subscript? regs place = some os →
      Leaf regs s (.element t place) (.element tensor os)
        (some (.expr (s.recording.element tensor os).1))
  | constant (v : Literal) (type : ElementType) :
      Leaf regs s (.constant v type) (.constant v type)
        (some (.expr (s.recording.constant v type).1))
  | unary {op : UnaryOp} {arg : Register} {x : Expr} : expr? regs arg = some x →
      Leaf regs s (.unary op arg) (.unary op x) (some (.expr (s.recording.unary op x).1))
  | binary {op : BinaryOp} {lhs : Register} {rhs : Argument} {x : Expr} {o : Operand} :
      expr? regs lhs = some x → operand? regs rhs = some o →
      Leaf regs s (.binary op (.register lhs) rhs) (.binary op x o)
        (some (.expr (s.recording.binaryWith op x o).1))
  | binaryFrom {op : BinaryOp} {v : Literal} {rhs : Register} {y : Expr} :
      expr? regs rhs = some y →
      Leaf regs s (.binary op (.literal v) (.register rhs)) (.binaryFrom op v y)
        (some (.expr (s.recording.binaryFrom op v y).1))
  | cast {arg : Register} {type : ElementType} {x : Expr} : expr? regs arg = some x →
      Leaf regs s (.cast arg type) (.cast x type) (some (.expr (s.recording.cast x type).1))
  | output {type : TensorType} {p : OutputTensor × Recording} :
      s.recording.output type = .ok p →
      Leaf regs s (.output type) (.output type) (some (.output p.1))
  | outputLike {m : Model} {type : TensorType} : modelType? given regs m = some type →
      Leaf regs s (.outputLike m) (.outputLike type)
        (some (.output (s.recording.outputLike type).1))
  | positionIn {shape : Shape} {p : Position × Recording} :
      s.recording.positionIn shape = .ok p →
      Leaf regs s (.positionIn shape) (.positionIn shape) (some (.position p.1))
  | declare {init : Argument} {type : ElementType} {o : Operand} : operand? regs init = some o →
      Leaf regs s (.declare init type) (.declare o type)
        (some (.slot (s.recording.declare o type).1))
  | get {r : Register} {v : Variable} : slot? regs r = some v →
      Leaf regs s (.get r) (.get v) (some (.expr (s.recording.get v).1))
  | assign {r : Register} {value : Argument} {v : Variable} {o : Operand} :
      slot? regs r = some v → operand? regs value = some o →
      Leaf regs s (.assign r value) (.assign v o) none
  | update {r : Register} {op : BinaryOp} {value : Argument} {v : Variable} {o : Operand} :
      slot? regs r = some v → operand? regs value = some o →
      Leaf regs s (.update r op value) (.update v op o) none
  | store {r : Register} {place : Subscript} {value : Argument} {t : OutputTensor}
      {os : List Operand} {o : Operand} : output? regs r = some t →
      subscript? regs place = some os → operand? regs value = some o →
      Leaf regs s (.store r place value) (.store t os o) none

/-- A list of instructions leads from registers and a draft to others. -/
inductive Took : List Step → Registers → Draft → Registers → Draft → Prop where
  | nil {regs : Registers} {s : Draft} : Took [] regs s regs s
  | idle {result : Option String} {tolerant : Bool} {action : Action} {rest : List Step}
      {regs regs' : Registers} {s s' : Draft} : action.isIdle = true → Took rest regs s regs' s' →
      Took (.mk result tolerant action :: rest) regs s regs' s'
  | axis {result : Option String} {tolerant : Bool} {r : Register} {axis : Nat} {rest : List Step}
      {regs regs' : Registers} {s s' : Draft} {p : Position} {x : Expr} :
      position? regs r = some p → p.indices[axis]? = some x →
      Took rest (regs.bind result (some (.expr x))) s regs' s' →
      Took (.mk result tolerant (.axis r axis) :: rest) regs s regs' s'
  | leaf {result : Option String} {tolerant : Bool} {action : Action} {rest : List Step}
      {regs regs' : Registers} {s s' : Draft} {c : Call} {item : Option Item} :
      Leaf given regs s action c item → s.Admits c →
      Took rest (regs.bind result item) (s.perform c) regs' s' →
      Took (.mk result tolerant action :: rest) regs s regs' s'
  | branch {result : Option String} {tolerant : Bool} {cond : Register} {body rest : List Step}
      {regs inner regs' : Registers} {s t s' : Draft} {x : Expr} :
      expr? regs cond = some x → s.Admits (.branch x) →
      Took body regs (s.perform (.branch x)) inner t →
      Took rest (inner.bind result (some (.chain t.chains.length))) (t.perform .leave) regs' s' →
      Took (.mk result tolerant (.branch cond body) :: rest) regs s regs' s'
  | further {result : Option String} {tolerant : Bool} {action : Action} {r : Register}
      {cond : Option Register} {body rest : List Step} {regs inner regs' : Registers}
      {s t s' : Draft} {key : Nat} {guard : Option Expr} {started : Started} {c : Chain}
      {q : Recording} :
      action.continuation? = some (r, cond, body) → chain? regs r = some key →
      guard? regs cond = some guard → s.Admits (.continuing key guard) →
      s.chains[key]? = some started → started.scope = s.recording.current.scope →
      s.recording.reopenWith started.chain guard = (.ok c, q) →
      Took body regs (s.perform (.continuing key guard)) inner t →
      Took rest inner (t.perform .leave) regs' s' →
      Took (.mk result tolerant action :: rest) regs s regs' s'

end

theorem Leaf.isPlain {given : Given → Option InputTensor} {regs : Registers} {action : Action}
    {item : Option Item} (h : Leaf given regs s action c item) : c.isPlain = true := by
  cases h <;> rfl

namespace Draft
open Recording

/-- What a list of instructions leaves as it was: the blocks around its own, and the chains
in them. -/
structure Stays (s t : Draft) : Prop where
  purposes : t.purposes = s.purposes
  outer : t.recording.outer = s.recording.outer
  scope : t.recording.current.scope = s.recording.current.scope
  chains : ∀ (i : Nat) (u : Started), u.scope ∈ s.recording.outer.map Block.scope →
    (t.chains[i]? = some u ↔ s.chains[i]? = some u)

theorem Stays.rfl : s.Stays s := ⟨Eq.refl _, Eq.refl _, Eq.refl _, fun _ _ _ => .rfl⟩

theorem Stays.trans {u : Draft} (h : s.Stays t) (h' : t.Stays u) : s.Stays u where
  purposes := h'.purposes.trans h.purposes
  outer := h'.outer.trans h.outer
  scope := h'.scope.trans h.scope
  chains i v hm := (h'.chains i v (by rwa [h.outer])).trans (h.chains i v hm)

theorem Stays.scopes (h : s.Stays t) : t.recording.scopes = s.recording.scopes := by
  simp only [Recording.scopes, blocks, List.map_cons, h.scope, h.outer]

theorem stays_perform (hs : s.Holds) (hc : s.Admits c) (hp : c.isPlain = true) :
    s.Stays (s.perform c) := by
  obtain ⟨he, hchains, hpurposes⟩ := (move_perform hs hc).edits hp
  exact ⟨hpurposes, he.grows.outer, he.grows.scope, fun i u _ => by rw [hchains]⟩

theorem perform_leave {p : Purpose} {rest : List Purpose} (h : t.purposes = p :: rest) :
    t.perform .leave = t.complete rest p := by
  simp only [perform, h]

theorem stays_branch (hn : s.Nests) (h : (s.perform (.branch x)).Stays t) :
    s.Stays (t.perform .leave) := by
  have hp : t.purposes = .first x :: s.purposes := h.purposes
  have ho : t.recording.outer = s.recording.current :: s.recording.outer := h.outer
  have hclosed := closed_complete s.purposes (.first x) ho
  rw [perform_leave hp]
  refine ⟨hclosed.purposes, hclosed.outer, hclosed.scope, fun i u hm => ?_⟩
  rw [← show t.chains[i]? = some u ↔ s.chains[i]? = some u from
    h.chains i u (List.mem_cons_of_mem _ hm)]
  unfold complete
  rw [closeBlock_eq ho]
  refine ⟨fun hu => ?_, fun hu => ?_⟩
  · rcases getElem?_snoc hu with hu | ⟨-, rfl⟩
    · exact hu
    · exact absurd (hn.nested.lt _ hm) (Nat.lt_irrefl _)
  · exact (List.getElem?_append_left (List.getElem?_eq_some_iff.1 hu).1).trans hu

theorem stays_further (hn : s.Nests) {c : Chain} (hw : s.chains[key]? = some started)
    (hown : started.scope = s.recording.current.scope)
    (hq : s.recording.reopenWith started.chain guard = (.ok c, q))
    (h : (s.perform (.continuing key guard)).Stays t) : s.Stays (t.perform .leave) := by
  obtain ⟨-, -, -, before, chain, bound, sealed, hr⟩ := reopened_of_reopenWith hq
  rw [perform_reopened hw hq] at h
  have hscope : q.current.scope = s.recording.current.scope := hr.scope
  have houter : q.outer = s.recording.outer := hr.outer
  have hp : t.purposes = .further key c.index (guard.map Expr.id) :: s.purposes := h.purposes
  have ho : t.recording.outer = q.current :: q.outer := h.outer
  have hclosed := closed_complete s.purposes (.further key c.index (guard.map Expr.id)) ho
  rw [perform_leave hp]
  refine ⟨hclosed.purposes, hclosed.outer.trans houter, hclosed.scope.trans hscope,
    fun i u hm => ?_⟩
  have hne : u.scope ≠ q.current.scope := fun he =>
    Nat.lt_irrefl _ (hscope ▸ he ▸ hn.nested.lt _ hm)
  have hwq : started.scope = q.current.scope := hown.trans hscope.symm
  rw [← getElem?_followed (f := fun u => { u with chain := c }) (fun _ => rfl) hw hwq hne]
  have hinner (j : Nat) (v : Started) (hv : v.scope ∈ (q.current :: q.outer).map Block.scope) :=
    h.chains j v hv
  rw [← hinner i u (List.mem_cons_of_mem _ (by rwa [houter]))]
  unfold complete
  dsimp only
  split
  · refine getElem?_modify_iff (fun _ => rfl) fun x hx hsame => ?_
    have hxm : x.scope ∈ (q.current :: q.outer).map Block.scope := by
      rw [hsame]
      exact List.mem_cons_of_mem _ (by rwa [houter])
    have hold : s.chains[key]? = some x := by
      refine (getElem?_followed ?_ hw hwq (hsame ▸ hne)).1 ((hinner key x hxm).1 hx)
      exact fun _ => rfl
    rw [hw] at hold
    exact hne (hsame ▸ Option.some.inj hold ▸ hwq)
  · exact Iff.rfl

theorem leave_branch (h : (s.perform (.branch x)).Stays t) :
    t.recording.SameTables (t.perform .leave).recording ∧
      (t.perform .leave).recording.current.body =
        s.recording.current.body ++ [.cond [.mk (some x.id) t.recording.current.body]] ∧
      ∃ c, (t.perform .leave).chains =
        t.chains ++ [⟨c, s.recording.current.scope, s.recording.current.body.length⟩] := by
  have hp : t.purposes = .first x :: s.purposes := h.purposes
  have ho : t.recording.outer = s.recording.current :: s.recording.outer := h.outer
  rw [perform_leave hp]
  refine ⟨tables_complete _ _ ho, ?_⟩
  unfold complete
  rw [closeBlock_eq ho]
  exact ⟨rfl, _, rfl⟩

theorem leave_continuing {c : Chain} (hw : s.chains[key]? = some started)
    (hq : s.recording.reopenWith started.chain guard = (.ok c, q)) {front : List Stmt}
    {branches : List Branch} (hlast : q.current.body = front ++ [.cond branches])
    (hlen : c.index = front.length) (h : (s.perform (.continuing key guard)).Stays t) :
    t.recording.SameTables (t.perform .leave).recording ∧
      (t.perform .leave).recording.current.body =
        front ++ [.cond (branches ++ [.mk (guard.map Expr.id) t.recording.current.body])] ∧
      (t.perform .leave).chains.length = t.chains.length ∧
      ∀ (i : Nat) (u : Started), (t.perform .leave).chains[i]? = some u →
        ∃ v, t.chains[i]? = some v ∧ v.scope = u.scope ∧ v.place = u.place := by
  rw [perform_reopened hw hq] at h
  have hp : t.purposes = .further key c.index (guard.map Expr.id) :: s.purposes := h.purposes
  have ho : t.recording.outer = q.current :: q.outer := h.outer
  rw [perform_leave hp]
  refine ⟨tables_complete _ _ ho, ?_, ?_, fun i u hu => ?_⟩
  · unfold complete
    rw [closeBlock_eq ho, hlen]
    exact congrArg Block.body (addBranch_last { t.recording with current := q.current, outer := q.outer }
      hlast _ _)
  · exact length_complete
  · obtain ⟨v, hv, hscope, hplace, -⟩ := getElem?_complete hu
    exact ⟨v, hv, hscope.symm, hplace.symm⟩

end Draft

section
open Draft
variable {given : Given → Option InputTensor} {steps : List Step} {regs regs' : Registers}
  {s s' : Draft}

theorem Draft.ownBlock_of_isPlain (h : c.isPlain = true) : s.OwnBlock c := by
  cases c with
  | elif | otherwise => cases h
  | _ => simp [OwnBlock, Call.continues?]

theorem Draft.ownBlock_continuing (hw : s.chains[key]? = some started)
    (hown : started.scope = s.recording.current.scope) (guard : Option Expr) :
    s.OwnBlock (.continuing key guard) := by
  intro k hk t ht
  have hkey : k = key := by cases guard <;> exact (Option.some.inj hk).symm
  subst hkey
  rw [hw] at ht
  exact Option.some.inj ht ▸ hown

theorem Draft.OwnBlock.scope_eq (h : s.OwnBlock (.continuing key guard))
    (hw : s.chains[key]? = some started) : started.scope = s.recording.current.scope := by
  cases guard <;> exact h key rfl started hw

theorem Draft.leads_leave (s : Draft) : Leads OwnBlock s (s.perform .leave) :=
  @Leads.call _ _ _ .leave .refl trivial (by simp [OwnBlock, Call.continues?])

theorem Draft.leads_enter (hc : s.Admits (.branch x)) : Leads OwnBlock s (s.perform (.branch x)) :=
  .call .refl hc (by simp [OwnBlock, Call.continues?])

theorem Draft.leads_continuing (hc : s.Admits (.continuing key guard))
    (hw : s.chains[key]? = some started) (hown : started.scope = s.recording.current.scope) :
    Leads OwnBlock s (s.perform (.continuing key guard)) :=
  .call .refl hc (ownBlock_continuing hw hown guard)

theorem Took.leads (h : Took given steps regs s regs' s') : Leads OwnBlock s s' := by
  induction h with
  | nil => exact .refl
  | idle _ _ ih => exact ih
  | axis _ _ _ ih => exact ih
  | leaf hleaf hc _ ih =>
    exact (Leads.call .refl hc (ownBlock_of_isPlain hleaf.isPlain)).trans ih
  | branch _ hc _ _ ihbody ih => exact ((leads_enter hc).trans ihbody).trans ((leads_leave _).trans ih)
  | further _ _ _ hc hw hown _ _ _ ihbody ih =>
    exact ((leads_continuing hc hw hown).trans ihbody).trans ((leads_leave _).trans ih)

theorem Took.stays (h : Took given steps regs s regs' s') (hs : s.Holds) (hn : s.Nests) :
    s.Stays s' := by
  induction h with
  | nil => exact .rfl
  | idle _ _ ih => exact ih hs hn
  | axis _ _ _ ih => exact ih hs hn
  | leaf hleaf hc _ ih =>
    have hm := move_perform hs hc
    exact (stays_perform hs hc hleaf.isPlain).trans (ih (hm.holds hs) (hm.nests hn))
  | branch _ hc hbody _ ihbody ih =>
    have hm := move_perform hs hc
    have hin := ((leads_enter hc).trans hbody.leads).trans (leads_leave _)
    exact (stays_branch hn (ihbody (hm.holds hs) (hm.nests hn))).trans
      (ih (hin.holds hs) (hin.nests hs hn))
  | further _ _ _ hc hw hown hq hbody _ ihbody ih =>
    have hm := move_perform hs hc
    have hin := ((leads_continuing hc hw hown).trans hbody.leads).trans (leads_leave _)
    exact (stays_further hn hw hown hq (ihbody (hm.holds hs) (hm.nests hn))).trans
      (ih (hin.holds hs) (hin.nests hs hn))

end
end TensorKernel

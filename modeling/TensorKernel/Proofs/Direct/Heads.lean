import TensorKernel.Proofs.Direct.Desk

/-! Instructions with a body. Each looks at its registers, opens a block, runs the body in it and
puts the statements of the block where they belong. -/
namespace TensorKernel

open Run Registers

/-- What stands in front of a body. -/
inductive Opener where
  /-- A first branch, with the register of its guard. -/
  | branch (cond : Register)
  /-- A further branch, with the registers of the chain and of the guard, if there is one. -/
  | further (chain : Register) (cond : Option Register)

/-- What the statements of a block are for. -/
inductive Opened where
  | first (cond : Expr)
  | further (guest : Bool) (key : Nat) (chain : Chain) (guard : Option NodeId)

variable {cond : Option Register} {r : Register} {o : Opened}

namespace Opener

def action : Opener → List Step → Action
  | branch cond, body => .branch cond body
  | further chain (some cond), body => .elif chain cond body
  | further chain none, body => .otherwise chain body

def guard : Option Register → Run (Option Expr)
  | none => pure none
  | some cond => some <$> expr cond

def enter (here : RecordingId) : Opener → Run Opened
  | branch cond => do
    let x ← expr cond
    onUnit here (·.checkOperand x)
    return .first x
  | further r cond => do
    let key ← chainKey r
    let c ← chain r.guest key
    let x ← guard cond
    let c ← reopened (← on c.owner (·.reopenWith c x))
    setChain r.guest key c
    return .further r.guest key c (x.map Expr.id)

end Opener

namespace Opened

def owner (here : RecordingId) : Opened → RecordingId
  | first _ => here
  | further _ _ c _ => c.owner

def exit (here : RecordingId) (stmts : List Stmt) : Opened → Run Outcome
  | first x => do
    let c ← on here (·.pushChain x stmts)
    return (← chainDump c, some (← keepChain c))
  | further _ _ c (some g) => do
    onUnit c.owner (·.addBranch c.index (some g) stmts)
    return (← chainDump c, none)
  | further guest key c none => do
    onUnit c.owner (·.addBranch c.index none stmts)
    let c := { c with closed := true }
    setChain guest key c
    return (← chainDump c, none)

end Opened

theorem Recording.header_reopenWith (r : Recording) (c : Chain) (cond : Option Expr) :
    (r.reopenWith c cond).2.header = r.header := by
  cases cond with
  | none => exact header_reopenElse r c
  | some x => exact header_reopenElif r c x

theorem guest_of_chain? {regs : Registers} {key : Nat} (h : chain? regs r = some key) :
    r.guest = false := by
  unfold chain? item? at h
  cases hg : r.guest with
  | false => rfl
  | true =>
    rw [if_pos hg] at h
    cases h

theorem runAction_head (here : RecordingId) (head : Opener) (body : List Step) :
    runAction here (head.action body) = (do
      let o ← head.enter here
      let stmts ← inBlock (o.owner here) (runSteps here body)
      o.exit here stmts) := by
  cases head with
  | branch cond => simp [Opener.action, runAction, Opener.enter, Opened.owner, Opened.exit]
  | further r cond =>
    cases cond <;> simp [Opener.action, runAction, Opener.enter, Opener.guard, Opened.owner,
      Opened.exit, Recording.reopenWith]

section
variable {R : Desk → Desk → Prop} [Steady R]

theorem moves_exit (here : RecordingId) (stmts : List Stmt) (o : Opened) :
    Moves R (o.exit here stmts) := by
  cases o with
  | first x =>
    exact (moves_on here (by simp)).bind fun c => (moves_chainDump c).bind fun _ =>
      (moves_keepChain c).bind fun _ => moves_pure _
  | further guest key c guard =>
    cases guard with
    | some g =>
      exact (moves_onUnit _ (by simp)).bind fun _ => (moves_chainDump c).bind fun _ => moves_pure _
    | none =>
      exact (moves_onUnit _ (by simp)).bind fun _ => (moves_setChain _ _ _).bind fun _ =>
        (moves_chainDump _).bind fun _ => moves_pure _

end

section
variable {here : RecordingId} {d d' : Desk}

theorem head_ok {head : Opener} {body : List Step} {out : Outcome}
    (h : runAction here (head.action body) d = (.ok out, d')) :
    ∃ o d₁ d₂ d₃ d₄ stmts, head.enter here d = (.ok o, d₁) ∧
      onUnit (o.owner here) (·.openBlock) d₁ = (.ok (), d₂) ∧
      runSteps here body d₂ = (.ok (), d₃) ∧
      on (o.owner here) (·.closeBlock) d₃ = (.ok stmts, d₄) ∧
      o.exit here stmts d₄ = (.ok out, d') := by
  rw [runAction_head] at h
  obtain ⟨o, d₁, henter, h₁⟩ := bind_ok.1 h
  obtain ⟨stmts, d₄, hblock, hexit⟩ := bind_ok.1 h₁
  obtain ⟨d₂, d₃, hopen, hbody, hclose⟩ := inBlock_ok hblock
  exact ⟨o, d₁, d₂, d₃, d₄, stmts, henter, hopen, hbody, hclose, hexit⟩

section
variable (hg : d.guest = none)
include hg

theorem guard_ok {x : Option Expr} (h : Opener.guard cond d = (.ok x, d')) :
    guard? d.registers cond = some x ∧ d' = d := by
  cases cond with
  | none =>
    obtain ⟨rfl, rfl⟩ := pure_ok.1 h
    exact ⟨rfl, rfl⟩
  | some r =>
    rw [Opener.guard, ← bind_pure_comp] at h
    obtain ⟨e, he, h₁⟩ := bind_read_ok (expr_ok hg) h
    obtain ⟨rfl, rfl⟩ := pure_ok.1 h₁
    exact ⟨by rw [guard?, he]; rfl, rfl⟩

theorem enter_branch_ok {cond : Register} (h : (Opener.branch cond).enter here d = (.ok o, d')) :
    ∃ x, expr? d.registers cond = some x ∧ o = .first x ∧
      d' = { d with home := d.home.checkOperand x } := by
  rw [Opener.enter] at h
  obtain ⟨x, hx, h₁⟩ := bind_read_ok (expr_ok hg) h
  obtain ⟨_, d₂, hcheck, h₂⟩ := bind_ok.1 h₁
  obtain ⟨-, rfl⟩ := onUnit_ok hcheck hg rfl
  obtain ⟨rfl, rfl⟩ := pure_ok.1 h₂
  exact ⟨x, hx, rfl, rfl⟩

theorem enter_further_ok (h : (Opener.further r cond).enter here d = (.ok o, d')) :
    ∃ key c₀ x c q, chain? d.registers r = some key ∧ d.chains[key]? = some c₀ ∧
      guard? d.registers cond = some x ∧ d.home.reopenWith c₀ x = (.ok c, q) ∧
      o = .further false key c (x.map Expr.id) ∧
      d' = { d with home := q, chains := d.chains.setIfInBounds key c } := by
  rw [Opener.enter] at h
  obtain ⟨key, hkey, h₁⟩ := bind_read_ok (chainKey_ok hg) h
  rw [guest_of_chain? hkey] at h₁
  obtain ⟨c₀, d₂, hc₀, h₂⟩ := bind_ok.1 h₁
  obtain ⟨hc₀, rfl⟩ := chain_ok hc₀
  obtain ⟨x, hx, h₃⟩ := bind_read_ok (guard_ok hg) h₂
  obtain ⟨res, d₄, hopen, h₄⟩ := bind_ok.1 h₃
  obtain ⟨-, hres, rfl⟩ := on_ok hopen hg (congrArg Prod.fst (Recording.header_reopenWith _ _ _))
  obtain ⟨c, d₅, hc, h₅⟩ := bind_ok.1 h₄
  obtain ⟨rfl, rfl⟩ := reopened_ok hc
  obtain ⟨_, d₆, hset, h₆⟩ := bind_ok.1 h₅
  obtain rfl := setChain_ok hset
  obtain ⟨rfl, rfl⟩ := pure_ok.1 h₆
  exact ⟨key, c₀, x, c, _, hkey, hc₀, hx, Prod.ext hres.symm rfl, rfl, rfl⟩

end

end

end TensorKernel

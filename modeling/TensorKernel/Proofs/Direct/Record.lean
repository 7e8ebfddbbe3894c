import TensorKernel.Proofs.Direct.Owned
import TensorKernel.Proofs.Direct.Heads

/-! Desks and drafts side by side. A run on one recording that logs no failure is a sequence
of admitted calls, and what its registers hold was given out by the draft. -/
namespace TensorKernel

open Run Draft Registers List

variable {out : Outcome} {i : Item} {u : Unit} {n : Nat} {here : RecordingId} {r : Register}
  {action : Action} {c : Call} {t : Draft} {regs : Registers} {head : Opener}

def Action.isLeaf : Action → Bool
  | .inspect _ | .describe | .axis .. | .branch .. | .elif .. | .otherwise .. | .ensure ..
  | .fail _ => false
  | _ => true

namespace Draft

/-- The handles of an item were given out. -/
def Held (s : Draft) : Item → Prop
  | .expr x => x ∈ s.exprs
  | .position p => ∀ x ∈ p.indices, x ∈ s.exprs
  | .output t => t ∈ s.outputs
  | .slot v => v ∈ s.slots
  | .chain _ => True

theorem subset_perform (s : Draft) (c : Call) : s.exprs ⊆ (s.perform c).exprs ∧
    s.slots ⊆ (s.perform c).slots ∧ s.outputs ⊆ (s.perform c).outputs := by
  cases c with
  | constant | unary | binary | binaryFrom | cast | element | get =>
    exact ⟨subset_cons_self _ _, Subset.refl _, Subset.refl _⟩
  | outputLike => exact ⟨Subset.refl _, Subset.refl _, subset_cons_self _ _⟩
  | declare => exact ⟨Subset.refl _, subset_cons_self _ _, Subset.refl _⟩
  | assign | update | store | branch =>
    exact ⟨Subset.refl _, Subset.refl _, Subset.refl _⟩
  | output type =>
    unfold perform
    dsimp only
    split
    · exact ⟨Subset.refl _, Subset.refl _, subset_cons_self _ _⟩
    · exact ⟨Subset.refl _, Subset.refl _, Subset.refl _⟩
  | positionIn shape =>
    unfold perform
    dsimp only
    split
    · exact ⟨subset_append_right _ _, Subset.refl _, Subset.refl _⟩
    · exact ⟨Subset.refl _, Subset.refl _, Subset.refl _⟩
  | elif | otherwise =>
    unfold perform
    dsimp only
    split
    · unfold resume
      split <;> exact ⟨Subset.refl _, Subset.refl _, Subset.refl _⟩
    · exact ⟨Subset.refl _, Subset.refl _, Subset.refl _⟩
  | leave =>
    unfold perform
    dsimp only
    split
    next p rest _ =>
      cases p <;> exact ⟨Subset.refl _, Subset.refl _, Subset.refl _⟩
    · exact ⟨Subset.refl _, Subset.refl _, Subset.refl _⟩
  | abandon =>
    unfold perform
    dsimp only
    split <;> exact ⟨Subset.refl _, Subset.refl _, Subset.refl _⟩

theorem Held.perform {s : Draft} (h : s.Held i) (c : Call) : (s.perform c).Held i := by
  obtain ⟨hx, hv, ho⟩ := s.subset_perform c
  cases i with
  | expr => exact hx h
  | position => exact fun x hm => hx (h x hm)
  | output => exact ho h
  | slot => exact hv h
  | chain => trivial

end Draft

theorem exists_of_mem_mapM {α β : Type} {f : α → Option β} {as : List α} {bs : List β}
    (h : as.mapM f = some bs) {b : β} (hb : b ∈ bs) : ∃ a ∈ as, f a = some b := by
  induction as generalizing bs with
  | nil =>
    cases h
    cases hb
  | cons a rest ih =>
    rw [mapM_cons] at h
    obtain ⟨b', ha, h⟩ := Option.bind_eq_some_iff.1 h
    obtain ⟨bs', hrest, h⟩ := Option.bind_eq_some_iff.1 h
    cases h
    rcases mem_cons.1 hb with rfl | hb
    · exact ⟨a, mem_cons_self, ha⟩
    · obtain ⟨a', hm, ha'⟩ := ih hrest hb
      exact ⟨a', mem_cons_of_mem _ hm, ha'⟩

/-- The desk works on the recording of the draft, with the handles that it has given out. -/
structure Mirrors (given : Given → Option InputTensor) (d : Desk) (s : Draft) : Prop where
  home : d.home = s.recording
  guest : d.guest = none
  chains : d.chains.toList = s.chains.map Started.chain
  tensors : d.given? = given
  inputs : ∀ t x, given t = some x → x ∈ s.recording.inputTensors
  held : ∀ name i, d.registers.lookup name = some i → s.Held i

namespace Mirrors

variable {given : Given → Option InputTensor} {d d' : Desk} {s : Draft}

theorem perform (h : Mirrors given d s) (hs : s.Holds) (hc : s.Admits c) {chains : Array Chain}
    (hch : chains.toList = (s.perform c).chains.map Started.chain) :
    Mirrors given { d with home := (s.perform c).recording, chains } (s.perform c) where
  home := rfl
  guest := h.guest
  chains := hch
  tensors := h.tensors
  inputs t x hx := by
    have hk := (move_perform hs hc).keeps
    have hin : (s.perform c).recording.inputs = s.recording.inputs := hk.types.inputs
    unfold Recording.inputTensors
    rw [hin, hk.id]
    exact h.inputs t x hx
  held name i hi := (h.held name i hi).perform c

theorem bind (h : Mirrors given d s) (result : Option String) {item : Option Item}
    (hi : ∀ i, item = some i → s.Held i) (events : List Event) :
    Mirrors given { d with registers := d.registers.bind result item, events } s := by
  refine ⟨h.home, h.guest, h.chains, h.tensors, h.inputs, fun name i hl => ?_⟩
  cases result with
  | none => exact h.held name i hl
  | some n =>
    cases item with
    | none => exact h.held name i hl
    | some j =>
      change lookup name ((n, j) :: d.registers) = some i at hl
      rw [lookup_cons] at hl
      split at hl
      · exact hi i hl
      · exact h.held name i hl

section
variable (h : Mirrors given d s)
include h

theorem item {i : Item} (hi : item? d.registers r = some i) : s.Held i := by
  unfold item? at hi
  split at hi
  · cases hi
  · exact h.held _ _ hi

theorem expr {x : Expr} (hx : expr? d.registers r = some x) : x ∈ s.exprs := by
  unfold expr? at hx
  split at hx
  next hi =>
    cases hx
    exact h.item hi
  · cases hx

theorem slot {v : Variable} (hv : slot? d.registers r = some v) : v ∈ s.slots := by
  unfold slot? at hv
  split at hv
  next hi =>
    cases hv
    exact h.item hi
  · cases hv

theorem output {t : OutputTensor} (ht : output? d.registers r = some t) : t ∈ s.outputs := by
  unfold output? at ht
  split at ht
  next hi =>
    cases ht
    exact h.item hi
  · cases ht

theorem position {p : Position} (hp : position? d.registers r = some p) :
    ∀ x ∈ p.indices, x ∈ s.exprs := by
  unfold position? at hp
  split at hp
  next hi =>
    cases hp
    exact h.item hi
  · cases hp

theorem operand {a : Argument} {o : Operand} (ho : operand? d.registers a = some o) :
    s.KnowsOperand o := by
  cases a with
  | literal v =>
    cases ho
    trivial
  | register r =>
    obtain ⟨x, hx, rfl⟩ := Option.map_eq_some_iff.1 ho
    exact fun _ => h.expr hx

theorem subscript {place : Subscript} {os : List Operand}
    (ho : subscript? d.registers place = some os) : ∀ o ∈ os, s.KnowsOperand o := by
  cases place with
  | position r =>
    obtain ⟨p, hp, rfl⟩ := Option.map_eq_some_iff.1 ho
    intro o hm
    obtain ⟨x, hx, rfl⟩ := mem_map.1 hm
    exact fun _ => h.position hp x hx
  | indices args =>
    intro o hm
    obtain ⟨a, -, ha⟩ := exists_of_mem_mapM ho hm
    exact h.operand ha

theorem call {α : Type} (hs : s.Holds) (hc : s.Admits c) {id : RecordingId} {a : α}
    {f : Recording → α × Recording} (hf : (f s.recording).2 = (s.perform c).recording)
    (ho : on id f d = (.ok a, d')) :
    a = (f s.recording).1 ∧ d' = { d with home := (s.perform c).recording } := by
  have hid : (f d.home).2.id = d.home.id := by
    rw [h.home, hf]
    exact (move_perform hs hc).keeps.id
  obtain ⟨-, ha, hd⟩ := on_ok ho h.guest hid
  rw [h.home] at ha hd
  exact ⟨ha, hf ▸ hd⟩

theorem change (hs : s.Holds) (hc : s.Admits c) {id : RecordingId} {f : Recording → Recording}
    (hf : f s.recording = (s.perform c).recording) (ho : onUnit id f d = (.ok u, d')) :
    d' = { d with home := (s.perform c).recording } :=
  (h.call hs hc hf ho).2

theorem leaf (hs : s.Holds) {out : Outcome} (hl : action.isLeaf = true)
    (hr : runAction here action d = (.ok out, d')) :
    ∃ c, Leaf given d.registers s action c out.2 ∧ s.Admits c ∧
      d' = { d with home := (s.perform c).recording } := by
  cases action with
  | element t place =>
    rw [runAction] at hr
    obtain ⟨tensor, ht, h₁⟩ := bind_read_ok given_ok hr
    obtain ⟨os, ho, h₂⟩ := bind_read_ok (subscript_ok h.guest) h₁
    obtain ⟨x, hx, rfl⟩ := bind_pure_ok.1 h₂
    rw [h.tensors] at ht
    have hc : s.Admits (.element tensor os) := ⟨h.inputs t tensor ht, h.subscript ho⟩
    obtain ⟨rfl, hd⟩ := h.call hs hc rfl hx
    exact ⟨_, .element ht ho, hc, hd⟩
  | constant v type =>
    rw [runAction] at hr
    obtain ⟨x, hx, rfl⟩ := bind_pure_ok.1 hr
    obtain ⟨rfl, hd⟩ := h.call hs (c := .constant v type) trivial rfl hx
    exact ⟨_, .constant v type, trivial, hd⟩
  | unary op arg =>
    rw [runAction] at hr
    obtain ⟨x, hx, h₁⟩ := bind_read_ok (expr_ok h.guest) hr
    obtain ⟨y, hy, rfl⟩ := bind_pure_ok.1 h₁
    have hc : s.Admits (.unary op x) := h.expr hx
    obtain ⟨rfl, hd⟩ := h.call hs hc rfl hy
    exact ⟨_, .unary hx, hc, hd⟩
  | cast arg type =>
    rw [runAction] at hr
    obtain ⟨x, hx, h₁⟩ := bind_read_ok (expr_ok h.guest) hr
    obtain ⟨y, hy, rfl⟩ := bind_pure_ok.1 h₁
    have hc : s.Admits (.cast x type) := h.expr hx
    obtain ⟨rfl, hd⟩ := h.call hs hc rfl hy
    exact ⟨_, .cast hx, hc, hd⟩
  | binary op lhs rhs =>
    rw [runAction] at hr
    obtain ⟨a, ha, h₁⟩ := bind_read_ok (operand_ok h.guest) hr
    obtain ⟨b, hb, h₂⟩ := bind_read_ok (operand_ok h.guest) h₁
    obtain ⟨y, hy, rfl⟩ := bind_pure_ok.1 h₂
    cases lhs with
    | register r =>
      obtain ⟨x, hx, rfl⟩ := Option.map_eq_some_iff.1 ha
      have hc : s.Admits (.binary op x b) := ⟨h.expr hx, h.operand hb⟩
      obtain ⟨rfl, hd⟩ := h.call hs hc rfl hy
      exact ⟨_, .binary hx hb, hc, hd⟩
    | literal v =>
      cases ha
      cases rhs with
      | register r =>
        obtain ⟨x, hx, rfl⟩ := Option.map_eq_some_iff.1 hb
        have hc : s.Admits (.binaryFrom op v x) := h.expr hx
        obtain ⟨rfl, hd⟩ := h.call hs hc rfl hy
        exact ⟨_, .binaryFrom hx, hc, hd⟩
      | literal =>
        cases hb
        exact absurd hy stop_ne_ok
  | output type =>
    rw [runAction] at hr
    obtain ⟨t, ht, rfl⟩ := bind_pure_ok.1 hr
    have hperform (p : OutputTensor × Recording) (hp : s.recording.output type = .ok p) :
        (s.perform (.output type)).recording = p.2 := by
      simp only [Draft.perform, hp, withOutput]
    have hc : s.Admits (.output type) := trivial
    have hid (p : OutputTensor × Recording) (hp : d.home.output type = .ok p) :
        p.2.id = d.home.id := by
      rw [h.home] at hp ⊢
      exact hperform p hp ▸ (move_perform hs hc).keeps.id
    obtain ⟨-, r, ho, hd⟩ := onFallible_ok ht h.guest hid
    rw [h.home] at ho
    exact ⟨_, .output ho, hc, by rw [hperform _ ho]; exact hd⟩
  | outputLike m =>
    rw [runAction] at hr
    obtain ⟨type, ht, h₁⟩ := bind_read_ok (model_ok h.guest) hr
    obtain ⟨t, ho, rfl⟩ := bind_pure_ok.1 h₁
    rw [h.tensors] at ht
    obtain ⟨rfl, hd⟩ := h.call hs (c := .outputLike type) trivial rfl ho
    exact ⟨_, .outputLike ht, trivial, hd⟩
  | positionIn shape =>
    rw [runAction] at hr
    obtain ⟨p, hp, rfl⟩ := bind_pure_ok.1 hr
    have hperform (p : Position × Recording) (hp : s.recording.positionIn shape = .ok p) :
        (s.perform (.positionIn shape)).recording = p.2 := by
      simp only [Draft.perform, hp]
    have hc : s.Admits (.positionIn shape) := trivial
    have hid (p : Position × Recording) (hp : d.home.positionIn shape = .ok p) :
        p.2.id = d.home.id := by
      rw [h.home] at hp ⊢
      exact hperform p hp ▸ (move_perform hs hc).keeps.id
    obtain ⟨-, r, ho, hd⟩ := onFallible_ok hp h.guest hid
    rw [h.home] at ho
    exact ⟨_, .positionIn ho, hc, by rw [hperform _ ho]; exact hd⟩
  | declare init type =>
    rw [runAction] at hr
    obtain ⟨o, ho, h₁⟩ := bind_read_ok (operand_ok h.guest) hr
    obtain ⟨v, hv, rfl⟩ := bind_pure_ok.1 h₁
    have hc : s.Admits (.declare o type) := h.operand ho
    obtain ⟨rfl, hd⟩ := h.call hs hc rfl hv
    exact ⟨_, .declare ho, hc, hd⟩
  | get r =>
    rw [runAction] at hr
    obtain ⟨v, hv, h₁⟩ := bind_read_ok (slot_ok h.guest) hr
    obtain ⟨x, hx, rfl⟩ := bind_pure_ok.1 h₁
    have hc : s.Admits (.get v) := h.slot hv
    obtain ⟨rfl, hd⟩ := h.call hs hc rfl hx
    exact ⟨_, .get hv, hc, hd⟩
  | assign r value =>
    rw [runAction] at hr
    obtain ⟨v, hv, h₁⟩ := bind_read_ok (slot_ok h.guest) hr
    obtain ⟨o, ho, h₂⟩ := bind_read_ok (operand_ok h.guest) h₁
    obtain ⟨_, hu, rfl⟩ := bind_pure_ok.1 h₂
    have hc : s.Admits (.assign v o) := ⟨h.slot hv, h.operand ho⟩
    exact ⟨_, .assign hv ho, hc, h.change hs hc rfl hu⟩
  | update r op value =>
    rw [runAction] at hr
    obtain ⟨v, hv, h₁⟩ := bind_read_ok (slot_ok h.guest) hr
    obtain ⟨o, ho, h₂⟩ := bind_read_ok (operand_ok h.guest) h₁
    obtain ⟨_, hu, rfl⟩ := bind_pure_ok.1 h₂
    have hc : s.Admits (.update v op o) := ⟨h.slot hv, h.operand ho⟩
    exact ⟨_, .update hv ho, hc, h.change hs hc rfl hu⟩
  | store r place value =>
    rw [runAction] at hr
    obtain ⟨t, ht, h₁⟩ := bind_read_ok (outputTensor_ok h.guest) hr
    obtain ⟨os, hos, h₂⟩ := bind_read_ok (subscript_ok h.guest) h₁
    obtain ⟨o, ho, h₃⟩ := bind_read_ok (operand_ok h.guest) h₂
    obtain ⟨_, hu, rfl⟩ := bind_pure_ok.1 h₃
    have hc : s.Admits (.store t os o) := ⟨h.output ht, h.subscript hos, h.operand ho⟩
    exact ⟨_, .store ht hos ho, hc, h.change hs hc rfl hu⟩
  | inspect | describe | axis | branch | elif | otherwise | ensure | fail => cases hl

end

end Mirrors

section
variable {given : Given → Option InputTensor} {d d' : Desk} {s : Draft}

theorem Leaf.held {item : Option Item} (h : Leaf given regs s action c item) (hi : item = some i) :
    (s.perform c).Held i := by
  cases h with
  | assign | update | store => cases hi
  | output hp =>
    cases hi
    simp only [Draft.perform, hp]
    exact mem_cons_self
  | positionIn hp =>
    cases hi
    simp only [Draft.perform, hp]
    exact fun x hx => mem_append_left _ hx
  | _ =>
    cases hi
    exact mem_cons_self

/-- The draft follows the desk through one instruction, and holds what that gives. -/
def Takes (given : Given → Option InputTensor) (action : Action) (d : Desk) (s : Draft)
    (item : Option Item) (d' : Desk) : Prop :=
  ∃ s', Mirrors given d' s' ∧ (∀ i, item = some i → s'.Held i) ∧ ∀ result tolerant,
    Took given [.mk result tolerant action] d.registers s (d'.registers.bind result item) s'

/-- The draft follows every run of the instruction that logs no failure. -/
def Performed (given : Given → Option InputTensor) (here : RecordingId) (n : Nat)
    (action : Action) : Prop :=
  ∀ (own : List String) (d d' : Desk) (s : Draft) (out : Outcome), action.structured own = true →
    runAction here action d = (.ok out, d') → n ≤ d.events.length → d'.DoneSince n →
    Mirrors given d s → s.Holds → s.Nests → Owned own d.registers s →
    Takes given action d s out.2 d'

/-- The draft follows every run of the steps that logs no failure. -/
def Recorded (given : Given → Option InputTensor) (here : RecordingId) (n : Nat)
    (steps : List Step) : Prop :=
  ∀ (own : List String) (d d' : Desk) (s : Draft), structured own steps = true →
    runSteps here steps d = (.ok (), d') → n ≤ d.events.length → d'.DoneSince n →
    Mirrors given d s → s.Holds → s.Nests → Owned own d.registers s →
    ∃ s', Mirrors given d' s' ∧ Took given steps d.registers s d'.registers s'

theorem Mirrors.takes_leaf (h : Mirrors given d s) (hs : s.Holds) (hl : action.isLeaf = true)
    (hr : runAction here action d = (.ok out, d')) : Takes given action d s out.2 d' := by
  obtain ⟨c, hleaf, hc, rfl⟩ := h.leaf hs hl hr
  obtain ⟨-, hchains, -⟩ := (move_perform hs hc).edits hleaf.isPlain
  refine ⟨s.perform c, h.perform hs hc ?_, fun i => hleaf.held, fun _ _ => .leaf hleaf hc .nil⟩
  rw [hchains]
  exact h.chains

theorem Mirrors.takes_idle (h : Mirrors given d s) (hi : action.isIdle = true) :
    Takes given action d s none d :=
  ⟨s, h, fun _ hn => (by cases hn), fun result _ => .idle hi (by cases result <;> exact .nil)⟩

theorem Mirrors.axis (h : Mirrors given d s) {axis : Nat} {out : Outcome}
    (hr : runAction here (.axis r axis) d = (.ok out, d')) :
    ∃ p x, position? d.registers r = some p ∧ p.indices[axis]? = some x ∧ out = .ofExpr x ∧
      d' = d := by
  rw [runAction] at hr
  obtain ⟨p, hp, h₁⟩ := bind_read_ok (position_ok h.guest) hr
  cases hx : p.indices[axis]? with
  | none =>
    rw [hx] at h₁
    exact absurd h₁ stop_ne_ok
  | some x =>
    rw [hx] at h₁
    obtain ⟨rfl, rfl⟩ := pure_ok.1 h₁
    exact ⟨p, x, hp, hx, rfl, rfl⟩

theorem Mirrors.takes_axis (h : Mirrors given d s) {axis : Nat}
    (hr : runAction here (.axis r axis) d = (.ok out, d')) :
    Takes given (.axis r axis) d s out.2 d' := by
  obtain ⟨p, x, hp, hx, rfl, rfl⟩ := h.axis hr
  refine ⟨s, h, ?_, fun _ _ => .axis hp hx .nil⟩
  rintro i ⟨⟩
  exact h.position hp x (mem_of_getElem? hx)

theorem map_chain_modify {chains : List Started} {key : Nat} {w : Started}
    (hw : chains[key]? = some w) (f : Started → Started) :
    (chains.modify key f).map Started.chain = (chains.map Started.chain).set key (f w).chain := by
  refine ext_getElem? fun i => ?_
  rw [getElem?_map, getElem?_modify, getElem?_set, getElem?_map]
  by_cases hi : key = i
  · subst hi
    obtain ⟨hlt, rfl⟩ := List.getElem?_eq_some_iff.1 hw
    simp [hlt]
  · simp [hi]

/-- What a block that is complete leaves in the register of its instruction. -/
def Purpose.item (t : Draft) : Purpose → Option Item
  | .first _ => some (.chain t.chains.length)
  | .further _ _ _ => none

theorem Purpose.held_item {p : Purpose} (h : p.item t = some i) (s : Draft) : s.Held i := by
  cases p with
  | first =>
    cases h
    trivial
  | further => cases h

/-- Whether the text says that the chain of a further branch is one of the block. -/
def Opener.isOwn (own : List String) : Opener → Bool
  | .branch _ => true
  | .further r _ => own.contains r.name

/-- The call that an instruction with a body begins with. -/
inductive Opener.Asks (regs : Registers) : Opener → Call → Prop where
  | branch {cond : Register} {x : Expr} : expr? regs cond = some x →
      Asks regs (.branch cond) (.branch x)
  | further {r : Register} {cond : Option Register} {key : Nat} {guard : Option Expr} :
      chain? regs r = some key → guard? regs cond = some guard →
      Asks regs (.further r cond) (.continuing key guard)

/-- The call is not refused, and this is what its block is for. -/
inductive Opener.Calls (regs : Registers) (s : Draft) : Opener → Call → Purpose → Prop where
  | branch {cond : Register} {x : Expr} : expr? regs cond = some x →
      Calls regs s (.branch cond) (.branch x) (.first x)
  | further {r : Register} {cond : Option Register} {key : Nat} {guard : Option Expr}
      {started : Started} {c : Chain} {q : Recording} : chain? regs r = some key →
      guard? regs cond = some guard → s.chains[key]? = some started →
      s.recording.reopenWith started.chain guard = (.ok c, q) →
      Calls regs s (.further r cond) (.continuing key guard)
        (.further key c.index (guard.map Expr.id))

/-- The block is open for what the draft says. -/
def Opened.Serves (t : Draft) : Opened → Purpose → Prop
  | .first x, .first y => x = y
  | .further guest key c guard, .further key' index guard' => guest = false ∧ key = key' ∧
      c.index = index ∧ guard = guard' ∧ t.chains[key]?.map Started.chain = some c
  | _, _ => False

section
variable {head : Opener} {regs : Registers} {c : Call} {p : Purpose}

theorem Opener.Calls.asks (h : head.Calls regs s c p) : head.Asks regs c := by
  cases h with
  | branch hx => exact .branch hx
  | further hkey hguard _ _ => exact .further hkey hguard

theorem Opener.Calls.purposes (h : head.Calls regs s c p) :
    (s.perform c).purposes = p :: s.purposes := by
  cases h with
  | branch => rfl
  | further _ _ hw hq => rw [perform_reopened hw hq]

/-- The chain of a further branch belongs to the block around the new one, so the body leaves
it as it is. -/
theorem Opener.Calls.kept (h : head.Calls regs s c p) (hown : OwnBlock s c)
    (hstays : (s.perform c).Stays t) {key index : Nat} {guard : Option NodeId}
    (hp : p = .further key index guard) : t.chains[key]? = (s.perform c).chains[key]? := by
  cases h with
  | branch => cases hp
  | @further r cond key guard started d q _ _ hw hq =>
    cases hp
    have hscope := hown.scope_eq hw
    obtain ⟨-, -, -, _, _, _, _, hr⟩ := Recording.reopened_of_reopenWith hq
    have hv := getElem?_reopened hw hq
    rw [hv]
    refine (hstays.chains key _ ?_).2 hv
    rw [perform_reopened hw hq]
    exact mem_cons.2 (.inl ((scope_follow _ _ _ _).trans (hscope.trans hr.scope.symm)))

theorem Opened.Serves.keep {o : Opened} {s : Draft} (h : o.Serves s p)
    (hchains : ∀ key index guard, p = .further key index guard →
      t.chains[key]?.map Started.chain = s.chains[key]?.map Started.chain) : o.Serves t p := by
  cases o with
  | first x => cases p <;> exact h
  | further guest key c guard =>
    cases p with
    | first => exact h
    | further key' index guard' =>
      obtain ⟨hguest, rfl, hindex, hguard, hc⟩ := h
      exact ⟨hguest, rfl, hindex, hguard, (hchains _ _ _ rfl).trans hc⟩

theorem Took.ofHead {body : List Step} {inner : Registers}
    (hbody : Took given body regs (s.perform c) inner t) (h : head.Calls regs s c p)
    (hc : s.Admits c) (hown : OwnBlock s c) (result : Option String) (tolerant : Bool) :
    Took given [.mk result tolerant (head.action body)] regs s (inner.bind result (p.item t))
      (t.perform .leave) := by
  cases h with
  | branch hx => exact .branch hx hc hbody .nil
  | @further r cond key guard started c q hkey hguard hw hq =>
    have hscope := hown.scope_eq hw
    have hhead : ((Opener.further r cond).action body).continuation? = some (r, cond, body) := by
      cases cond <;> rfl
    refine .further hhead hkey hguard hc hw hscope hq hbody ?_
    cases result <;> exact .nil

end

section
variable {here : RecordingId} {head : Opener} {o : Opened}

theorem Mirrors.admits (h : Mirrors given d s) (ha : head.Asks d.registers c) : s.Admits c := by
  cases ha with
  | branch hx => exact fun _ => h.expr hx
  | @further _ cond _ guard _ hguard =>
    cases cond with
    | none =>
      cases hguard
      trivial
    | some y =>
      obtain ⟨e, hy, rfl⟩ := Option.map_eq_some_iff.1 hguard
      exact fun _ => h.expr hy

theorem Mirrors.enter (h : Mirrors given d s) (hs : s.Holds) {d₁ d₂ : Desk} {u : Unit}
    (he : head.enter here d = (.ok o, d₁))
    (hopen : onUnit (o.owner here) (·.openBlock) d₁ = (.ok u, d₂)) :
    ∃ c p, head.Calls d.registers s c p ∧ s.Admits c ∧ o.Serves (s.perform c) p ∧
      Mirrors given d₂ (s.perform c) ∧ d₂.registers = d.registers ∧ d₂.events = d.events := by
  cases head with
  | branch cond =>
    obtain ⟨x, hx, rfl, rfl⟩ := enter_branch_ok h.guest he
    obtain ⟨-, rfl⟩ := onUnit_ok hopen h.guest rfl
    have hc : s.Admits (.branch x) := h.admits (.branch hx)
    have hin := h.perform hs hc h.chains
    refine ⟨_, _, .branch hx, hc, rfl, ?_, rfl, rfl⟩
    rw [h.home]
    exact hin
  | further r cond =>
    obtain ⟨key, c₀, x, c, q, hkey, hc₀, hx, hq, rfl, rfl⟩ := enter_further_ok h.guest he
    obtain ⟨-, rfl⟩ := onUnit_ok hopen h.guest rfl
    rw [← Array.getElem?_toList, h.chains, getElem?_map] at hc₀
    obtain ⟨started, hw, rfl⟩ := Option.map_eq_some_iff.1 hc₀
    rw [h.home] at hq
    have hc : s.Admits (.continuing key x) := h.admits (.further hkey hx)
    have hperform := perform_reopened hw hq
    have hstarted :
        (s.chains.map (Started.follow q.current.scope started.chain.index c.index))[key]? =
          some (started.follow q.current.scope started.chain.index c.index) := by
      rw [getElem?_map, hw]
      rfl
    have hset : (d.chains.setIfInBounds key c).toList =
        (s.perform (.continuing key x)).chains.map Started.chain := by
      rw [hperform, map_chain_modify hstarted, map_map, Array.toList_setIfInBounds, h.chains]
      refine congrArg (set · key c) (map_congr_left fun u _ => ?_)
      exact (chain_follow u _ _ _).symm
    have hin := h.perform hs hc hset
    rw [show (s.perform (.continuing key x)).recording = q.openBlock by rw [hperform]] at hin
    refine ⟨_, _, .further hkey hx hw hq, hc, ⟨rfl, rfl, rfl, rfl, ?_⟩, hin, rfl, rfl⟩
    rw [getElem?_reopened hw hq]
    rfl

variable {t : Draft} {p : Purpose} {rest : List Purpose} {stmts : List Stmt} {d₁ : Desk}

theorem Mirrors.exit (ht : Mirrors given d t) (hholds : t.Holds) (hp : t.purposes = p :: rest)
    (ho : o.Serves t p) (hclose : on (o.owner here) (·.closeBlock) d = (.ok stmts, d₁))
    (hexit : o.exit here stmts d₁ = (.ok out, d')) :
    Mirrors given d' (t.perform .leave) ∧ d'.registers = d.registers ∧ out.2 = p.item t := by
  obtain ⟨-, rfl, rfl⟩ := on_ok hclose ht.guest (Recording.keeps_closeBlock _).id
  have hleave : t.perform .leave = t.complete rest p := by
    simp only [Draft.perform, hp]
  have hmirror {chains : Array Chain} (hch : chains.toList = (t.complete rest p).chains.map
      Started.chain) : Mirrors given { d with home := (t.complete rest p).recording, chains }
        (t.complete rest p) := by
    rw [← hleave] at hch ⊢
    exact ht.perform hholds (c := .leave) trivial hch
  rw [hleave]
  cases o with
  | first x =>
    cases p with
    | further => exact ho.elim
    | first y =>
      cases ho
      rw [Opened.exit] at hexit
      obtain ⟨c, d₂, hpush, h₂⟩ := bind_ok.1 hexit
      obtain ⟨text, d₃, hdump, h₃⟩ := bind_ok.1 h₂
      obtain ⟨item, hkeep, rfl⟩ := bind_pure_ok.1 h₃
      obtain ⟨-, rfl, rfl⟩ := on_ok hpush ht.guest rfl
      obtain rfl := chainDump_ok hdump ht.guest
      obtain ⟨rfl, rfl⟩ := keepChain_ok hkeep
      rw [ht.home]
      refine ⟨hmirror ?_, rfl, ?_⟩
      · rw [Array.toList_push, ht.chains]
        unfold complete
        rw [map_append]
        rfl
      · rw [Purpose.item, ← Array.length_toList, ht.chains, length_map]
  | further guest key c guard =>
    cases p with
    | first => exact ho.elim
    | further key' index guard' =>
      obtain ⟨rfl, rfl, rfl, rfl, hchain⟩ := ho
      obtain ⟨v, hv, rfl⟩ := Option.map_eq_some_iff.1 hchain
      cases guard with
      | some g =>
        rw [Opened.exit] at hexit
        obtain ⟨_, d₂, hadd, h₂⟩ := bind_ok.1 hexit
        obtain ⟨text, hdump, rfl⟩ := bind_pure_ok.1 h₂
        obtain ⟨-, rfl⟩ := onUnit_ok hadd ht.guest (Recording.keeps_addBranch _ _ _ _).id
        obtain rfl := chainDump_ok hdump ht.guest
        rw [ht.home]
        exact ⟨hmirror ht.chains, rfl, rfl⟩
      | none =>
        rw [Opened.exit] at hexit
        obtain ⟨_, d₂, hadd, h₂⟩ := bind_ok.1 hexit
        obtain ⟨_, d₃, hset, h₃⟩ := bind_ok.1 h₂
        obtain ⟨text, hdump, rfl⟩ := bind_pure_ok.1 h₃
        obtain ⟨-, rfl⟩ := onUnit_ok hadd ht.guest (Recording.keeps_addBranch _ _ _ _).id
        obtain rfl := setChain_ok hset
        obtain rfl := chainDump_ok hdump ht.guest
        rw [ht.home]
        refine ⟨hmirror ?_, rfl, rfl⟩
        rw [Array.toList_setIfInBounds, ht.chains]
        exact (map_chain_modify hv
          fun u => { u with chain := { u.chain with closed := true } }).symm

end

theorem Draft.Owned.ownBlock {own : List String} (ho : Owned own regs s) (h : head.Asks regs c)
    (hb : head.isOwn own = true) : OwnBlock s c := by
  cases h with
  | branch => simp [OwnBlock, Call.continues?]
  | @further r cond key guard hkey hguard =>
    obtain ⟨key', started, hl, hw, hscope⟩ := ho r.name (contains_iff_mem.1 hb)
    have hitem : regs.lookup r.name = some (.chain key) := by
      unfold chain? item? at hkey
      rw [if_neg (by simp [guest_of_chain? hkey])] at hkey
      split at hkey
      next hi =>
        cases hkey
        exact hi
      · cases hkey
    rw [hl] at hitem
    cases hitem
    exact ownBlock_continuing hw hscope guard

theorem Opener.structured_action (head : Opener) (own : List String) (body : List Step) :
    (head.action body).structured own = (head.isOwn own && structured [] body) := by
  cases head with
  | branch => rw [Opener.action, Action.structured, isOwn, Bool.true_and]
  | further r cond => cases cond <;> rw [Opener.action, Action.structured, isOwn]

theorem Mirrors.exit_of_stays {o : Opened} {stmts : List Stmt} {p : Purpose} {d₁ : Desk}
    (ht : Mirrors given d t) (hholds : t.Holds) (hcalls : head.Calls regs s c p)
    (hown : OwnBlock s c) (hstays : (s.perform c).Stays t) (ho : o.Serves (s.perform c) p)
    (hclose : on (o.owner here) (·.closeBlock) d = (.ok stmts, d₁))
    (hexit : o.exit here stmts d₁ = (.ok out, d')) :
    Mirrors given d' (t.perform .leave) ∧ d'.registers = d.registers ∧ out.2 = p.item t :=
  ht.exit hholds (hstays.purposes.trans hcalls.purposes)
    (ho.keep fun _ _ _ hp => by rw [hcalls.kept hown hstays hp]) hclose hexit

theorem Mirrors.takes_head (h : Mirrors given d s) (hs : s.Holds) (hn : s.Nests) {own : List String}
    (ho : Owned own d.registers s) {body : List Step} (hrec : Recorded given here n body)
    (hb : (head.action body).structured own = true)
    (hr : runAction here (head.action body) d = (.ok out, d')) (hlen : n ≤ d.events.length)
    (hdone : d'.DoneSince n) : Takes given (head.action body) d s out.2 d' := by
  obtain ⟨o, d₁, d₂, d₃, d₄, stmts, henter, hopen, hrun, hclose, hexit⟩ := head_ok hr
  have hdone₃ : d₃.DoneSince n := (moves_on _ (by simp)).doneSince hclose <|
    (moves_exit here stmts o).doneSince hexit hdone
  obtain ⟨c, p, hcalls, hc, hserves, hin, hregs, hevents⟩ := h.enter hs henter hopen
  have hm := move_perform hs hc
  rw [head.structured_action, Bool.and_eq_true] at hb
  obtain ⟨hb, hbody⟩ := hb
  have hown := ho.ownBlock hcalls.asks hb
  obtain ⟨t, ht, htook⟩ := hrec [] _ _ _ hbody hrun (hevents ▸ hlen) hdone₃ hin (hm.holds hs)
    (hm.nests hn) (fun _ hname => absurd hname not_mem_nil)
  rw [hregs] at htook
  obtain ⟨hmirror, hregs', hitem⟩ := ht.exit_of_stays (htook.leads.holds (hm.holds hs)) hcalls hown
    (htook.stays (hm.holds hs) (hm.nests hn)) hserves hclose hexit
  refine ⟨t.perform .leave, hmirror, fun i hi => Purpose.held_item (hitem ▸ hi) _,
    fun result tolerant => ?_⟩
  rw [hregs', hitem]
  exact htook.ofHead hcalls hc hown result tolerant

theorem takes_step {result : Option String} {tolerant : Bool}
    (htakes : ∀ out d₁, runAction here action d = (.ok out, d₁) → d₁.DoneSince n →
      Takes given action d s out.2 d₁)
    (hr : runStep here (.mk result tolerant action) d = (.ok u, d')) (hlen : n ≤ d.events.length)
    (hdone : d'.DoneSince n) :
    ∃ s', Mirrors given d' s' ∧
      Took given [.mk result tolerant action] d.registers s d'.registers s' := by
  rcases runStep_cases hr with ⟨text, item, d₁, hact, -, rfl⟩ | ⟨e, d₁, hact, -, rfl⟩ | ⟨i, hi, -⟩
  · obtain ⟨-, hdone₁⟩ := hdone.of_cons
      (Nat.le_trans hlen ((moves_runAction here action).events_le hact))
    obtain ⟨s', hm, hheld, htook⟩ := htakes _ _ hact hdone₁
    exact ⟨s', hm.bind result hheld _, htook result tolerant⟩
  · obtain ⟨hfailed, -⟩ := hdone.of_cons
      (Nat.le_trans hlen ((moves_runAction here action).events_le hact))
    cases hfailed
  · cases hi

end

mutual

theorem performed (given : Given → Option InputTensor) (here : RecordingId) (n : Nat) :
    (action : Action) → Performed given here n action
  | .branch cond body => by
    intro own d d' s out hb hr hlen hdone h hs hn ho
    have hb : ((Opener.branch cond).action body).structured own = true := hb
    exact h.takes_head hs hn ho (recorded given here n body) hb hr hlen hdone
  | .elif chain cond body => by
    intro own d d' s out hb hr hlen hdone h hs hn ho
    have hb : ((Opener.further chain (some cond)).action body).structured own = true := hb
    exact h.takes_head hs hn ho (recorded given here n body) hb hr hlen hdone
  | .otherwise chain body => by
    intro own d d' s out hb hr hlen hdone h hs hn ho
    have hb : ((Opener.further chain none).action body).structured own = true := hb
    exact h.takes_head hs hn ho (recorded given here n body) hb hr hlen hdone
  | .axis p axis => fun _ _ _ _ _ _ hr _ _ h _ _ _ => h.takes_axis hr
  | .inspect t => by
    intro own d d' s out hb hr hlen hdone h hs hn ho
    rw [runAction] at hr
    obtain ⟨tensor, -, h₁⟩ := bind_read_ok given_ok hr
    obtain ⟨rfl, rfl⟩ := pure_ok.1 h₁
    exact h.takes_idle rfl
  | .describe => by
    intro own d d' s out hb hr hlen hdone h hs hn ho
    rw [runAction] at hr
    obtain ⟨r, d₁, hrec, h₁⟩ := bind_ok.1 hr
    obtain ⟨-, -, rfl⟩ := recording_ok h.guest hrec
    obtain ⟨rfl, rfl⟩ := pure_ok.1 h₁
    exact h.takes_idle rfl
  | .ensure true text => by
    intro own d d' s out hb hr hlen hdone h hs hn ho
    rw [runAction, if_pos rfl] at hr
    obtain ⟨rfl, rfl⟩ := pure_ok.1 hr
    exact h.takes_idle rfl
  | .ensure false text => by
    intro own d d' s out hb hr hlen hdone h hs hn ho
    rw [runAction, if_neg Bool.false_ne_true] at hr
    exact absurd hr stop_ne_ok
  | .fail e => by
    intro own d d' s out hb hr hlen hdone h hs hn ho
    rw [runAction] at hr
    exact absurd hr stop_ne_ok
  | .element .. | .constant .. | .unary .. | .binary .. | .cast .. | .output _ | .outputLike _
  | .positionIn _ | .declare .. | .get _ | .assign .. | .update .. | .store .. =>
    fun _ _ _ _ _ _ hr _ _ h hs _ _ => h.takes_leaf hs rfl hr

theorem recorded (given : Given → Option InputTensor) (here : RecordingId) (n : Nat) :
    (steps : List Step) → Recorded given here n steps
  | [] => by
    intro own d d' s hb hr hlen hdone h hs hn ho
    rw [runSteps] at hr
    obtain ⟨-, rfl⟩ := pure_ok.1 hr
    exact ⟨s, h, .nil⟩
  | .mk result tolerant action :: rest => by
    intro own d d' s hb hr hlen hdone h hs hn ho
    rw [structured, Bool.and_eq_true, Step.structured] at hb
    rw [runSteps] at hr
    obtain ⟨_, d₁, hstep, hrest⟩ := bind_ok.1 hr
    obtain ⟨t, ht, htook⟩ := takes_step (fun out d₁ hact hdone₁ =>
      performed given here n action own d d₁ s out hb.1 hact hlen hdone₁ h hs hn ho) hstep hlen
      ((moves_runSteps here rest).doneSince hrest hdone)
    have hl := htook.leads
    obtain ⟨s', hs', htook'⟩ := recorded given here n rest _ d₁ d' t hb.2 hrest
      (Nat.le_trans hlen ((moves_runStep here _).events_le hstep)) hdone ht
      (hl.holds hs) (hl.nests hs hn) (htook.owned hs hn ho)
    exact ⟨s', hs', htook.append htook'⟩

end

end TensorKernel

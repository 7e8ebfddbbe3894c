import TensorKernel.Proofs.Direct.Took
import TensorKernel.Proofs.Draft.Header
import TensorKernel.Proofs.Stateful

/-! Runs that end well. Without a guest every step of a run is on the one recording of the
desk, and what a register gives is what was bound last. -/
namespace TensorKernel

open Run Registers List

variable {id : RecordingId} {c : Chain} {key n : Nat} {u : Unit} {i : Item}

namespace Run

variable {α β : Type} {d d' : Desk}

theorem bind_ok {x : Run α} {f : α → Run β} {b : β} :
    (x >>= f) d = (.ok b, d') ↔ ∃ a d₁, x d = (.ok a, d₁) ∧ f a d₁ = (.ok b, d') := run_bind_ok

theorem pure_ok {a b : α} : (pure a : Run α) d = (.ok b, d') ↔ a = b ∧ d = d' := by
  change ((Except.ok a : Except Interrupt α), d) = _ ↔ _
  simp

theorem bind_pure_ok {x : Run α} {f : α → β} {b : β} :
    (x >>= fun a => pure (f a)) d = (.ok b, d') ↔ ∃ a, x d = (.ok a, d') ∧ f a = b := by
  rw [bind_ok]
  refine exists_congr fun a => ⟨?_, fun ⟨ha, hb⟩ => ⟨d', ha, pure_ok.2 ⟨hb, rfl⟩⟩⟩
  rintro ⟨d₁, ha, hb⟩
  obtain ⟨rfl, rfl⟩ := pure_ok.1 hb
  exact ⟨ha, rfl⟩

theorem bind_read_ok {x : Run α} {f : α → Run β} {P : α → Prop} {b : β}
    (hx : ∀ {a d₁}, x d = (.ok a, d₁) → P a ∧ d₁ = d) (h : (x >>= f) d = (.ok b, d')) :
    ∃ a, P a ∧ f a d = (.ok b, d') := by
  obtain ⟨a, d₁, ha, hf⟩ := bind_ok.1 h
  obtain ⟨hp, rfl⟩ := hx ha
  exact ⟨a, hp, hf⟩

theorem get_ok {b : Desk} : (get : Run Desk) d = (.ok b, d') ↔ d = b ∧ d = d' := by
  change ((Except.ok d : Except Interrupt Desk), d) = _ ↔ _
  simp

theorem modify_ok {f : Desk → Desk} {u : PUnit} :
    (modify f : Run PUnit) d = (.ok u, d') ↔ f d = d' := by
  change ((Except.ok PUnit.unit : Except Interrupt PUnit), f d) = _ ↔ _
  simp

theorem stop_ne_ok {i : Interrupt} {a : α} : (stop i : Run α) d ≠ (.ok a, d') := by
  change ((Except.error i : Except Interrupt α), d) ≠ _
  simp

theorem orMalformed_ok {o : Option α} {a : α} :
    orMalformed o d = (.ok a, d') ↔ o = some a ∧ d = d' := by
  cases o with
  | none => simp [orMalformed, stop_ne_ok]
  | some b => simp [orMalformed, pure_ok]

theorem lift_ok {x : Except CaptureError α} {a : α} :
    lift x d = (.ok a, d') ↔ x = .ok a ∧ d = d' := by
  cases x with
  | error e => simp [lift, stop_ne_ok]
  | ok b => simp [lift, pure_ok]

theorem settle_ok {x : Except Error α} {a : α} :
    settle x d = (.ok a, d') ↔ x = .ok a ∧ d = d' := by
  cases x with
  | error e => simp [settle, stop_ne_ok]
  | ok b => simp [settle, pure_ok]

theorem attempt_ok {x : Run α} {a : α} (h : attempt x d = (.ok (.ok a), d')) :
    x d = (.ok a, d') := by
  unfold attempt at h
  split at h
  next hx =>
    cases h
    exact hx
  · cases h
  · cases h

theorem mapM_ok {f : α → Run β} {g : α → Option β}
    (hf : ∀ a b d', f a d = (.ok b, d') → g a = some b ∧ d' = d) {as : List α} {bs : List β}
    (h : as.mapM f d = (.ok bs, d')) : as.mapM g = some bs ∧ d' = d := by
  induction as generalizing bs d' with
  | nil =>
    obtain ⟨rfl, rfl⟩ := pure_ok.1 h
    exact ⟨rfl, rfl⟩
  | cons a rest ih =>
    rw [mapM_cons] at h
    obtain ⟨b, d₁, hb, hk⟩ := bind_ok.1 h
    obtain ⟨hb, hd⟩ := hf a b d₁ hb
    rw [hd] at hk
    obtain ⟨bs', d₂, hbs, hk⟩ := bind_ok.1 hk
    obtain ⟨hbs, hd⟩ := ih hbs
    obtain ⟨rfl, rfl⟩ := pure_ok.1 hk
    refine ⟨?_, hd⟩
    rw [mapM_cons, hb, hbs]
    rfl

theorem setRecording_ok {r : Recording} (hr : r.id = d.home.id) (h : setRecording r d = (.ok u, d')) :
    d' = { d with home := r } := by
  have he := modify_ok.1 h
  rw [if_pos hr.symm] at he
  exact he.symm

section
variable (hg : d.guest = none)
include hg

theorem recording_ok {r : Recording} (h : recording id d = (.ok r, d')) :
    d.home.id = id ∧ r = d.home ∧ d' = d := by
  unfold recording at h
  obtain ⟨d₀, d₁, h₀, h⟩ := bind_ok.1 h
  obtain ⟨rfl, rfl⟩ := get_ok.1 h₀
  split at h
  next hid =>
    obtain ⟨rfl, rfl⟩ := pure_ok.1 h
    exact ⟨hid, rfl, rfl⟩
  · rw [hg] at h
    exact absurd h stop_ne_ok

end

theorem on_ok {id : RecordingId} {f : Recording → α × Recording} {a : α}
    (h : on id f d = (.ok a, d')) (hg : d.guest = none) (hf : (f d.home).2.id = d.home.id) :
    d.home.id = id ∧ a = (f d.home).1 ∧ d' = { d with home := (f d.home).2 } := by
  unfold on at h
  obtain ⟨r, d₁, h₁, h⟩ := bind_ok.1 h
  obtain ⟨hid, rfl, rfl⟩ := recording_ok hg h₁
  obtain ⟨u, d₂, h₂, h⟩ := bind_ok.1 h
  obtain rfl := setRecording_ok hf h₂
  obtain ⟨rfl, rfl⟩ := pure_ok.1 h
  exact ⟨hid, rfl, rfl⟩

theorem onUnit_ok {f : Recording → Recording} (h : onUnit id f d = (.ok u, d'))
    (hg : d.guest = none) (hf : (f d.home).id = d.home.id) :
    d.home.id = id ∧ d' = { d with home := f d.home } := by
  obtain ⟨hid, -, hd⟩ := on_ok h hg hf
  exact ⟨hid, hd⟩

theorem onFallible_ok {id : RecordingId} {f : Recording → Except CaptureError (α × Recording)}
    {a : α} (h : onFallible id f d = (.ok a, d')) (hg : d.guest = none)
    (hf : ∀ p, f d.home = .ok p → p.2.id = d.home.id) :
    d.home.id = id ∧ ∃ r, f d.home = .ok (a, r) ∧ d' = { d with home := r } := by
  unfold onFallible at h
  obtain ⟨r, d₁, h₁, h⟩ := bind_ok.1 h
  obtain ⟨hid, rfl, rfl⟩ := recording_ok hg h₁
  obtain ⟨⟨b, r⟩, d₂, h₂, h⟩ := bind_ok.1 h
  obtain ⟨hb, rfl⟩ := lift_ok.1 h₂
  obtain ⟨u, d₃, h₃, h⟩ := bind_ok.1 h
  obtain rfl := setRecording_ok (hf _ hb) h₃
  obtain ⟨rfl, rfl⟩ := pure_ok.1 h
  exact ⟨hid, r, hb, rfl⟩

section
variable (hg : d.guest = none)
include hg

theorem item_ok {x : Register} (h : item x d = (.ok i, d')) :
    item? d.registers x = some i ∧ d' = d := by
  unfold item at h
  obtain ⟨d₀, d₁, h₀, h⟩ := bind_ok.1 h
  obtain ⟨rfl, rfl⟩ := get_ok.1 h₀
  obtain ⟨hi, rfl⟩ := orMalformed_ok.1 h
  refine ⟨?_, rfl⟩
  rw [hg] at hi
  unfold item?
  split at hi
  · cases hi
  next hguest => rwa [if_neg hguest]

theorem expr_ok {x : Register} {e : Expr} (h : expr x d = (.ok e, d')) :
    expr? d.registers x = some e ∧ d' = d := by
  obtain ⟨i, hi, hk⟩ := bind_read_ok (item_ok hg) h
  split at hk
  · obtain ⟨rfl, rfl⟩ := pure_ok.1 hk
    exact ⟨by rw [expr?, hi], rfl⟩
  · exact absurd hk stop_ne_ok

theorem position_ok {x : Register} {p : Position} (h : position x d = (.ok p, d')) :
    position? d.registers x = some p ∧ d' = d := by
  obtain ⟨i, hi, hk⟩ := bind_read_ok (item_ok hg) h
  split at hk
  · obtain ⟨rfl, rfl⟩ := pure_ok.1 hk
    exact ⟨by rw [position?, hi], rfl⟩
  · exact absurd hk stop_ne_ok

theorem outputTensor_ok {x : Register} {t : OutputTensor} (h : outputTensor x d = (.ok t, d')) :
    output? d.registers x = some t ∧ d' = d := by
  obtain ⟨i, hi, hk⟩ := bind_read_ok (item_ok hg) h
  split at hk
  · obtain ⟨rfl, rfl⟩ := pure_ok.1 hk
    exact ⟨by rw [output?, hi], rfl⟩
  · exact absurd hk stop_ne_ok

theorem slot_ok {x : Register} {v : Variable} (h : slot x d = (.ok v, d')) :
    slot? d.registers x = some v ∧ d' = d := by
  obtain ⟨i, hi, hk⟩ := bind_read_ok (item_ok hg) h
  split at hk
  · obtain ⟨rfl, rfl⟩ := pure_ok.1 hk
    exact ⟨by rw [slot?, hi], rfl⟩
  · exact absurd hk stop_ne_ok

theorem chainKey_ok {x : Register} (h : chainKey x d = (.ok key, d')) :
    chain? d.registers x = some key ∧ d' = d := by
  obtain ⟨i, hi, hk⟩ := bind_read_ok (item_ok hg) h
  split at hk
  · obtain ⟨rfl, rfl⟩ := pure_ok.1 hk
    exact ⟨by rw [chain?, hi], rfl⟩
  · exact absurd hk stop_ne_ok

theorem operand_ok {a : Argument} {o : Operand} (h : operand a d = (.ok o, d')) :
    operand? d.registers a = some o ∧ d' = d := by
  cases a with
  | literal v =>
    obtain ⟨rfl, rfl⟩ := pure_ok.1 h
    exact ⟨rfl, rfl⟩
  | register x =>
    obtain ⟨e, he, hk⟩ := bind_read_ok (expr_ok hg) h
    obtain ⟨rfl, rfl⟩ := pure_ok.1 hk
    exact ⟨by rw [operand?, he]; rfl, rfl⟩

theorem subscript_ok {place : Subscript} {os : List Operand}
    (h : subscript place d = (.ok os, d')) :
    subscript? d.registers place = some os ∧ d' = d := by
  cases place with
  | position x =>
    obtain ⟨p, hp, hk⟩ := bind_read_ok (position_ok hg) h
    obtain ⟨rfl, rfl⟩ := pure_ok.1 hk
    exact ⟨by rw [subscript?, hp]; rfl, rfl⟩
  | indices args => exact mapM_ok (fun a o d' h => operand_ok hg h) h

end

end Run

def Desk.given? (d : Desk) : Given → Option InputTensor
  | .input k => d.inputs[k]?
  | .gradient k => d.gradients[k]?

namespace Run
variable {d d' : Desk}

theorem given_ok {t : Given} {tensor : InputTensor} (h : given t d = (.ok tensor, d')) :
    d.given? t = some tensor ∧ d' = d := by
  cases t with
  | input k | gradient k =>
    obtain ⟨d₀, d₁, h₀, h⟩ := bind_ok.1 h
    obtain ⟨rfl, rfl⟩ := get_ok.1 h₀
    obtain ⟨hk, rfl⟩ := orMalformed_ok.1 h
    exact ⟨hk, rfl⟩

theorem model_ok (hg : d.guest = none) {m : Model} {type : TensorType}
    (h : model m d = (.ok type, d')) : modelType? d.given? d.registers m = some type ∧ d' = d := by
  cases m with
  | given t =>
    obtain ⟨tensor, ht, hk⟩ := bind_read_ok given_ok h
    obtain ⟨rfl, rfl⟩ := pure_ok.1 hk
    exact ⟨by rw [modelType?, ht]; rfl, rfl⟩
  | output x =>
    obtain ⟨t, ht, hk⟩ := bind_read_ok (outputTensor_ok hg) h
    obtain ⟨rfl, rfl⟩ := pure_ok.1 hk
    exact ⟨by rw [modelType?, ht]; rfl, rfl⟩
  | type t =>
    obtain ⟨rfl, rfl⟩ := pure_ok.1 h
    exact ⟨rfl, rfl⟩

theorem chain_ok (h : chain false key d = (.ok c, d')) : d.chains[key]? = some c ∧ d' = d := by
  obtain ⟨d₀, d₁, h₀, hk⟩ := bind_ok.1 h
  obtain ⟨rfl, rfl⟩ := get_ok.1 h₀
  obtain ⟨hc, rfl⟩ := orMalformed_ok.1 hk
  exact ⟨hc, rfl⟩

theorem setChain_ok (h : setChain false key c d = (.ok u, d')) :
    d' = { d with chains := d.chains.setIfInBounds key c } :=
  (modify_ok.1 h).symm

theorem keepChain_ok (h : keepChain c d = (.ok i, d')) :
    i = .chain d.chains.size ∧ d' = { d with chains := d.chains.push c } := by
  obtain ⟨d₀, d₁, h₀, hk⟩ := bind_ok.1 h
  obtain ⟨rfl, rfl⟩ := get_ok.1 h₀
  obtain ⟨_, h₂, rfl⟩ := bind_pure_ok.1 hk
  exact ⟨rfl, (modify_ok.1 h₂).symm⟩

end Run

theorem chainDump_ok {d d' : Desk} {c : Chain} {text : String}
    (h : chainDump c d = (.ok text, d')) (hg : d.guest = none) : d' = d := by
  obtain ⟨r, d₁, hr, hk⟩ := bind_ok.1 h
  obtain ⟨-, -, rfl⟩ := recording_ok hg hr
  obtain ⟨-, rfl⟩ := pure_ok.1 hk
  rfl

theorem reopened_ok {d d' : Desk} {x : Except Refusal Chain} (h : reopened x d = (.ok c, d')) :
    x = .ok c ∧ d' = d := by
  rcases x with (e | _) | c'
  · exact absurd h stop_ne_ok
  · exact absurd h stop_ne_ok
  · obtain ⟨rfl, rfl⟩ := pure_ok.1 h
    exact ⟨rfl, rfl⟩

theorem inBlock_ok {d d' : Desk} {body : Run Unit} {stmts : List Stmt}
    (h : inBlock id body d = (.ok stmts, d')) :
    ∃ d₁ d₂, onUnit id (·.openBlock) d = (.ok (), d₁) ∧ body d₁ = (.ok (), d₂) ∧
      on id (·.closeBlock) d₂ = (.ok stmts, d') := by
  obtain ⟨_, d₁, hopen, h₁⟩ := bind_ok.1 h
  obtain ⟨result, d₂, hbody, h₂⟩ := bind_ok.1 h₁
  obtain ⟨stmts', d₃, hclose, h₃⟩ := bind_ok.1 h₂
  obtain ⟨_, d₄, hsettle, h₄⟩ := bind_ok.1 h₃
  obtain ⟨rfl, rfl⟩ := settle_ok.1 hsettle
  obtain ⟨rfl, rfl⟩ := pure_ok.1 h₄
  exact ⟨d₁, d₂, hopen, attempt_ok hbody, hclose⟩

theorem runStep_cases {here : RecordingId} {result : Option String} {tolerant : Bool}
    {action : Action} {d d' : Desk} {r : Except Interrupt Unit}
    (h : runStep here (.mk result tolerant action) d = (r, d')) :
    (∃ text item d₁, runAction here action d = (.ok (text, item), d₁) ∧ r = .ok () ∧
        d' = { d₁ with
          registers := d₁.registers.bind result item, events := .done text :: d₁.events }) ∨
      (∃ e d₁, runAction here action d = (.error (.failed e), d₁) ∧
        r = (if tolerant then .ok () else .error (.failed e)) ∧
        d' = { d₁ with events := .failed e :: d₁.events }) ∨
      ∃ i, r = .error i ∧ ∀ e, i ≠ .failed e := by
  rw [runStep, run_bind, attempt] at h
  rcases hact : runAction here action d with ⟨i | ⟨text, item⟩, d₁⟩
  · rw [hact] at h
    cases i with
    | failed e =>
      refine .inr (.inl ⟨e, d₁, rfl, ?_⟩)
      cases tolerant <;> cases h <;> exact ⟨rfl, rfl⟩
    | crashed | malformed =>
      cases h
      exact .inr (.inr ⟨_, rfl, fun _ he => by cases he⟩)
  · rw [hact] at h
    refine .inl ⟨text, item, d₁, rfl, ?_⟩
    cases result <;> cases item <;> cases h <;> exact ⟨rfl, rfl⟩

def Event.isDone : Event → Bool
  | .done _ => true
  | .failed _ => false

def Desk.AllDone (d : Desk) : Prop := ∀ e ∈ d.events, e.isDone = true

/-- None has failed of those after the first `n`. -/
def Desk.DoneSince (n : Nat) (d : Desk) : Prop :=
  ∀ e ∈ d.events.take (d.events.length - n), e.isDone = true

instance (d : Desk) : Decidable d.AllDone := inferInstanceAs (Decidable (∀ e ∈ d.events, _))

instance (n : Nat) (d : Desk) : Decidable (d.DoneSince n) :=
  inferInstanceAs (Decidable (∀ e ∈ d.events.take (d.events.length - n), _))

theorem Desk.AllDone.since {d : Desk} (h : d.AllDone) (n : Nat) : d.DoneSince n :=
  fun e he => h e (mem_of_mem_take he)

theorem Desk.DoneSince.of_cons {d : Desk} {e : Event}
    (h : Desk.DoneSince n { d with events := e :: d.events }) (hn : n ≤ d.events.length) :
    e.isDone = true ∧ d.DoneSince n := by
  have hsucc : (e :: d.events).length - n = d.events.length - n + 1 := by
    rw [length_cons]
    omega
  have hall : ∀ x ∈ (e :: d.events).take ((e :: d.events).length - n), x.isDone = true := h
  rw [hsucc, take_succ_cons] at hall
  exact ⟨hall e mem_cons_self, fun x hx => hall x (mem_cons_of_mem _ hx)⟩

/-! What a run does to its desk, however it ends. -/

namespace Run

/-- A relation between a desk and all that a script can make of it. Recordings change, but stay
the ones they were. -/
class Steady (R : Desk → Desk → Prop) : Prop extends Std.Refl R, IsTrans Desk R where
  home : ∀ (d : Desk) (r : Recording), r.header = d.home.header → R d { d with home := r }
  guest : ∀ (d : Desk) (f : Guest → Guest), R d { d with guest := d.guest.map f }
  registers : ∀ (d : Desk) (registers : Registers), R d { d with registers }
  chains : ∀ (d : Desk) (chains : Array Chain), R d { d with chains }
  log : ∀ (d : Desk) (e : Event), R d { d with events := e :: d.events }

section
variable {α : Type} {R : Desk → Desk → Prop} [Steady R]

@[simp] theorem moves_stop (i : Interrupt) : Moves R (stop i : Run α) := moves_throw i

omit [Steady R] in
@[simp] theorem moves_attempt {x : Run α} (hx : Moves R x) : Moves R (attempt x) := by
  intro d
  unfold Run.attempt
  have hd := hx d
  revert hd
  rcases x d with ⟨e | a, d₁⟩
  · cases e <;> exact fun hd => hd
  · exact fun hd => hd

@[simp] theorem moves_orMalformed (o : Option α) : Moves R (orMalformed o) := by
  cases o <;> simp [orMalformed]

@[simp] theorem moves_settle (x : Except Error α) : Moves R (settle x) := by
  cases x <;> simp [settle]

@[simp] theorem moves_recording (id : RecordingId) : Moves R (recording id) := by
  refine moves_get.bind fun d => ?_
  split
  · exact moves_pure _
  · split
    · split <;> simp
    · exact moves_stop _

theorem recording_cases (id : RecordingId) (d : Desk) :
    (∃ e, recording id d = (.error e, d)) ∨ recording id d = (.ok d.home, d) ∨
      ∃ r, recording id d = (.ok r, d) ∧ d.home.id ≠ r.id := by
  unfold recording
  rw [run_bind]
  change (∃ e, (if d.home.id = id then _ else _ : Run Recording) d = _) ∨
    (if d.home.id = id then _ else _ : Run Recording) d = _ ∨
    ∃ r, (if d.home.id = id then _ else _ : Run Recording) d = _ ∧ _
  by_cases hid : d.home.id = id
  · rw [if_pos hid]
    exact .inr (.inl rfl)
  · rw [if_neg hid]
    cases d.guest with
    | none => exact .inl ⟨_, rfl⟩
    | some g =>
      by_cases hg : g.recording.id = id
      · rw [← hg] at hid
        refine .inr (.inr ⟨g.recording, ?_, hid⟩)
        simp only [if_pos hg]
        rfl
      · refine .inl ⟨.malformed, ?_⟩
        simp only [if_neg hg]
        rfl

theorem moves_onFallible (id : RecordingId) {f : Recording → Except CaptureError (α × Recording)}
    (hf : ∀ r p, f r = .ok p → p.2.header = r.header) : Moves R (onFallible id f) := by
  intro d
  have hset (r : Recording) (hr : recording id d = (.ok r, d)) (e : CaptureError)
      (he : f r = .error e) : (onFallible id f d).2 = d := by
    rw [onFallible, run_bind, hr]
    simp only [he]
    rfl
  have hput (r : Recording) (hr : recording id d = (.ok r, d)) (p : α × Recording)
      (hp : f r = .ok p) : (onFallible id f d).2 = (setRecording p.2 d).2 := by
    rw [onFallible, run_bind, hr]
    simp only [hp]
    rfl
  rcases recording_cases id d with ⟨e, he⟩ | hr | ⟨r, hr, hne⟩
  · rw [onFallible, run_bind, he]
    exact Std.Refl.refl d
  · cases hp : f d.home with
    | error e =>
      rw [hset _ hr e hp]
      exact Std.Refl.refl d
    | ok p =>
      have hheader := hf _ p hp
      have hid : p.2.id = d.home.id := congrArg Prod.fst hheader
      rw [hput _ hr p hp]
      change R d (if d.home.id = p.2.id then _ else _)
      rw [if_pos hid.symm]
      exact Steady.home d p.2 hheader
  · cases hp : f r with
    | error e =>
      rw [hset _ hr e hp]
      exact Std.Refl.refl d
    | ok p =>
      have hid : p.2.id = r.id := congrArg Prod.fst (hf _ p hp)
      rw [hput _ hr p hp]
      change R d (if d.home.id = p.2.id then _ else _)
      rw [if_neg (hid ▸ hne)]
      exact Steady.guest d _

@[simp] theorem moves_on (id : RecordingId) {f : Recording → α × Recording}
    (hf : ∀ r, (f r).2.header = r.header) : Moves R (on id f) := by
  refine moves_onFallible id (f := fun r => .ok (f r)) ?_
  intro r p hp
  cases hp
  exact hf r

@[simp] theorem moves_onUnit (id : RecordingId) {f : Recording → Recording}
    (hf : ∀ r, (f r).header = r.header) : Moves R (onUnit id f) :=
  moves_on id hf

@[simp] theorem moves_item (x : Register) : Moves R (item x) := by
  simp [item]

@[simp] theorem moves_expr (x : Register) : Moves R (expr x) :=
  (moves_item x).bind fun i => by cases i <;> simp

@[simp] theorem moves_position (x : Register) : Moves R (position x) :=
  (moves_item x).bind fun i => by cases i <;> simp

@[simp] theorem moves_outputTensor (x : Register) : Moves R (outputTensor x) :=
  (moves_item x).bind fun i => by cases i <;> simp

@[simp] theorem moves_slot (x : Register) : Moves R (slot x) :=
  (moves_item x).bind fun i => by cases i <;> simp

@[simp] theorem moves_chainKey (x : Register) : Moves R (chainKey x) :=
  (moves_item x).bind fun i => by cases i <;> simp

@[simp] theorem moves_operand (a : Argument) : Moves R (operand a) := by
  cases a <;> simp [operand]

@[simp] theorem moves_subscript (place : Subscript) : Moves R (subscript place) := by
  cases place with
  | position x => simp [subscript]
  | indices args => exact .mapM moves_operand args

@[simp] theorem moves_given (t : Given) : Moves R (given t) := by
  cases t <;> simp [given]

@[simp] theorem moves_model (m : Model) : Moves R (model m) := by
  cases m <;> simp [model]

@[simp] theorem moves_chain (guest : Bool) (key : Nat) : Moves R (chain guest key) := by
  simp [chain]

@[simp] theorem moves_setChain (guest : Bool) (key : Nat) (c : Chain) :
    Moves R (setChain guest key c) := by
  refine moves_modify fun d => ?_
  split
  · exact Steady.guest d _
  · exact Steady.chains d _

@[simp] theorem moves_keepChain (c : Chain) : Moves R (keepChain c) := by
  refine moves_get.bind fun _ => .bind ?_ fun _ => moves_pure _
  exact moves_modify fun d => Steady.chains d _

@[simp] theorem moves_log (e : Event) : Moves R (log e) := moves_modify fun d => Steady.log d e

@[simp] theorem moves_bindRegister (name : String) (i : Item) : Moves R (bindRegister name i) :=
  moves_modify fun d => Steady.registers d _

end
end Run

section
variable {R : Desk → Desk → Prop} [Steady R]

@[simp] theorem moves_chainDump (c : Chain) : Moves R (chainDump c) := by
  simp [chainDump]

@[simp] theorem moves_runBinary (op : BinaryOp) (lhs rhs : Operand) :
    Moves R (runBinary op lhs rhs) := by
  cases lhs <;> cases rhs <;> simp [runBinary]

@[simp] theorem moves_reopened (x : Except Refusal Chain) : Moves R (reopened x) := by
  rcases x with (_ | _) | _ <;> simp [reopened]

@[simp] theorem moves_inBlock (id : RecordingId) {body : Run Unit} (hb : Moves R body) :
    Moves R (inBlock id body) :=
  (moves_onUnit id (by simp)).bind fun _ => (moves_attempt hb).bind fun result =>
    (moves_on id (by simp)).bind fun _ => (moves_settle result).bind fun _ => moves_pure _

mutual

theorem moves_runAction (here : RecordingId) : (action : Action) → Moves R (runAction here action)
  | .branch cond body =>
    (moves_expr cond).bind fun _ => (moves_onUnit here (by simp)).bind fun _ =>
      (moves_inBlock here (moves_runSteps here body)).bind fun _ =>
        (moves_on here (by simp)).bind fun c => (moves_chainDump c).bind fun _ =>
          (moves_keepChain c).bind fun _ => moves_pure _
  | .elif r cond body =>
    (moves_chainKey r).bind fun _ => (moves_chain _ _).bind fun _ => (moves_expr cond).bind fun _ =>
      (moves_on _ (by simp)).bind fun _ => (moves_reopened _).bind fun c =>
        (moves_setChain _ _ _).bind fun _ =>
          (moves_inBlock _ (moves_runSteps here body)).bind fun _ =>
            (moves_onUnit _ (by simp)).bind fun _ => (moves_chainDump c).bind fun _ => moves_pure _
  | .otherwise r body =>
    (moves_chainKey r).bind fun _ => (moves_chain _ _).bind fun _ =>
      (moves_on _ (by simp)).bind fun _ => (moves_reopened _).bind fun _ =>
        (moves_setChain _ _ _).bind fun _ =>
          (moves_inBlock _ (moves_runSteps here body)).bind fun _ =>
            (moves_onUnit _ (by simp)).bind fun _ => (moves_setChain _ _ _).bind fun _ =>
              (moves_chainDump _).bind fun _ => moves_pure _
  | .axis p axis => by
    refine (moves_position p).bind fun p => ?_
    split <;> simp
  | .ensure holds text => by
    cases holds <;> simp [runAction]
  | .element t place =>
    (moves_given t).bind fun _ => (moves_subscript place).bind fun _ => by simp
  | .unary _ arg | .cast arg _ => (moves_expr arg).bind fun _ => by simp
  | .binary op lhs rhs => (moves_operand lhs).bind fun _ => by simp
  | .outputLike m =>
    (moves_model m).bind fun _ => (moves_on here fun _ => rfl).bind fun _ => moves_pure _
  | .declare init _ => (moves_operand init).bind fun _ => by simp
  | .get v => (moves_slot v).bind fun _ => by simp
  | .assign v value | .update v _ value =>
    (moves_slot v).bind fun _ => (moves_operand value).bind fun _ => by simp
  | .store t place value =>
    (moves_outputTensor t).bind fun _ => (moves_subscript place).bind fun _ =>
      (moves_operand value).bind fun _ => by simp
  | .output _ =>
    (moves_onFallible here fun _ _ => Recording.header_output).bind fun _ => moves_pure _
  | .positionIn _ =>
    (moves_onFallible here fun _ _ => Recording.header_positionIn).bind fun _ => moves_pure _
  | .inspect _ | .describe | .constant .. | .fail _ => by simp [runAction]

theorem moves_runStep (here : RecordingId) : (step : Step) → Moves R (runStep here step)
  | .mk result tolerant action => by
    refine (moves_attempt (moves_runAction here action)).bind fun r => ?_
    rcases r with e | ⟨text, item⟩
    · refine (moves_log _).bind fun _ => ?_
      cases tolerant <;> simp
    · refine (moves_log _).bind fun _ => ?_
      cases result <;> cases item <;> simp

theorem moves_runSteps (here : RecordingId) : (steps : List Step) → Moves R (runSteps here steps)
  | [] => moves_pure ()
  | step :: rest => (moves_runStep here step).bind fun _ => moves_runSteps here rest

end

theorem moves_script (s : Script) (here : RecordingId) : Moves R (s.run here) :=
  (moves_runSteps here s.body).bind fun _ => .mapM moves_outputTensor s.returns

end

/-! What was logged stays logged. -/

namespace Run

def Logged (d d' : Desk) : Prop := d.events <:+ d'.events

instance : Steady Logged where
  refl _ := suffix_rfl
  trans _ _ _ := IsSuffix.trans
  home _ _ _ := suffix_rfl
  guest _ _ := suffix_rfl
  registers _ _ := suffix_rfl
  chains _ _ := suffix_rfl
  log _ _ := suffix_cons ..

end Run

section
variable {α : Type} {x : Run α} {r : Except Interrupt α} {d d' : Desk}

theorem Moves.allDone (hx : Moves Logged x) (h : x d = (r, d')) (hd : d'.AllDone) : d.AllDone := by
  have he := hx d
  rw [h] at he
  exact fun e hm => hd e (he.subset hm)

theorem Moves.doneSince (hx : Moves Logged x) (h : x d = (r, d')) (hd : d'.DoneSince n) :
    d.DoneSince n := by
  have he := hx d
  rw [h] at he
  obtain ⟨later, hlater⟩ := he
  intro e hm
  refine hd e ?_
  have hlt : n < d.events.length := Nat.lt_of_sub_pos (Nat.pos_of_ne_zero fun h0 => by
    rw [h0, take_zero] at hm
    cases hm)
  have hlen : d'.events.length - n = later.length + (d.events.length - n) := by
    rw [← hlater, length_append]
    omega
  rw [hlen, ← hlater, take_length_add_append]
  exact mem_append_right _ hm

theorem Moves.events_le (hx : Moves Logged x) (h : x d = (r, d')) :
    d.events.length ≤ d'.events.length := by
  have he := hx d
  rw [h] at he
  exact he.length_le

end

end TensorKernel

import Mathlib.Order.Defs.Unbundled
import TensorKernel.Proofs.Outcome

/-! Steps with a state. What they change stays changed when they fail, so a statement about the
state after a step holds however the step ends. -/
namespace TensorKernel

section
variable {ε S α β : Type} {s s' : S}

theorem run_bind (x : ExceptT ε (StateM S) α) (f : α → ExceptT ε (StateM S) β) (s : S) :
    (x >>= f) s =
      match x s with
      | (.ok a, s') => f a s'
      | (.error e, s') => (.error e, s') := by
  change (match x s with | (a, s) => ExceptT.bindCont f a s) = _
  rcases x s with ⟨a | a, s'⟩ <;> rfl

theorem run_bind_ok {x : ExceptT ε (StateM S) α} {f : α → ExceptT ε (StateM S) β} {b : β} :
    (x >>= f) s = (.ok b, s') ↔ ∃ a s₁, x s = (.ok a, s₁) ∧ f a s₁ = (.ok b, s') := by
  rw [run_bind]
  rcases x s with ⟨e | a, s₁⟩
  · refine ⟨fun h => (by cases h), ?_⟩
    rintro ⟨_, _, h, -⟩
    cases h
  · refine ⟨fun h => ⟨a, s₁, rfl, h⟩, ?_⟩
    rintro ⟨_, _, h, h'⟩
    cases h
    exact h'

theorem run_map_ok {x : ExceptT ε (StateM S) α} {f : α → β} {b : β}
    (h : ((f <$> x) s).1 = .ok b) : ∃ a, (x s).1 = .ok a ∧ f a = b := by
  rw [← bind_pure_comp, run_bind] at h
  revert h
  rcases x s with ⟨e | a, s₁⟩
  · intro h
    cases h
  · intro h
    exact ⟨a, rfl, Except.ok.inj h⟩

end

/-! ### Moves of the state -/

/-- A step takes each state to one that it is related to. -/
def Moves {ε S α : Type} (R : S → S → Prop) (x : ExceptT ε (StateM S) α) : Prop :=
  ∀ s, R s (x s).2

section
variable {ε S α β : Type} {R : S → S → Prop} {x : ExceptT ε (StateM S) α}
  {f : α → ExceptT ε (StateM S) β}

@[simp] theorem moves_pure [Std.Refl R] (a : α) : Moves R (pure a : ExceptT ε (StateM S) α) :=
  Std.Refl.refl

@[simp] theorem moves_throw [Std.Refl R] (e : ε) : Moves R (throw e : ExceptT ε (StateM S) α) :=
  Std.Refl.refl

@[simp] theorem moves_get [Std.Refl R] : Moves R (get : ExceptT ε (StateM S) S) := Std.Refl.refl

theorem moves_modify {f : S → S} (hf : ∀ s, R s (f s)) :
    Moves R (modify f : ExceptT ε (StateM S) PUnit) := hf

@[simp] theorem Moves.bind [IsTrans S R] (hx : Moves R x) (hf : ∀ a, Moves R (f a)) :
    Moves R (x >>= f) := by
  intro s
  rw [run_bind]
  have hs := hx s
  revert hs
  rcases x s with ⟨e | a, s₁⟩
  · exact fun hs => hs
  · exact fun hs => IsTrans.trans _ _ _ hs (hf a s₁)

theorem Moves.after [Std.Refl R] (x : ExceptT ε (StateM S) α) (hf : ∀ a, Moves R (f a)) (s : S) :
    R (x s).2 ((x >>= f) s).2 := by
  rw [run_bind]
  rcases x s with ⟨e | a, s₁⟩
  · exact Std.Refl.refl s₁
  · exact hf a s₁

@[simp] theorem Moves.map [Std.Refl R] [IsTrans S R] {f : α → β} (hx : Moves R x) :
    Moves R (f <$> x) := by
  rw [← bind_pure_comp]
  exact hx.bind fun a => moves_pure (f a)

theorem Moves.mapM [Std.Refl R] [IsTrans S R] (hf : ∀ a, Moves R (f a)) (as : List α) :
    Moves R (as.mapM f) := by
  induction as with
  | nil => exact moves_pure []
  | cons a rest ih =>
    rw [List.mapM_cons]
    exact (hf a).bind fun b => ih.bind fun bs => moves_pure (b :: bs)

end

/-! ### Moves with a result -/

/-- From states of `P` a step moves along `R`, and what it gives comes with `Q`. -/
def Runs {ε S α : Type} (R : S → S → Prop) (P : S → Prop) (x : ExceptT ε (StateM S) α)
    (Q : α → S → Prop) : Prop :=
  ∀ s, P s → R s (x s).2 ∧ ∀ a, (x s).1 = .ok a → Q a (x s).2

section
variable {ε S α β : Type} {R : S → S → Prop} {P P' : S → Prop} {x : ExceptT ε (StateM S) α}
  {f : α → ExceptT ε (StateM S) β} {Q Q' : α → S → Prop}

theorem runs_pure [Std.Refl R] {a : α} (h : ∀ s, P s → Q a s) :
    Runs R P (pure a : ExceptT ε (StateM S) α) Q := by
  intro s hs
  refine ⟨Std.Refl.refl s, ?_⟩
  rintro b ⟨⟩
  exact h s hs

theorem runs_throw [Std.Refl R] {e : ε} : Runs R P (throw e : ExceptT ε (StateM S) α) Q :=
  fun s _ => ⟨Std.Refl.refl s, fun _ h => by cases h⟩

theorem Runs.bind [IsTrans S R] {Q' : β → S → Prop} (hx : Runs R P x Q)
    (hf : ∀ a, Runs R (Q a) (f a) Q') : Runs R P (x >>= f) Q' := by
  intro s hs
  rw [run_bind]
  obtain ⟨hmove, hresult⟩ := hx s hs
  revert hmove hresult
  rcases x s with ⟨e | a, s₁⟩
  · exact fun hmove _ => ⟨hmove, fun _ h => by cases h⟩
  · intro hmove hresult
    obtain ⟨hmove', hresult'⟩ := hf a s₁ (hresult a rfl)
    exact ⟨IsTrans.trans _ _ _ hmove hmove', hresult'⟩

/-- What moves along `R` keep can be carried through a step. -/
theorem Runs.frame (hx : Runs R P x Q) (hP : ∀ s s', R s s' → P' s → P' s') :
    Runs R (fun s => P s ∧ P' s) x fun a s => Q a s ∧ P' s := by
  intro s hs
  obtain ⟨hmove, hresult⟩ := hx s hs.1
  exact ⟨hmove, fun a ha => ⟨hresult a ha, hP _ _ hmove hs.2⟩⟩

theorem Runs.weaken (hx : Runs R P x Q) (hP : ∀ s, P' s → P s) (hQ : ∀ a s, Q a s → Q' a s) :
    Runs R P' x Q' :=
  fun s hs => ⟨(hx s (hP s hs)).1, fun a ha => hQ a _ ((hx s (hP s hs)).2 a ha)⟩

end

/-! ### Answers that do not depend on the state -/

/-- In states of `I`, which it does not leave, the step `x` answers `y`. -/
def Answers {ε S α : Type} (I : S → Prop) (x : ExceptT ε (StateM S) α) (y : Except ε α) : Prop :=
  ∀ s, I s → (x s).1 = y ∧ I (x s).2

section
variable {ε S α β : Type} {I : S → Prop} {x : ExceptT ε (StateM S) α} {y : Except ε α}
  {f : α → ExceptT ε (StateM S) β} {g : α → Except ε β} {as : List α}

theorem answers_pure (a : α) : Answers I (pure a : ExceptT ε (StateM S) α) (.ok a) :=
  fun _ hs => ⟨rfl, hs⟩

theorem answers_throw (e : ε) : Answers I (throw e : ExceptT ε (StateM S) α) (.error e) :=
  fun _ hs => ⟨rfl, hs⟩

theorem answers_ofExcept (y : Except ε α) :
    Answers I (MonadExcept.ofExcept y : ExceptT ε (StateM S) α) y := by
  cases y with
  | error e => exact answers_throw e
  | ok a => exact answers_pure a

theorem Answers.bind (hx : Answers I x y) (hf : ∀ a, Answers I (f a) (g a)) :
    Answers I (x >>= f) (y >>= g) := by
  intro s hs
  obtain ⟨hy, hI⟩ := hx s hs
  subst hy
  rw [run_bind]
  revert hI
  rcases x s with ⟨e | a, s₁⟩
  · exact fun hI => ⟨rfl, hI⟩
  · exact fun hI => hf a s₁ hI

theorem Answers.map (f : α → β) (hx : Answers I x y) : Answers I (f <$> x) (f <$> y) := by
  rw [← bind_pure_comp, ← bind_pure_comp]
  exact hx.bind fun a => answers_pure (f a)

theorem Answers.mapM (hf : ∀ a, Answers I (f a) (g a)) :
    Answers I (as.mapM f) (as.mapM g) := by
  induction as with
  | nil => exact answers_pure []
  | cons a rest ih =>
    rw [List.mapM_cons, List.mapM_cons]
    exact (hf a).bind fun b => ih.bind fun bs => answers_pure (b :: bs)

theorem Answers.foldlM {f : β → α → ExceptT ε (StateM S) β} {g : β → α → Except ε β}
    (hf : ∀ b a, Answers I (f b a) (g b a)) (b : β) :
    Answers I (as.foldlM f b) (as.foldlM g b) := by
  induction as generalizing b with
  | nil => exact answers_pure b
  | cons a rest ih =>
    rw [List.foldlM_cons, List.foldlM_cons]
    exact (hf b a).bind ih

end
end TensorKernel

import TensorKernel.Proofs.Direct.Owned

/-! Scripts that stay away from some registers. Such a script does the same where these
registers hold something else, and it may bind them anew. -/
namespace TensorKernel

open Draft Registers List

variable {steps : List Step} {regs a b : Registers} {c : Call} {r : Register} {own : List String}
  {action : Action}

/-- The names of `T` that are not among the others. -/
def shed (T bound : List String) : List String := T.filter fun name => !bound.contains name

theorem mem_shed {T bound : List String} {name : String} :
    name ∈ shed T bound ↔ name ∈ T ∧ name ∉ bound := by
  simp [shed]

theorem shed_shed (T bound more : List String) :
    shed (shed T bound) more = shed T (bound ++ more) := by
  simp [shed, filter_filter, Bool.and_comm]

theorem shed_nil (T : List String) : shed T [] = T := by
  simp [shed]

def Argument.reads : Argument → List String
  | .register r => [r.name]
  | .literal _ => []

def Subscript.reads : Subscript → List String
  | .position r => [r.name]
  | .indices args => args.flatMap Argument.reads

def Model.reads : Model → List String
  | .output r => [r.name]
  | .given _ | .type _ => []

def Action.reads : Action → List String
  | .element _ place => place.reads
  | .unary _ r | .cast r _ | .axis r _ | .get r | .branch r _ | .otherwise r _ => [r.name]
  | .binary _ lhs rhs => lhs.reads ++ rhs.reads
  | .outputLike m => m.reads
  | .declare init _ => init.reads
  | .assign r value | .update r _ value => r.name :: value.reads
  | .store r place value => r.name :: (place.reads ++ value.reads)
  | .elif chain cond _ => [chain.name, cond.name]
  | .inspect _ | .describe | .constant .. | .output _ | .positionIn _ | .ensure .. | .fail _ => []

mutual

def Action.avoidsInside (T : List String) : Action → Bool
  | .branch _ body | .elif _ _ body | .otherwise _ body => avoids T body
  | _ => true

def Step.avoids (T : List String) : Step → Bool
  | .mk _ _ action => action.reads.all (fun name => !T.contains name) && action.avoidsInside T

/-- No register of `T` is looked at before it is bound anew. -/
def avoids (T : List String) : List Step → Bool
  | [] => true
  | s :: rest => s.avoids T && avoids (shed T s.bound) rest

end

theorem Step.avoids_iff {T : List String} {result : Option String} {tolerant : Bool} :
    Step.avoids T (.mk result tolerant action) = true ↔
      (∀ name ∈ action.reads, name ∉ T) ∧ action.avoidsInside T = true := by
  simp [Step.avoids]

/-! What the registers hold. -/

/-- Outside of `T` the registers hold the same. -/
def Registers.Agree (T : List String) (a b : Registers) : Prop :=
  ∀ name ∉ T, a.lookup name = b.lookup name

namespace Registers.Agree

variable {T T' : List String} {a b : Registers}

theorem mono (h : Agree T a b) (hT : ∀ name ∈ T, name ∈ T') : Agree T' a b :=
  fun name hn => h name fun hm => hn (hT name hm)

theorem symm (h : Agree T a b) : Agree T b a := fun name hn => (h name hn).symm

theorem bind (h : Agree T a b) (result : Option String) (item : Option Item) :
    Agree (shed T (if item.isSome then result.toList else [])) (a.bind result item)
      (b.bind result item) := by
  intro name hn
  cases result with
  | none => exact h name fun hm => hn (mem_shed.2 ⟨hm, by simp⟩)
  | some n =>
    cases item with
    | none => exact h name fun hm => hn (mem_shed.2 ⟨hm, by simp⟩)
    | some i =>
      change lookup name ((n, i) :: a) = lookup name ((n, i) :: b)
      rw [lookup_cons, lookup_cons]
      cases he : name == n with
      | true => rfl
      | false => exact h name fun hm => hn (mem_shed.2 ⟨hm, by simpa using he⟩)

theorem of_suffix (h : b <:+ a) :
    Agree ((a.take (a.length - b.length)).map Prod.fst) a b := by
  obtain ⟨more, rfl⟩ := h
  rw [length_append, Nat.add_sub_cancel, take_left' rfl]
  intro name hn
  have hnone : more.lookup name = none := by
    refine lookup_eq_none_iff.2 fun p hp => bne_iff_ne.2 ?_
    rintro rfl
    exact hn (mem_map_of_mem hp)
  rw [lookup_append, hnone, Option.none_or]

section
variable (h : Agree T a b)
include h

theorem item? (hr : r.name ∉ T) : item? a r = item? b r := by
  unfold Registers.item?
  rw [h r.name hr]

theorem expr? (hr : r.name ∉ T) : expr? a r = expr? b r := by
  unfold Registers.expr?
  rw [h.item? hr]

theorem position? (hr : r.name ∉ T) : position? a r = position? b r := by
  unfold Registers.position?
  rw [h.item? hr]

theorem output? (hr : r.name ∉ T) : output? a r = output? b r := by
  unfold Registers.output?
  rw [h.item? hr]

theorem slot? (hr : r.name ∉ T) : slot? a r = slot? b r := by
  unfold Registers.slot?
  rw [h.item? hr]

theorem chain? (hr : r.name ∉ T) : chain? a r = chain? b r := by
  unfold Registers.chain?
  rw [h.item? hr]

theorem operand? {x : Argument} (hx : ∀ name ∈ x.reads, name ∉ T) :
    operand? a x = operand? b x := by
  cases x with
  | literal => rfl
  | register r =>
    rw [Registers.operand?, Registers.operand?, h.expr? (hx r.name mem_cons_self)]

theorem subscript? {place : Subscript} (hp : ∀ name ∈ place.reads, name ∉ T) :
    subscript? a place = subscript? b place := by
  cases place with
  | position r =>
    rw [Registers.subscript?, Registers.subscript?, h.position? (hp r.name mem_cons_self)]
  | indices args =>
    rw [Registers.subscript?, Registers.subscript?]
    induction args with
    | nil => rfl
    | cons x rest ih =>
      simp only [Subscript.reads, flatMap_cons, mem_append] at hp ih
      rw [mapM_cons, mapM_cons, h.operand? fun name hn => hp name (.inl hn),
        ih fun name hn => hp name (.inr hn)]

theorem guard? {cond : Option Register} (hc : ∀ r ∈ cond, r.name ∉ T) :
    guard? a cond = guard? b cond := by
  cases cond with
  | none => rfl
  | some r =>
    rw [Registers.guard?, Registers.guard?, h.expr? (hc r rfl)]

theorem modelType? {given : Given → Option InputTensor} {m : Model}
    (hm : ∀ name ∈ m.reads, name ∉ T) : modelType? given a m = modelType? given b m := by
  cases m with
  | given | type => rfl
  | output r =>
    rw [TensorKernel.modelType?, TensorKernel.modelType?, h.output? (hm r.name mem_cons_self)]

theorem returned {returns : List Register} (hT : ∀ x ∈ returns, x.name ∉ T) :
    returns.mapM (Registers.output? a) = returns.mapM (Registers.output? b) := by
  induction returns with
  | nil => rfl
  | cons x rest ih =>
    rw [mapM_cons, mapM_cons, h.output? (hT x mem_cons_self),
      ih fun y hy => hT y (mem_cons_of_mem _ hy)]

end

end Registers.Agree

section
variable {given : Given → Option InputTensor} {T : List String} {s s' : Draft}

theorem Leaf.inner {item : Option Item} (h : Leaf given regs s action c item) :
    action.inner = [] := by
  cases h <;> rfl

theorem Action.parts_of_continuation {cond : Option Register} {body : List Step}
    (h : action.continuation? = some (r, cond, body)) :
    action.gives = false ∧ action.inner = boundIn body ∧
      action.reads = r.name :: cond.toList.map Register.name ∧
      ∀ T, action.avoidsInside T = avoids T body := by
  cases action with
  | elif | otherwise =>
    cases h
    exact ⟨rfl, by rw [Action.inner], rfl, fun T => by rw [Action.avoidsInside]⟩
  | _ => cases h

theorem Leaf.restore {item : Option Item} (h : Leaf given a s action c item) (hab : Agree T a b)
    (hT : ∀ name ∈ action.reads, name ∉ T) : Leaf given b s action c item := by
  cases h with
  | constant v type => exact .constant v type
  | output hp => exact .output hp
  | positionIn hp => exact .positionIn hp
  | element ht ho => exact .element ht (hab.subscript? hT ▸ ho)
  | unary hx => exact .unary (hab.expr? (hT _ mem_cons_self) ▸ hx)
  | cast hx => exact .cast (hab.expr? (hT _ mem_cons_self) ▸ hx)
  | get hv => exact .get (hab.slot? (hT _ mem_cons_self) ▸ hv)
  | outputLike hm => exact .outputLike (hab.modelType? hT ▸ hm)
  | declare ho => exact .declare (hab.operand? hT ▸ ho)
  | binary hx ho =>
    simp only [Action.reads, Argument.reads, cons_append, nil_append] at hT
    exact .binary (hab.expr? (hT _ mem_cons_self) ▸ hx)
      (hab.operand? (fun name hn => hT name (mem_cons_of_mem _ hn)) ▸ ho)
  | binaryFrom hy => exact .binaryFrom (hab.expr? (hT _ mem_cons_self) ▸ hy)
  | assign hv ho =>
    exact .assign (hab.slot? (hT _ mem_cons_self) ▸ hv)
      (hab.operand? (fun name hn => hT name (mem_cons_of_mem _ hn)) ▸ ho)
  | update hv ho =>
    exact .update (hab.slot? (hT _ mem_cons_self) ▸ hv)
      (hab.operand? (fun name hn => hT name (mem_cons_of_mem _ hn)) ▸ ho)
  | store ht hos ho =>
    simp only [Action.reads, mem_cons, mem_append] at hT
    exact .store (hab.output? (hT _ (.inl rfl)) ▸ ht)
      (hab.subscript? (fun name hn => hT name (.inr (.inl hn))) ▸ hos)
      (hab.operand? (fun name hn => hT name (.inr (.inr hn))) ▸ ho)

/-- A script that avoids `T` leads to the same draft from other registers. -/
theorem Took.restore {a' : Registers} (h : Took given steps a s a' s') (hab : Agree T a b)
    (hT : avoids T steps = true) :
    ∃ b', Took given steps b s b' s' ∧ Agree (shed T (boundIn steps)) a' b' := by
  induction h generalizing T b with
  | nil =>
    refine ⟨b, .nil, ?_⟩
    rw [boundIn, shed_nil]
    exact hab
  | @idle result tolerant action rest _ _ _ _ hi _ ih =>
    have hbound : Step.bound (.mk result tolerant action) = [] := by
      cases action with
      | inspect | describe | ensure => rfl
      | _ => cases hi
    rw [avoids, hbound, shed_nil, Bool.and_eq_true] at hT
    obtain ⟨b', htook, hagree⟩ := ih hab hT.2
    exact ⟨b', .idle hi htook, by rw [boundIn, hbound]; exact hagree⟩
  | @axis result tolerant r axis _ _ _ _ _ _ x hp hx _ ih =>
    have hbound : Step.bound (.mk result tolerant (.axis r axis)) = result.toList := by
      simp [Step.bound, Action.gives, Action.inner]
    rw [avoids, hbound, Bool.and_eq_true, Step.avoids_iff] at hT
    obtain ⟨b', htook, hagree⟩ := ih (hab.bind result (some (.expr x))) hT.2
    rw [boundIn, hbound, ← shed_shed]
    exact ⟨b', .axis (hab.position? (hT.1.1 _ mem_cons_self) ▸ hp) hx htook, hagree⟩
  | @leaf result tolerant action _ _ _ _ _ _ item hl hc _ ih =>
    have hbound : Step.bound (.mk result tolerant action) =
        if item.isSome then result.toList else [] := by
      rw [Step.bound, hl.isSome_item, hl.inner, append_nil]
    rw [avoids, hbound, Bool.and_eq_true, Step.avoids_iff] at hT
    obtain ⟨b', htook, hagree⟩ := ih (hab.bind result item) hT.2
    rw [boundIn, hbound, ← shed_shed]
    exact ⟨b', .leaf (hl.restore hab hT.1.1) hc htook, hagree⟩
  | @branch result tolerant cond body _ _ last _ _ t _ _ hx hc _ _ ihbody ih =>
    have hbound (name : String) : name ∈ Step.bound (.mk result tolerant (.branch cond body)) ↔
        name ∈ boundIn body ++ result.toList := by
      simp [Step.bound, Action.gives, Action.inner, or_comm]
    rw [avoids, Bool.and_eq_true, Step.avoids_iff, Action.avoidsInside] at hT
    obtain ⟨last', hinner, hagree⟩ := ihbody hab hT.1.2
    have hmid : Agree (shed T (Step.bound (.mk result tolerant (.branch cond body))))
        (last.bind result (some (.chain t.chains.length)))
        (last'.bind result (some (.chain t.chains.length))) := by
      refine (hagree.bind result _).mono fun name hn => ?_
      rw [shed_shed, mem_shed] at hn
      exact mem_shed.2 ⟨hn.1, fun hm => hn.2 ((hbound name).1 hm)⟩
    obtain ⟨b', htook, hagree'⟩ := ih hmid hT.2
    rw [boundIn, ← shed_shed]
    exact ⟨b', .branch (hab.expr? (hT.1.1 _ mem_cons_self) ▸ hx) hc hinner htook, hagree'⟩
  | @further result tolerant action r cond body _ _ _ _ _ _ _ _ _ _ _ _ ha hk hg hc hw hown hq _ _
      ihbody ih =>
    obtain ⟨hgives, hinner, hreads, hinside⟩ := Action.parts_of_continuation ha
    have hbound : Step.bound (.mk result tolerant action) = boundIn body := by
      simp [Step.bound, hgives, hinner]
    rw [avoids, Bool.and_eq_true, Step.avoids_iff, hbound, hinside] at hT
    obtain ⟨inner', htook, hagree⟩ := ihbody hab hT.1.2
    obtain ⟨b', htook', hagree'⟩ := ih hagree hT.2
    rw [hreads] at hT
    rw [boundIn, hbound, ← shed_shed]
    refine ⟨b', .further ha (hab.chain? (hT.1.1 _ mem_cons_self) ▸ hk) ?_ hc hw hown hq htook
      htook', hagree'⟩
    rw [← hab.guard? fun x hx => hT.1.1 _ (mem_cons_of_mem _ ?_)]
    · exact hg
    · exact mem_map_of_mem (Option.mem_toList.2 hx)

/-! Whose chains the registers hold. -/

theorem Action.structured_of_reads {own' : List String} (h : action.structured own = true)
    (hown : ∀ name ∈ action.reads, name ∈ own → name ∈ own') : action.structured own' = true := by
  cases action with
  | branch cond body =>
    rw [Action.structured] at h ⊢
    exact h
  | elif chain cond body | otherwise chain body =>
    rw [Action.structured, Bool.and_eq_true, contains_iff_mem] at h ⊢
    exact ⟨hown chain.name mem_cons_self h.1, h.2⟩
  | _ => simp [Action.structured]

theorem structured_of_avoids {own' : List String} (h : structured own steps = true)
    (hT : avoids T steps = true) (hown : ∀ name ∈ own, name ∉ T → name ∈ own') :
    structured own' steps = true := by
  induction steps generalizing own own' T with
  | nil => rw [structured]
  | cons step rest ih =>
    obtain ⟨result, tolerant, action⟩ := step
    rw [structured, Bool.and_eq_true, Step.structured] at h ⊢
    rw [avoids, Bool.and_eq_true, Step.avoids_iff] at hT
    refine ⟨Action.structured_of_reads h.1 fun name hr hm => hown name hm (hT.1.1 name hr),
      ih h.2 hT.2 fun name hm hn => ?_⟩
    rw [Step.mem_own] at hm ⊢
    refine hm.imp_right fun hm => ⟨hown name hm.1 fun hT' => hn ?_, hm.2⟩
    exact mem_shed.2 ⟨hT', hm.2⟩

def ownAfter (own : List String) (steps : List Step) : List String := steps.foldl Step.own own

theorem structured_append (own : List String) (a b : List Step) :
    structured own (a ++ b) = (structured own a && structured (ownAfter own a) b) := by
  induction a generalizing own with
  | nil => simp [structured, ownAfter]
  | cons step rest ih => simp [structured, ih, ownAfter, Bool.and_assoc]

theorem Took.uncons {step : Step} {rest : List Step} {regs' : Registers}
    (h : Took given (step :: rest) regs s regs' s') :
    ∃ middle t, Took given [step] regs s middle t ∧ Took given rest middle t regs' s' := by
  cases h with
  | idle hi hrest => exact ⟨_, _, .idle hi .nil, hrest⟩
  | axis hp hx hrest => exact ⟨_, _, .axis hp hx .nil, hrest⟩
  | leaf hl hc hrest => exact ⟨_, _, .leaf hl hc .nil, hrest⟩
  | branch hx hc hbody hrest => exact ⟨_, _, .branch hx hc hbody .nil, hrest⟩
  | further ha hk hg hc hw hown hq hbody hrest =>
    exact ⟨_, _, .further ha hk hg hc hw hown hq hbody .nil, hrest⟩

theorem Took.ownedAfter {regs' : Registers} (h : Took given steps regs s regs' s') (hs : s.Holds)
    (hn : s.Nests) (ho : Owned own regs s) : Owned (ownAfter own steps) regs' s' := by
  induction steps generalizing own regs s with
  | nil =>
    cases h
    exact ho
  | cons step rest ih =>
    obtain ⟨middle, t, hfirst, hrest⟩ := h.uncons
    obtain ⟨result, tolerant, action⟩ := step
    exact ih hrest (hfirst.leads.holds hs) (hfirst.leads.nests hs hn) (hfirst.owned hs hn ho)

theorem Draft.Owned.agree (ho : Owned own a s) (hab : Agree T a b) : Owned (shed own T) b s := by
  intro name hname
  obtain ⟨hm, hn⟩ := mem_shed.1 hname
  rw [← hab name hn]
  exact ho name hm

end

end TensorKernel

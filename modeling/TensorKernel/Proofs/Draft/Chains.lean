import TensorKernel.Proofs.Draft.Nesting

/-! Continuing a chain. A handle knows the depth of its block and the place of its
statement there, and only the depth is compared. In its own block a chain is extended or
refused; a block around is told apart by its depth; but in a later block of the same depth
the handle of a block that is closed takes whatever stands at its place for its chain. -/
namespace TensorKernel

open List

variable {cond : Option Expr} {t : Started} {r q : Recording} {key index i place : Nat}
  {chains : List Started} {before : List Stmt} {c : Chain} {f : Started → Started} {s : Draft}
  {branches : List Branch} {outer : List Block} {α : Type} {last : Nat} {u : Started} {l : List α}
  {d : Chain} {x : α} {guard : Option NodeId} {bound sealed : List NodeId} {chain : Stmt}
  {scope : ScopeId}

/-- A conditional statement gets a branch; others stay. -/
def Stmt.withBranch (guard : Option NodeId) (body : List Stmt) : Stmt → Stmt
  | .cond branches => .cond (branches ++ [.mk guard body])
  | s => s

def Stmt.branchCount : Stmt → Nat
  | .cond branches => branches.length
  | _ => 0

namespace Recording

/-- What stands behind the statement at `index` can be moved in front of it. -/
def Movable (r : Recording) (index : Nat) (guard : Option NodeId) : Prop :=
  let trailing := r.current.body.drop (index + 1)
  let stateful := r.stateful (trailing.filterMap Stmt.bound?)
  trailing.all Stmt.isBind = true ∧ ∀ e ∈ stateful, e ∈ r.needed stateful guard

theorem reopen_capture_iff (r : Recording) (depth index : Nat) (guard : Option NodeId) :
    (∃ e, r.reopen depth index guard = .error (.capture e)) ↔
      depth ≠ r.depth ∨ index < r.current.body.length ∧ ¬r.Movable index guard := by
  unfold reopen Movable
  split
  next hd => exact ⟨fun _ => .inl (Ne.symm hd), fun _ => ⟨_, rfl⟩⟩
  next hd =>
    have hd : r.depth = depth := Decidable.of_not_not hd
    simp only [hd, ne_eq, not_true_eq_false, false_or]
    split
    next hnone =>
      have hle : r.current.body.length ≤ index := getElem?_eq_none_iff.1 hnone
      simp only [Except.error.injEq, reduceCtorEq, exists_false, false_iff, not_and]
      omega
    next chain hsome =>
      have hlt : index < r.current.body.length := (List.getElem?_eq_some_iff.1 hsome).1
      simp only [hlt, true_and]
      split
      next hall => exact ⟨fun _ h => by simp [h.1] at hall, fun _ => ⟨_, rfl⟩⟩
      next hall =>
        have hall : (r.current.body.drop (index + 1)).all Stmt.isBind = true := by simpa using hall
        split
        next e he =>
          refine ⟨fun _ h => ?_, fun _ => ⟨_, rfl⟩⟩
          have hmem := h.2 e (mem_of_find?_eq_some he)
          have hout := find?_some he
          simp [hmem] at hout
        next hnone =>
          simp only [reduceCtorEq, exists_false, false_iff]
          refine fun h => h ⟨hall, fun e he => ?_⟩
          simpa using find?_eq_none.1 hnone e he

theorem length_le_of_outOfRange {depth : Nat} (h : r.reopen depth index guard = .error .outOfRange)
    : r.current.body.length ≤ index := by
  unfold reopen at h
  dsimp only at h
  split at h
  · cases h
  · split at h
    next hnone => exact getElem?_eq_none_iff.1 hnone
    · split at h
      · cases h
      · split at h <;> cases h

/-- Prepares a chain for its next branch, which has a guard or not. -/
def reopenWith (r : Recording) (c : Chain) : Option Expr → Except Refusal Chain × Recording
  | some cond => r.reopenElif c cond
  | none => r.reopenElse c

theorem reopenWith_of_closed (h : c.closed = true) (cond : Option Expr) :
    ∃ e, r.reopenWith c cond = (.error (.capture e), r) := by
  cases cond with
  | none => exact ⟨.elseAfterElse, by simp [reopenWith, reopenElse, h]⟩
  | some x => exact ⟨.elifAfterElse, by simp [reopenWith, reopenElif, h]⟩

theorem reopenWith_of_open (h : c.closed = false) (cond : Option Expr) : r.reopenWith c cond =
      match (r.note (cond.bind r.operandError?)).reopen c.depth c.index (cond.map Expr.id) with
      | .ok (index, q) => (.ok { c with index }, q)
      | .error e => (.error e, r.note (cond.bind r.operandError?)) := by
  have hopen : ¬c.closed = true := by simp [h]
  cases cond with
  | none =>
    have hnote : r.note ((none : Option Expr).bind r.operandError?) = r := r.note_none
    rw [hnote]
    change r.reopenElse c = _
    rw [reopenElse, if_neg hopen]
    rfl
  | some x =>
    change r.reopenElif c x = _
    rw [reopenElif, if_neg hopen]
    rfl

theorem reopenWith_capture_iff (r : Recording) (c : Chain) (cond : Option Expr) :
    (∃ e, (r.reopenWith c cond).1 = .error (.capture e)) ↔
      c.closed = true ∨ c.depth ≠ r.depth ∨
        c.index < r.current.body.length ∧ ¬r.Movable c.index (cond.map Expr.id) := by
  cases hc : c.closed with
  | true =>
    obtain ⟨e, he⟩ := reopenWith_of_closed (r := r) hc cond
    simp [he]
  | false =>
    have hiff := reopen_capture_iff (r.note (cond.bind r.operandError?)) c.depth c.index
      (cond.map Expr.id)
    rw [reopenWith_of_open hc]
    simp only [Bool.false_eq_true, false_or]
    refine Iff.trans ?_ hiff
    cases (r.note (cond.bind r.operandError?)).reopen c.depth c.index (cond.map Expr.id) with
    | ok p => simp
    | error e => simp

theorem length_le_of_reopenWith (h : (r.reopenWith c cond).1 = .error .outOfRange) :
    r.current.body.length ≤ c.index := by
  cases hc : c.closed with
  | true =>
    obtain ⟨e, he⟩ := reopenWith_of_closed (r := r) hc cond
    rw [he] at h
    cases h
  | false =>
    rw [reopenWith_of_open hc] at h
    split at h
    · cases h
    next e he =>
      cases h
      have hle := length_le_of_outOfRange he
      exact hle

/-- What is noted before a chain is looked for: the error of the guard, if the chain is open. -/
def guardError? (r : Recording) (c : Chain) (cond : Option Expr) : Option CaptureError :=
  if c.closed then none else cond.bind r.operandError?

/-- A refusal changes nothing else. -/
theorem reopenWith_of_refused {e : Refusal} (h : (r.reopenWith c cond).1 = .error e) :
    r.reopenWith c cond = (.error e, r.note (r.guardError? c cond)) := by
  cases hc : c.closed with
  | true =>
    obtain ⟨e', he⟩ := reopenWith_of_closed (r := r) hc cond
    rw [he] at h ⊢
    simp [Except.error.inj h, guardError?, hc]
  | false =>
    rw [reopenWith_of_open hc] at h ⊢
    split at h
    · cases h
    · simp [Except.error.inj h, guardError?, hc]

theorem blocks_of_refused {e : Refusal} (h : (r.reopenWith c cond).1 = .error e) :
    (r.reopenWith c cond).2.blocks = r.blocks := by
  rw [reopenWith_of_refused h]
  rfl

theorem reopened_of_reopenWith (h : r.reopenWith c cond = (.ok d, q)) :
    c.closed = false ∧ c.depth = r.depth ∧ d = { c with index := d.index } ∧
      ∃ before chain bound sealed, (r.note (cond.bind r.operandError?)).Reopened c.index
        (cond.map Expr.id) d.index q before chain bound sealed := by
  cases hc : c.closed with
  | true =>
    obtain ⟨e, he⟩ := reopenWith_of_closed (r := r) hc cond
    rw [he] at h
    cases h
  | false =>
    rw [reopenWith_of_open hc] at h
    split at h
    next index p hp =>
      cases h
      obtain ⟨hd, hr⟩ := reopened_of_reopen hp
      exact ⟨rfl, hd.symm, by simp [hc], hr⟩
    · cases h

theorem addBranch_last (r : Recording) {front : List Stmt} (h : r.current.body = front ++ [chain])
    (guard : Option NodeId) (body : List Stmt) :
    (r.addBranch front.length guard body).current =
      ⟨r.current.scope, front ++ [chain.withBranch guard body]⟩ := by
  have hlast : r.current.body[front.length]? = some chain := by rw [h]; simp
  unfold addBranch
  rw [hlast]
  cases chain with
  | cond branches => simp [Stmt.withBranch, h]
  | bind | declare | assign | store =>
    simp only [Stmt.withBranch]
    rw [← h]

end Recording

def Call.continuing (key : Nat) : Option Expr → Call
  | some cond => .elif key cond
  | none => .otherwise key

namespace Draft
open Recording

theorem perform_continuing (ht : s.chains[key]? = some t) (cond : Option Expr) :
    s.perform (.continuing key cond) =
      s.resume key t (cond.map Expr.id) (s.recording.reopenWith t.chain cond) := by
  cases cond <;> simp [Call.continuing, perform, ht, reopenWith]

theorem perform_of_refused (ht : s.chains[key]? = some t) {e : Refusal}
    (h : (s.recording.reopenWith t.chain cond).1 = .error e) : s.perform (.continuing key cond) =
      { s with recording := s.recording.note (s.recording.guardError? t.chain cond) } := by
  rw [perform_continuing ht, reopenWith_of_refused h]
  rfl

/-- The call ends in a capture error, enters no block and changes nothing, but an error of the
guard of an open chain is noted. -/
def Refuses (s : Draft) (key : Nat) (t : Started) (cond : Option Expr) : Prop :=
  (∃ e, (s.recording.reopenWith t.chain cond).1 = .error (.capture e)) ∧
    s.perform (.continuing key cond) =
      { s with recording := s.recording.note (s.recording.guardError? t.chain cond) }

/-- The call succeeds and enters a block. However that one is filled, the statement `chain` at
`place` comes to stand last, as `grown` makes it of the statements in the block, and nothing
else changes in the blocks that were open. -/
def Continues (s : Draft) (key : Nat) (t : Started) (cond : Option Expr) (place : Nat)
    (chain : Stmt) (grown : List Stmt → Stmt) : Prop :=
  (∃ c, (s.recording.reopenWith t.chain cond).1 = .ok c) ∧
    ∃ (before : List Stmt) (bound : List NodeId),
      s.recording.current.body = before ++ chain :: bound.map Stmt.bind ∧ before.length = place ∧
      (s.perform (.continuing key cond)).purposes.length = s.purposes.length + 1 ∧
      ∀ u, Leads (Inside (s.purposes.length + 1)) (s.perform (.continuing key cond)) u →
        u.purposes.length = s.purposes.length + 1 →
        (u.perform .leave).recording.blocks = ⟨s.recording.current.scope, before ++
          bound.map Stmt.bind ++ [grown u.recording.current.body]⟩ :: s.recording.outer

/-- The block becomes a branch of the conditional at `place`. -/
def Branches (s : Draft) (key : Nat) (t : Started) (cond : Option Expr) (place : Nat) : Prop :=
  ∃ branches, s.Continues key t cond place (.cond branches)
    fun body => .cond (branches ++ [.mk (cond.map Expr.id) body])

/-- No conditional stands at `place`. The block is entered, and what it holds is dropped. -/
def Drops (s : Draft) (key : Nat) (t : Started) (cond : Option Expr) (place : Nat) : Prop :=
  ∃ chain, (∀ branches, chain ≠ .cond branches) ∧
    s.Continues key t cond place chain fun _ => chain

theorem refuses_iff (ht : s.chains[key]? = some t) : s.Refuses key t cond ↔
      ∃ e, (s.recording.reopenWith t.chain cond).1 = .error (.capture e) :=
  ⟨fun h => h.1, fun ⟨e, he⟩ => ⟨⟨e, he⟩, perform_of_refused ht he⟩⟩

theorem continues_of_reopenWith (hs : s.Holds) (ht : s.chains[key]? = some t)
    (hc : s.Admits (.continuing key cond)) (h : s.recording.reopenWith t.chain cond = (.ok d, q)) :
    ∃ chain, s.Continues key t cond t.chain.index chain
      (chain.withBranch (cond.map Expr.id)) := by
  obtain ⟨-, -, -, before, chain, bound, sealed, hr⟩ := reopened_of_reopenWith h
  have hnext := perform_continuing ht cond
  rw [h] at hnext
  have hholds : (s.perform (.continuing key cond)).Holds := (move_perform hs hc).holds hs
  have hlen : (s.perform (.continuing key cond)).purposes.length = s.purposes.length + 1 := by
    rw [hnext]
    rfl
  refine ⟨chain, ⟨d, by rw [h]⟩, before, bound, hr.body, hr.length, hlen, ?_⟩
  intro u hu hul
  rw [← hlen] at hu hul
  obtain ⟨inner, purposes, hb, hp, hl⟩ := hu.within hholds
  have hnil : purposes = [] := by
    rw [hp, length_append] at hul
    exact length_eq_zero_iff.1 (by omega)
  subst hnil
  rw [length_eq_zero_iff.1 hl, hnext, nil_append] at hb
  rw [hnext, nil_append] at hp
  have hclose : u.recording.closeBlock =
      (u.recording.current.body, { u.recording with current := q.current, outer := q.outer }) :=
    closeBlock_eq hb
  have hindex : d.index = (before ++ bound.map Stmt.bind).length := by
    rw [hr.place, length_append, length_map]
  have hperform : (u.perform .leave).recording =
      Recording.addBranch { u.recording with current := q.current, outer := q.outer } d.index
        (cond.map Expr.id) u.recording.current.body := by
    simp only [perform, show u.purposes = .further key d.index (cond.map Expr.id) :: s.purposes
      from hp, complete, hclose]
  have hlast : q.current.body = (before ++ bound.map Stmt.bind) ++ [chain] := by
    rw [hr.current]
  rw [blocks, hperform, hindex, outer_addBranch]
  rw [addBranch_last { u.recording with current := q.current, outer := q.outer } hlast]
  rw [hr.outer, hr.current]
  rfl

/-- What holds of the block with a scope, and of the blocks around it, where that block is
open. -/
def Where (scope : ScopeId) (P : Block → List Block → Prop) : List Block → Prop
  | [] => True
  | b :: outer => (scope = b.scope → P b outer) ∧ Where scope P outer

section
variable {scope : ScopeId} {P Q : Block → List Block → Prop} {blocks : List Block}

theorem where_of_not_mem (h : scope ∉ blocks.map Block.scope) : Where scope P blocks := by
  induction blocks with
  | nil => trivial
  | cons b outer ih =>
    rw [map_cons, mem_cons, not_or] at h
    exact ⟨fun hb => absurd hb h.1, ih h.2⟩

theorem Where.around {inner : List Block} (h : Where scope P (inner ++ blocks)) :
    Where scope P blocks := by
  induction inner with
  | nil => exact h
  | cons b inner ih => exact ih h.2

theorem Where.imp (h : Where scope P blocks) (hPQ : ∀ b outer, P b outer → Q b outer) :
    Where scope Q blocks := by
  induction blocks with
  | nil => trivial
  | cons b outer ih => exact ⟨fun hb => hPQ b _ (h.1 hb), ih h.2⟩

theorem Where.replace {b c : Block} (h : Where scope P (b :: outer)) (hscope : c.scope = b.scope)
    (hP : P b outer → P c outer) : Where scope P (c :: outer) :=
  ⟨fun hc => hP (h.1 (hc.trans hscope)), h.2⟩

theorem Where.open {n : Nat} (h : Where scope P blocks) (hn : scope < n) :
    Where scope P (⟨n, []⟩ :: blocks) :=
  ⟨fun hb => absurd hb (Nat.ne_of_lt hn), h⟩

end

/-- Where the block of a chain is open, the handle has its depth and the statement stands
at its place, at or behind the index in the handle. -/
def Standing (t : Started) : List Block → Prop :=
  Where t.scope fun b outer => t.chain.depth = outer.length ∧ t.chain.index ≤ t.place ∧
    ∃ branches, b.body[t.place]? = some (.cond branches)

theorem Standing.depth_lt {blocks : List Block} (h : Standing t blocks)
    (hm : t.scope ∈ blocks.map Block.scope) : t.chain.depth < blocks.length := by
  induction blocks with
  | nil => cases hm
  | cons b outer ih =>
    rcases mem_cons.1 hm with hb | hm
    · rw [(h.1 hb).1]
      exact Nat.lt_succ_self _
    · exact Nat.lt_succ_of_lt (ih h.2 hm)

theorem Standing.congr {blocks : List Block} (h : Standing t blocks) (hscope : u.scope = t.scope)
    (hplace : u.place = t.place) (hdepth : u.chain.depth = t.chain.depth)
    (hindex : t.chain.index ≤ t.place → u.chain.index ≤ u.place) : Standing u blocks := by
  unfold Standing at h ⊢
  rw [hscope]
  refine h.imp fun b outer ⟨hd, hle, hcond⟩ => ?_
  exact ⟨hdepth.trans hd, hindex hle, hplace ▸ hcond⟩

theorem Standing.replace {b c : Block} (h : Standing t (b :: outer)) (hscope : c.scope = b.scope)
    (hbody : ∀ (i : Nat) (branches : List Branch), b.body[i]? = some (.cond branches) →
      ∃ branches, c.body[i]? = some (.cond branches)) : Standing t (c :: outer) := by
  refine Where.replace h hscope fun ⟨hd, hle, branches, hb⟩ => ?_
  exact ⟨hd, hle, hbody _ _ hb⟩

theorem getElem?_append_cond {body more : List Stmt} (i : Nat) (branches : List Branch)
    (h : body[i]? = some (.cond branches)) :
    ∃ branches, (body ++ more)[i]? = some (.cond branches) := by
  refine ⟨branches, ?_⟩
  rw [List.getElem?_append_left (List.getElem?_eq_some_iff.1 h).1]
  exact h

theorem getElem?_addBranch_cond {body : List Stmt} (i : Nat) (branches : List Branch)
    (h : r.current.body[i]? = some (.cond branches)) :
    ∃ branches, (r.addBranch index guard body).current.body[i]? = some (.cond branches) := by
  unfold addBranch
  split
  next old ho =>
    rw [getElem?_set]
    have hlt : i < r.current.body.length := (List.getElem?_eq_some_iff.1 h).1
    by_cases hi : index = i
    · subst hi
      exact ⟨old ++ [.mk guard body], by simp [hlt]⟩
    · exact ⟨branches, by simp [hi, h]⟩
  · exact ⟨branches, h⟩

/-- Behind a statement that was made the last one stand bindings only. -/
theorem le_of_getElem?_cond
    (h : (before ++ chain :: bound.map Stmt.bind)[i]? = some (.cond branches)) :
    i ≤ before.length := by
  refine Nat.le_of_not_lt fun hlt => ?_
  obtain ⟨k, rfl⟩ : ∃ k, i = before.length + (k + 1) := ⟨i - before.length - 1, by omega⟩
  rw [getElem?_append_right (by omega)] at h
  simp at h

theorem place_le_of_getElem?_cond (hr : r.Reopened index guard place q before chain bound sealed)
    (h : r.current.body[i]? = some (.cond branches)) : i ≤ index := by
  rw [hr.body] at h
  exact hr.length ▸ le_of_getElem?_cond h

theorem getElem?_follow (hr : r.Reopened index guard place q before chain bound sealed)
    (hs : t.scope = r.current.scope) (hb : r.current.body[t.place]? = some (.cond branches)) :
    t.place ≤ (t.follow r.current.scope index place).place ∧
      q.current.body[(t.follow r.current.scope index place).place]? = some (.cond branches) := by
  have hi := place_le_of_getElem?_cond hr hb
  rw [hr.body] at hb
  unfold Started.follow
  rw [if_pos hs, hr.current]
  split
  next he =>
    rw [he, ← hr.length] at hb
    have hchain : chain = .cond branches := by simpa using hb
    rw [hr.place, hchain, he, ← hr.length]
    exact ⟨Nat.le_add_right _ _, by simp⟩
  next hne =>
    have hlt : t.place < before.length := by rw [hr.length]; omega
    rw [if_neg (by omega), append_assoc, List.getElem?_append_left hlt]
    rw [List.getElem?_append_left hlt] at hb
    exact ⟨Nat.le_refl _, hb⟩

@[simp] theorem scope_follow (t : Started) (scope : ScopeId) (index last : Nat) :
    (t.follow scope index last).scope = t.scope := by
  unfold Started.follow
  split <;> rfl

@[simp] theorem chain_follow (t : Started) (scope : ScopeId) (index last : Nat) :
    (t.follow scope index last).chain = t.chain := by
  unfold Started.follow
  split <;> rfl

theorem Standing.follow {r q : Recording} {index place : Nat} {before : List Stmt}
    (hr : r.Reopened index guard place q before chain bound sealed) (hn : Nested r.parents r.scopes)
    {t : Started} (h : Standing t r.blocks) :
    Standing (t.follow r.current.scope index place) q.blocks := by
  rw [blocks, hr.outer]
  by_cases hs : t.scope = r.current.scope
  · have hout : t.scope ∉ r.outer.map Block.scope :=
      fun hm => Nat.lt_irrefl _ (hs ▸ hn.lt t.scope hm)
    refine ⟨fun _ => ?_, where_of_not_mem (by rwa [scope_follow])⟩
    obtain ⟨hd, hle, branches, hb⟩ := h.1 hs
    obtain ⟨hplace, hcond⟩ := getElem?_follow hr hs hb
    rw [chain_follow]
    exact ⟨hd, Nat.le_trans hle hplace, branches, hcond⟩
  · have hsame : t.follow r.current.scope index place = t := if_neg hs
    rw [hsame, hr.current]
    exact ⟨fun hc => absurd hc hs, h.2⟩

theorem perform_reopened (ht : s.chains[key]? = some t)
    (h : s.recording.reopenWith t.chain cond = (.ok c, q)) :
    s.perform (.continuing key cond) = { s with
      recording := q.openBlock
      chains := (s.chains.map (Started.follow q.current.scope t.chain.index c.index)).modify key
        fun u => { u with chain := c }
      purposes := .further key c.index (cond.map Expr.id) :: s.purposes } := by
  rw [perform_continuing ht, h]
  rfl

theorem getElem?_reopened (ht : s.chains[key]? = some t)
    (h : s.recording.reopenWith t.chain cond = (.ok c, q)) :
    (s.perform (.continuing key cond)).chains[key]? =
      some { t.follow q.current.scope t.chain.index c.index with chain := c } := by
  rw [perform_reopened ht h, getElem?_modify, getElem?_map, ht]
  simp

/-- Every chain stands where its block is open. -/
structure Tracks (s : Draft) : Prop where
  standing : ∀ t ∈ s.chains, Standing t s.recording.blocks
  scopes : ∀ t ∈ s.chains, t.scope < s.recording.parents.size

theorem tracks_start (id : RecordingId) (inputs : List TensorType) : (start id inputs).Tracks :=
  ⟨by simp [start], by simp [start]⟩

/-- A chain that was continued stands, with its new index, in its own block; if it was
continued in another block, its own one is not open. -/
theorem Standing.continued (hr : r.Reopened t.chain.index guard place q before chain bound sealed)
    (hn : Nested r.parents r.scopes) (hd : r.depth = t.chain.depth) (h : Standing t r.blocks) :
    Standing { t.follow r.current.scope t.chain.index place with
      chain := { t.chain with index := place } } q.blocks := by
  by_cases hs : t.scope = r.current.scope
  · obtain ⟨-, hle, branches, hb⟩ := h.1 hs
    have hplace : t.place = t.chain.index := Nat.le_antisymm (place_le_of_getElem?_cond hr hb) hle
    have hlast : (t.follow r.current.scope t.chain.index place).place = place := by
      simp [Started.follow, hs, hplace]
    refine (Standing.follow hr hn h).congr rfl rfl ?_ fun _ => Nat.le_of_eq hlast.symm
    rw [chain_follow]
  · refine where_of_not_mem ?_
    rw [scope_follow, blocks, hr.current, hr.outer, map_cons, mem_cons, not_or]
    refine ⟨hs, fun hm => ?_⟩
    have hlt := Standing.depth_lt h.2 hm
    rw [← hd] at hlt
    exact Nat.lt_irrefl _ hlt

theorem getElem?_modify_cases {f : α → α} (h : (l.modify key f)[i]? = some x) :
    ∃ y, l[i]? = some y ∧ (i ≠ key ∧ x = y ∨ i = key ∧ x = f y) := by
  rw [getElem?_modify] at h
  obtain ⟨y, hy, rfl⟩ := Option.map_eq_some_iff.1 h
  refine ⟨y, hy, ?_⟩
  split
  next he => exact .inr ⟨he.symm, rfl⟩
  next he => exact .inl ⟨fun hi => he hi.symm, rfl⟩

theorem getElem?_modify_iff (hf : ∀ x, (f x).scope = x.scope)
    (hkey : ∀ x, chains[key]? = some x → x.scope ≠ u.scope) :
    (chains.modify key f)[i]? = some u ↔ chains[i]? = some u := by
  constructor
  · intro h
    obtain ⟨y, hy, ⟨-, rfl⟩ | ⟨rfl, rfl⟩⟩ := getElem?_modify_cases h
    · exact hy
    · exact absurd (hf y).symm (hkey y hy)
  · intro h
    have hi : key ≠ i := by
      rintro rfl
      exact hkey u h rfl
    simp [hi, h]

theorem getElem?_followed_of_ne {w : Started} (hf : ∀ x, (f x).scope = x.scope)
    (hw : chains[key]? = some w) (hkey : w.scope ≠ u.scope) (hne : u.scope ≠ scope) :
    ((chains.map (Started.follow scope index last)).modify key f)[i]? = some u ↔
      chains[i]? = some u := by
  have hmoved (x : Started) (hx : (chains.map (Started.follow scope index last))[key]? = some x) :
      x.scope ≠ u.scope := by
    rw [getElem?_map, hw] at hx
    cases hx
    rwa [scope_follow]
  rw [getElem?_modify_iff hf hmoved, getElem?_map, Option.map_eq_some_iff]
  have hsame (x : Started) (hx : x.scope ≠ scope) : x.follow scope index last = x := if_neg hx
  constructor
  · rintro ⟨x, hx, rfl⟩
    rw [scope_follow] at hne
    rwa [hsame x hne]
  · exact fun h => ⟨u, h, hsame u hne⟩

theorem getElem?_followed {w : Started} (hf : ∀ x, (f x).scope = x.scope)
    (hw : chains[key]? = some w) (hown : w.scope = scope) (hne : u.scope ≠ scope) :
    ((chains.map (Started.follow scope index last)).modify key f)[i]? = some u ↔
      chains[i]? = some u :=
  getElem?_followed_of_ne hf hw (fun he => hne (he.symm.trans hown)) hne

theorem getElem?_continued {v : Started}
    (h : ((chains.map (Started.follow scope index last)).modify key
      fun u => { u with chain := c })[i]? = some v) :
    ∃ x, chains[i]? = some x ∧ x.scope = v.scope ∧ v.place = (x.follow scope index last).place := by
  obtain ⟨y, hy, hcases⟩ := getElem?_modify_cases h
  rw [getElem?_map] at hy
  obtain ⟨x, hx, rfl⟩ := Option.map_eq_some_iff.1 hy
  refine ⟨x, hx, ?_⟩
  rcases hcases with ⟨-, rfl⟩ | ⟨-, rfl⟩
  · exact ⟨(scope_follow _ _ _ _).symm, rfl⟩
  · exact ⟨(scope_follow _ _ _ _).symm, rfl⟩

theorem mem_modify {f : α → α} (h : x ∈ l.modify key f) :
    x ∈ l ∨ ∃ y, l[key]? = some y ∧ x = f y := by
  obtain ⟨i, hi⟩ := mem_iff_getElem?.1 h
  obtain ⟨y, hy, ⟨-, rfl⟩ | ⟨rfl, rfl⟩⟩ := getElem?_modify_cases hi
  · exact .inl (mem_of_getElem? hy)
  · exact .inr ⟨y, hy, rfl⟩

section
variable {s : Draft} {rest : List Purpose} {guard : Option NodeId} {u : Started}

theorem getElem?_complete (h : (s.complete rest (.further key index guard)).chains[i]? = some u) :
    ∃ v, s.chains[i]? = some v ∧ u.scope = v.scope ∧ u.place = v.place ∧
      u.chain.depth = v.chain.depth ∧ u.chain.index = v.chain.index ∧
      (u.chain.closed = false → v.chain.closed = false ∧ (i = key → guard ≠ none)) := by
  unfold complete at h
  dsimp only at h
  split at h
  next hnone =>
    obtain ⟨v, hv, ⟨hne, rfl⟩ | ⟨-, rfl⟩⟩ := getElem?_modify_cases h
    · exact ⟨u, hv, rfl, rfl, rfl, rfl, fun h => ⟨h, fun hi => absurd hi hne⟩⟩
    · exact ⟨v, hv, rfl, rfl, rfl, rfl, fun h => by simp at h⟩
  next hsome => exact ⟨u, h, rfl, rfl, rfl, rfl, fun h => ⟨h, fun _ => by simpa using hsome⟩⟩

theorem length_complete :
    (s.complete rest (.further key index guard)).chains.length = s.chains.length := by
  unfold complete
  dsimp only
  split
  · exact length_modify _ _ _
  · rfl

theorem exists_getElem?_complete (h : s.chains[i]? = some u) :
    ∃ v, (s.complete rest (.further key index guard)).chains[i]? = some v ∧ v.scope = u.scope ∧
      v.place = u.place := by
  have hi : i < (s.complete rest (.further key index guard)).chains.length := by
    rw [length_complete]
    exact (List.getElem?_eq_some_iff.1 h).1
  have hv := List.getElem?_eq_getElem hi
  obtain ⟨w, hw, hscope, hplace, -⟩ := getElem?_complete hv
  cases h.symm.trans hw
  exact ⟨_, hv, hscope, hplace⟩

end

theorem Move.tracks {s t : Draft} {c : Call} (h : Move s c t) (hn : s.Nests) (hs : s.Tracks) :
    t.Tracks := by
  cases h with
  | edit he hc _ =>
    have hg := he.grows
    obtain ⟨more, hbody⟩ := hg.body
    refine ⟨fun u hu => ?_, fun u hu => ?_⟩
    · rw [hc] at hu
      rw [blocks, hg.outer]
      refine (hs.standing u hu).replace hg.scope ?_
      rw [hbody]
      exact getElem?_append_cond
    · rw [hc] at hu
      rw [hg.parents]
      exact hs.scopes u hu
  | enter _ hx =>
    refine ⟨fun u hu => Where.open (hs.standing u hu) (hs.scopes u hu), fun u hu => ?_⟩
    exact Nat.lt_trans (hs.scopes u hu) (by simp [openBlock, checkOperand, note])
  | @resume key place w guard e q hc hw _ _ _ hq =>
    obtain ⟨hd, before, chain, bound, sealed, hr⟩ := reopened_of_reopen hq
    have hsize : s.recording.parents.size ≤ q.parents.size := hr.parents_le
    have hw' : w ∈ s.chains := mem_of_getElem? hw
    have hscope : q.current.scope = s.recording.current.scope := hr.scope
    rw [hscope]
    have hall : ∀ u ∈ (s.chains.map
        (Started.follow s.recording.current.scope w.chain.index place)).modify key
        fun u => { u with chain := { w.chain with index := place } },
        Standing u q.blocks ∧ u.scope < q.parents.size := by
      intro u hu
      rcases mem_modify hu with hu | ⟨v, hv, rfl⟩
      · obtain ⟨v, hv, rfl⟩ := mem_map.1 hu
        rw [scope_follow]
        exact ⟨Standing.follow hr hn.nested (hs.standing v hv),
          Nat.lt_of_lt_of_le (hs.scopes v hv) hsize⟩
      · rw [getElem?_map, hw] at hv
        cases hv
        have hcont := Standing.continued hr hn.nested hd (hs.standing w hw')
        refine ⟨hcont, ?_⟩
        rw [scope_follow]
        exact Nat.lt_of_lt_of_le (hs.scopes w hw') hsize
    refine ⟨fun u hu => Where.open (hall u hu).1 (hall u hu).2, fun u hu => ?_⟩
    exact Nat.lt_trans (hall u hu).2 (by simp [openBlock])
  | @leave p rest _ hp =>
    obtain ⟨b, outer, ho⟩ := hn.outer_eq hp
    obtain ⟨hnested, -⟩ := hn.close hp ho
    have hbelow : ∀ u ∈ s.chains, Standing u (b :: outer) := by
      intro u hu
      rw [← ho]
      exact (hs.standing u hu).2
    cases p with
    | first cond =>
      unfold complete
      rw [closeBlock_eq ho]
      refine ⟨fun u hu => ?_, fun u hu => ?_⟩
      · rcases mem_append.1 hu with hu | hu
        · exact (hbelow u hu).replace rfl getElem?_append_cond
        · rw [mem_singleton.1 hu]
          refine ⟨fun _ => ⟨rfl, Nat.le_refl _, [.mk (some cond.id) s.recording.current.body], ?_⟩, ?_⟩
          · simp [pushChain, pushStmt]
          · exact where_of_not_mem fun hm => Nat.lt_irrefl _ (hnested.lt _ hm)
      · rcases mem_append.1 hu with hu | hu
        · exact hs.scopes u hu
        · rw [mem_singleton.1 hu]
          exact hnested.lt_size _ mem_cons_self
    | further key index guard =>
      have hclosed := closed_complete rest (.further key index guard) ho
      refine ⟨fun u hu => ?_, fun u hu => ?_⟩
      · obtain ⟨i, hi⟩ := mem_iff_getElem?.1 hu
        obtain ⟨v, hv, hscope, hplace, hdepth, hindex, -⟩ := getElem?_complete hi
        have hstand : Standing u (b :: outer) := by
          refine (hbelow v (mem_of_getElem? hv)).congr hscope hplace hdepth ?_
          rw [hindex, hplace]
          exact fun h => h
        rw [blocks, hclosed.outer]
        refine hstand.replace hclosed.scope ?_
        unfold complete
        rw [closeBlock_eq ho]
        exact getElem?_addBranch_cond (r := { s.recording with current := b, outer })
      · obtain ⟨i, hi⟩ := mem_iff_getElem?.1 hu
        obtain ⟨v, hv, hscope, -⟩ := getElem?_complete hi
        rw [hclosed.parents, hscope]
        exact hs.scopes v (mem_of_getElem? hv)
  | @abandon p rest _ hp =>
    obtain ⟨b, outer, ho⟩ := hn.outer_eq hp
    rw [closeBlock_eq ho]
    refine ⟨fun u hu => ?_, hs.scopes⟩
    have hbelow := (hs.standing u hu).2
    rwa [ho] at hbelow

theorem Leads.tracks {rule : Draft → Call → Prop} {t : Draft} (h : Leads rule s t) (hs : s.Holds)
    (hn : s.Nests) (ht : s.Tracks) : t.Tracks := by
  refine (h.invariant (P := fun t => t.Nests ∧ t.Tracks) hs ⟨hn, ht⟩ ?_).2
  exact fun _ _ _ _ hs _ hm => ⟨hm.nests hs.1, hm.tracks hs.1 hs.2⟩

/-- The call goes past the end of the innermost block. -/
def Misses (s : Draft) (t : Started) (cond : Option Expr) : Prop :=
  (s.recording.reopenWith t.chain cond).1 = .error .outOfRange ∧
    s.recording.current.body.length ≤ t.chain.index

theorem refuses_or_continues (hs : s.Holds) (ht : s.chains[key]? = some t)
    (hc : s.Admits (.continuing key cond)) :
    s.Refuses key t cond ∨ s.Misses t cond ∨ s.Branches key t cond t.chain.index ∨
      s.Drops key t cond t.chain.index := by
  cases hr : (s.recording.reopenWith t.chain cond).1 with
  | ok d =>
    obtain ⟨chain, hcont⟩ := continues_of_reopenWith hs ht hc (Prod.ext hr rfl)
    cases chain with
    | cond branches => exact .inr (.inr (.inl ⟨branches, hcont⟩))
    | bind | declare | assign | store =>
      exact .inr (.inr (.inr ⟨_, by simp, hcont⟩))
  | error e =>
    cases e with
    | capture e => exact .inl ((refuses_iff ht).2 ⟨e, hr⟩)
    | outOfRange => exact .inr (.inl ⟨hr, length_le_of_reopenWith hr⟩)

/-- In its own block a chain is refused or gets its branch, and the chains of the blocks
around are refused. The handle of a block that was closed is refused too, except in one
case: the innermost block has its depth, and what stands at its place could be moved to
the end. That is then done, and the branch is lost unless it is a conditional that stands
there; or nothing stands there. -/
theorem continue_chain {id : RecordingId} {inputs : List TensorType} {s : Draft}
    (h : Reachable id inputs s) {key : Nat} {t : Started} (ht : s.chains[key]? = some t)
    (cond : Option Expr) (hc : s.Admits (.continuing key cond)) :
    (t.scope = s.recording.current.scope →
        s.Refuses key t cond ∨ s.Branches key t cond t.place) ∧
      (t.scope ∈ s.recording.outer.map Block.scope → s.Refuses key t cond) ∧
      (t.scope ≠ s.recording.current.scope →
        (s.Refuses key t cond ↔ t.chain.closed = true ∨ t.chain.depth ≠ s.recording.depth ∨
          t.chain.index < s.recording.current.body.length ∧
            ¬s.recording.Movable t.chain.index (cond.map Expr.id)) ∧
        (s.Refuses key t cond ∨ s.Misses t cond ∨ s.Branches key t cond t.chain.index ∨
          s.Drops key t cond t.chain.index)) := by
  have hstart := holds_start id inputs
  have hcases := refuses_or_continues (h.holds hstart) ht hc
  have hiff := (refuses_iff ht).trans (reopenWith_capture_iff s.recording t.chain cond)
  have hstand := (h.tracks hstart (nests_start id inputs) (tracks_start id inputs)).standing t
    (List.mem_of_getElem? ht)
  refine ⟨fun hown => ?_, fun hout => ?_, fun _ => ⟨hiff, hcases⟩⟩
  · obtain ⟨-, hle, branches, hplace⟩ := hstand.1 hown
    have hlt : t.place < s.recording.current.body.length := (List.getElem?_eq_some_iff.1 hplace).1
    -- Behind the index in the handle stand only bindings, so the chain stands at it.
    have hindex {chain : Stmt} {grown : List Stmt → Stmt}
        (hcont : s.Continues key t cond t.chain.index chain grown) :
        t.place = t.chain.index ∧ chain = .cond branches := by
      obtain ⟨-, before, bound, hbody, hlen, -⟩ := hcont
      rw [hbody] at hplace
      have hi := le_of_getElem?_cond hplace
      have heq : t.place = before.length := by omega
      rw [heq] at hplace
      exact ⟨heq.trans hlen, by simpa using hplace⟩
    rcases hcases with hrefused | ⟨-, hout⟩ | ⟨branches', hcont⟩ | ⟨chain, hne, hcont⟩
    · exact .inl hrefused
    · omega
    · rw [(hindex hcont).1]
      exact .inr ⟨branches', hcont⟩
    · exact absurd (hindex hcont).2 (hne branches)
  · refine hiff.2 (.inr (.inl ?_))
    exact Nat.ne_of_lt (Standing.depth_lt hstand.2 hout)

/-- A capture up to a chain inside of a branch, whose handle has key 0, and the end of that
branch. -/
def nestedChain : List Call :=
  let vector : TensorType := ⟨⟨[2]⟩, .f32⟩
  let c : Expr := ⟨1, 3, .bool⟩
  [.outputLike vector, .positionIn ⟨[2]⟩, .element ⟨1, 0, vector⟩ [.expr ⟨1, 0, .i64⟩],
    .binary .gt ⟨1, 1, .f32⟩ (.literal (.int 0)), .branch c, .branch c, .leave]

/-- In the block of the chain its unguarded branch is recorded. -/
theorem continue_chain_nested :
    let s := (start 1 [⟨⟨[2]⟩, .f32⟩]).performAll nestedChain
    ∃ t, s.chains[0]? = some t ∧ t.scope = s.recording.current.scope ∧
      s.Branches 0 t none t.place := by
  intro s
  have hs : Reachable 1 [⟨⟨[2]⟩, .f32⟩] s := leads_performAll (by decide +kernel)
  obtain ⟨t, ht⟩ : ∃ t, s.chains[0]? = some t :=
    Option.isSome_iff_exists.1 (by decide +kernel)
  have hscope : t.scope = s.recording.current.scope := by
    have : s.chains[0]?.map Started.scope = some s.recording.current.scope := by decide +kernel
    rw [ht] at this
    exact Option.some.inj this
  obtain ⟨hown, -, -⟩ := continue_chain hs ht none (by decide +kernel)
  refine ⟨t, ht, hscope, (hown hscope).resolve_left fun hr => ?_⟩
  obtain ⟨e, he⟩ := hr.1
  have hok : s.chains[0]?.map (fun t => (s.recording.reopenWith t.chain none).1.isOk) = some true := by
    decide +kernel
  rw [ht] at hok
  simp [he, Except.isOk, Except.toBool] at hok

/-- With the block of the chain closed and another one of its depth open, the handle is not
refused: an empty block has no statement at its place, and in a block that holds another
chain it is that one which gets the branch. -/
theorem stale_chain_not_refused :
    let c : Expr := ⟨1, 3, .bool⟩
    let s := (start 1 [⟨⟨[2]⟩, .f32⟩]).performAll (nestedChain ++ [.leave, .branch c])
    let u := s.performAll [.branch c, .leave]
    Reachable 1 [⟨⟨[2]⟩, .f32⟩] s ∧ Reachable 1 [⟨⟨[2]⟩, .f32⟩] u ∧
      s.chains[0]?.map Started.scope ≠ some s.recording.current.scope ∧
      s.chains[0]?.map (fun t => t.chain.depth) = some s.recording.depth ∧
      (∀ t, s.chains[0]? = some t → ¬s.Refuses 0 t none) ∧
      u.recording.current.body.map Stmt.branchCount = [1] ∧
      ((u.perform (.otherwise 0)).perform .leave).recording.current.body.map Stmt.branchCount
        = [2] := by
  intro c s u
  have hs : Reachable 1 [⟨⟨[2]⟩, .f32⟩] s := leads_performAll (by decide +kernel)
  have hu : Reachable 1 [⟨⟨[2]⟩, .f32⟩] u := hs.trans (leads_performAll (by decide +kernel))
  refine ⟨hs, hu, by decide +kernel, by decide +kernel, fun t ht hr => ?_, by decide +kernel,
    by decide +kernel⟩
  rcases (reopenWith_capture_iff _ _ _).1 hr.1 with hclosed | hdepth | ⟨hlt, -⟩
  · have hopen : s.chains[0]?.map (fun t => t.chain.closed) = some false := by decide +kernel
    rw [ht] at hopen
    exact Bool.noConfusion (hclosed.symm.trans (Option.some.inj hopen))
  · have hsame : s.chains[0]?.map (fun t => t.chain.depth) = some s.recording.depth := by
      decide +kernel
    rw [ht] at hsame
    exact hdepth (Option.some.inj hsame)
  · have hempty : s.recording.current.body.length = 0 := by decide +kernel
    omega

end Draft
end TensorKernel

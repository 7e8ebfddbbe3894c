import Mathlib.Data.Nat.Init
import TensorKernel.Proofs.Outcome
import TensorKernel.Proofs.Tape.Order

/-! One sweep is the whole recursion. A gradient is the sum of what the users of a value pass
to it, computed from their own gradients; the sweep comes to a value only after all its users,
so what it passes on from there is final. Nothing is assumed of the arithmetic, and sums are
taken in the order in which the sweep takes them. -/
namespace TensorKernel.Tape

open List

variable {m : Type → Type} {ε V F C : Type} {rules : TapeRules (Except ε) V F C} {t : Tape V F C}
  {grads grads' : Grads V} {grad : V} {id k output j call : Nat} {op : TapeOp F}
  {node : TapeNode V F} {ids : List Nat} {c : TapeCall C}

/-! ### The recursion -/

def gradAt (rules : TapeRules (Except ε) V F C) (t : Tape V F C) (g : Nat → Option V) (id : Nat) :
    Except ε V :=
  match g id with
  | some grad => .ok grad
  | none => do rules.zeros (← t.value rules id)

/-- What an operation with the gradient `grad` passes to its operands, slot by slot. -/
def passOp (rules : TapeRules (Except ε) V F C) (t : Tape V F C) (op : TapeOp F) (grad : V) :
    Except ε (List V) :=
  match op with
  | .constant | .parameter | .result _ _ => .ok []
  | .add _ _ => .ok [grad, grad]
  | .mul a b => do
    let left ← rules.mul grad (← t.value rules b)
    let right ← rules.mul grad (← t.value rules a)
    return [left, right]
  | .square a => do return [← rules.squareGrad grad (← t.value rules a)]
  | .scale _ factor => do return [← rules.scale grad factor]

/-- What a call passes to its inputs: missing gradients of its outputs are zero. -/
def passCall (rules : TapeRules (Except ε) V F C) (t : Tape V F C) (g : Nat → Option V)
    (c : TapeCall C) : Except ε (List V) := do
  let outputGrads ← c.outputs.mapM (t.gradAt rules g)
  let inputs ← t.values rules c.inputs
  rules.callGrad c.callee inputs outputGrads

/-- What a node passes to its operands if gradients are `g`. -/
def passes (rules : TapeRules (Except ε) V F C) (t : Tape V F C) (g : Nat → Option V) (k : Nat) :
    Except ε (List V) :=
  match t.nodes[k]? with
  | none => .ok []
  | some ⟨_, .result call _⟩ =>
    match t.calls[call]? with
    | none => .ok []
    | some c => t.passCall rules g c
  | some ⟨_, op⟩ =>
    match g k with
    | none => .ok []
    | some grad => t.passOp rules op grad

def slots (id : Nat) (pairs : List (Nat × V)) : List V :=
  (pairs.filter (·.1 == id)).map Prod.snd

open Classical in
/-- The nodes that pass on gradients which `output` depends on, from the last to the first. -/
noncomputable def consumers (t : Tape V F C) (output : Nat) : List Nat :=
  (range (output + 1)).reverse.filter (t.Consumes output)

/-- The gradients `g` of `output` solve the recursion, where `parts` is what each node passes
to its operands. -/
structure IsGradient (rules : TapeRules (Except ε) V F C) (t : Tape V F C) (output : Nat)
    (g : Nat → Option V) (parts : Nat → List V) : Prop where
  seed : ∃ value ones, t.value rules output = .ok value ∧ rules.ones value = .ok ones ∧
    g output = some ones
  absent : ∀ id, ¬ t.Depends output id → g id = none
  /-- A consumer has a part for each of its operands. -/
  passed : ∀ k, t.Consumes output k → t.passes rules g k = .ok (parts k) ∧
    (parts k).length = (t.operands k).length
  sum : ∀ id, t.Depends output id → id ≠ output → ∃ first rest total,
    (t.consumers output).flatMap (fun k => slots id ((t.operands k).zip (parts k)))
      = first :: rest ∧
    rest.foldlM rules.add first = .ok total ∧ g id = some total

/-! ### Adding up -/

/-- Adds parts to a gradient; the first part of none is taken as it is. -/
def gather (rules : TapeRules (Except ε) V F C) : Option V → List V → Except ε (Option V)
  | acc, [] => .ok acc
  | none, part :: rest => gather rules (some part) rest
  | some acc, part :: rest => do gather rules (some (← rules.add acc part)) rest

theorem gather_nil (acc : Option V) : gather rules acc [] = .ok acc := by
  cases acc <;> rfl

theorem gather_append (acc : Option V) (xs ys : List V) :
    gather rules acc (xs ++ ys) = (gather rules acc xs >>= fun acc => gather rules acc ys) := by
  induction xs generalizing acc with
  | nil =>
    rw [gather_nil]
    rfl
  | cons x xs ih =>
    cases acc with
    | none => exact ih (some x)
    | some acc =>
      change (rules.add acc x >>= fun sum => gather rules (some sum) (xs ++ ys)) = _
      simp only [ih]
      exact (bind_assoc (rules.add acc x) _ _).symm

theorem gather_some (acc : V) (parts : List V) :
    gather rules (some acc) parts = some <$> parts.foldlM rules.add acc := by
  induction parts generalizing acc with
  | nil => rfl
  | cons part rest ih =>
    rw [foldlM_cons, map_bind]
    simp only [← ih]
    rfl

theorem isSome_gather {acc total : Option V} {parts : List V}
    (h : gather rules acc parts = .ok total) : total.isSome ↔ acc.isSome ∨ parts ≠ [] := by
  cases parts with
  | nil =>
    rw [gather_nil] at h
    cases h
    simp
  | cons part rest =>
    have hsome : total.isSome := by
      cases acc with
      | none =>
        change gather rules (some part) rest = .ok total at h
        rw [gather_some, map_eq_ok] at h
        obtain ⟨sum, -, rfl⟩ := h
        rfl
      | some acc =>
        rw [gather_some, map_eq_ok] at h
        obtain ⟨sum, -, rfl⟩ := h
        rfl
    simp [hsome]

theorem slots_cons (id : Nat) (pair : Nat × V) (pairs : List (Nat × V)) :
    slots id (pair :: pairs) = (if pair.1 = id then [pair.2] else []) ++ slots id pairs := by
  by_cases h : pair.1 = id <;> simp [slots, h]

theorem slots_flatMap (id : Nat) (f : Nat → List (Nat × V)) (ks : List Nat) :
    slots id (ks.flatMap f) = ks.flatMap fun k => slots id (f k) := by
  simp only [slots, filter_flatMap, map_flatMap]

theorem slots_eq_nil {parts : List V} (h : id ∉ ids) : slots id (ids.zip parts) = [] := by
  rw [slots, map_eq_nil_iff, filter_eq_nil_iff]
  intro pair hpair hid
  obtain ⟨hmem, -⟩ := of_mem_zip hpair
  exact h (by simpa using (beq_iff_eq.1 hid) ▸ hmem)

theorem slots_ne_nil {parts : List V} (hlength : parts.length = ids.length) (h : id ∈ ids) :
    slots id (ids.zip parts) ≠ [] := by
  obtain ⟨i, hi, rfl⟩ := getElem_of_mem h
  have hmem : (ids[i], parts[i]) ∈ ids.zip parts := by
    rw [mem_iff_getElem]
    exact ⟨i, by simp [hlength, hi], by simp⟩
  intro hnil
  rw [slots, map_eq_nil_iff, filter_eq_nil_iff] at hnil
  exact hnil _ hmem (by simp)

theorem lookup_filter_ne {i : Nat} (h : i ≠ id) (grads : Grads V) :
    (grads.filter (·.1 ≠ id)).lookup i = grads.lookup i := by
  induction grads with
  | nil => rfl
  | cons first rest ih =>
    obtain ⟨n, grad⟩ := first
    by_cases hn : n = id
    · subst hn
      rw [filter_cons_of_neg (by simp), ih, lookup_cons, beq_false_of_ne h]
    · rw [filter_cons_of_pos (by simpa using hn), lookup_cons, lookup_cons, ih]

theorem lookup_accumulate (h : grads.accumulate rules id grad = .ok grads') (i : Nat) :
    gather rules (grads.lookup i) (if id = i then [grad] else []) = .ok (grads'.lookup i) := by
  unfold Grads.accumulate at h
  by_cases hi : id = i
  · subst hi
    rw [if_pos rfl]
    split at h
    next hnone =>
      cases h
      rw [hnone]
      simp [gather]
    next before hsome =>
      obtain ⟨sum, hsum, h⟩ := bind_eq_ok.1 h
      cases h
      rw [hsome, gather_some, foldlM_cons, hsum]
      simp [pure, Except.pure, bind, Except.bind, Functor.map, Except.map]
  · have hne : (i == id) = false := beq_false_of_ne (Ne.symm hi)
    rw [if_neg hi, gather_nil]
    split at h
    next =>
      cases h
      rw [lookup_cons, hne]
    next =>
      obtain ⟨sum, -, h⟩ := bind_eq_ok.1 h
      cases h
      rw [lookup_cons, hne, lookup_filter_ne (Ne.symm hi)]

/-- Adds one part after the other to the gradients it goes to. -/
def accumulateAll (rules : TapeRules (Except ε) V F C) (grads : Grads V)
    (pairs : List (Nat × V)) : Except ε (Grads V) :=
  pairs.foldlM (fun grads (id, g) => grads.accumulate rules id g) grads

theorem accumulateAll_cons (grads : Grads V) (id : Nat) (grad : V) (pairs : List (Nat × V)) :
    accumulateAll rules grads ((id, grad) :: pairs)
      = (grads.accumulate rules id grad >>= fun grads => accumulateAll rules grads pairs) := by
  rw [accumulateAll, foldlM_cons]
  rfl

theorem accumulateAll_single (grads : Grads V) (id : Nat) (grad : V) :
    accumulateAll rules grads [(id, grad)] = grads.accumulate rules id grad := by
  rw [accumulateAll_cons]
  exact bind_pure _

theorem lookup_accumulateAll {pairs : List (Nat × V)}
    (h : accumulateAll rules grads pairs = .ok grads') (i : Nat) :
    gather rules (grads.lookup i) (slots i pairs) = .ok (grads'.lookup i) := by
  induction pairs generalizing grads with
  | nil =>
    cases h
    exact gather_nil _
  | cons pair pairs ih =>
    obtain ⟨id, grad⟩ := pair
    rw [accumulateAll_cons] at h
    obtain ⟨next, hnext, h⟩ := bind_eq_ok.1 h
    rw [slots_cons, gather_append, lookup_accumulate hnext i]
    exact ih h

/-! ### One step -/

/-- The node `k` has a gradient to pass on. -/
def Active (t : Tape V F C) (g : Nat → Option V) (k : Nat) : Prop := ∃ o ∈ t.group k, (g o).isSome

theorem passes_op {g : Nat → Option V} (hn : t.nodes[k]? = some node)
    (hop : node.op.isResult = false) (hg : g k = some grad) :
    t.passes rules g k = t.passOp rules node.op grad := by
  obtain ⟨value, op⟩ := node
  unfold passes
  rw [hn]
  cases op <;> first | (dsimp only; rw [hg]) | cases hop

theorem passes_call {value : V} {g : Nat → Option V}
    (hn : t.nodes[k]? = some ⟨value, .result call j⟩) (hc : t.calls[call]? = some c) :
    t.passes rules g k = t.passCall rules g c := by
  unfold passes
  simp only [hn, hc]

theorem passes_congr (ht : t.Ordered) {g g' : Nat → Option V} (h : ∀ o, k ≤ o → g o = g' o)
    (hk : t.group k ≠ []) : t.passes rules g k = t.passes rules g' k := by
  rcases t.node_cases k with hn | ⟨value, call, j, hn⟩ | ⟨node, hn, hop⟩
  · unfold passes
    rw [hn]
  · obtain ⟨c, first, count, hc, hp, hid, -⟩ := ht.call_of_result hn
    rw [passes_call hn hc, passes_call hn hc, passCall, passCall]
    cases j with
    | zero =>
      congr 1
      apply mapM_congr
      intro o ho
      have hle := hp.mem_outputs.1 ho
      rw [gradAt, gradAt, h o (by omega)]
    | succ j => exact absurd (group_rest hn) hk
  · unfold passes
    rw [hn, h k (Nat.le_refl k)]
    obtain ⟨value, op⟩ := node
    cases op <;> first | rfl | cases hop

theorem backOp_eq {parts : List V} (grads : Grads V) (hp : t.passOp rules op grad = .ok parts) :
    t.backOp rules grads op grad = accumulateAll rules grads (op.operands.zip parts) := by
  cases op with
  | constant => cases hp; rfl
  | parameter => cases hp; rfl
  | result call j => cases hp; rfl
  | add a b =>
    cases hp
    rw [backOp, TapeOp.operands, zip_cons_cons, accumulateAll_cons]
    simp only [zip_cons_cons, zip_nil_right, accumulateAll_single]
  | mul a b =>
    obtain ⟨y, hy, hp⟩ := bind_eq_ok.1 hp
    obtain ⟨left, hleft, hp⟩ := bind_eq_ok.1 hp
    obtain ⟨x, hx, hp⟩ := bind_eq_ok.1 hp
    obtain ⟨right, hright, hp⟩ := bind_eq_ok.1 hp
    cases hp
    rw [backOp, TapeOp.operands, zip_cons_cons, accumulateAll_cons]
    simp only [hy, hleft, hx, hright, ok_bind, zip_cons_cons, zip_nil_right,
      accumulateAll_single]
  | square a =>
    obtain ⟨x, hx, hp⟩ := bind_eq_ok.1 hp
    obtain ⟨part, hpart, hp⟩ := bind_eq_ok.1 hp
    cases hp
    simp only [backOp, hx, hpart, ok_bind, TapeOp.operands, zip_cons_cons,
      zip_nil_right, accumulateAll_single]
  | scale a factor =>
    obtain ⟨part, hpart, hp⟩ := bind_eq_ok.1 hp
    cases hp
    simp only [backOp, hpart, ok_bind, TapeOp.operands, zip_cons_cons,
      zip_nil_right, accumulateAll_single]

theorem passOp_of_backOp (h : t.backOp rules grads op grad = .ok grads') :
    ∃ parts, t.passOp rules op grad = .ok parts := by
  cases op with
  | constant => exact ⟨_, rfl⟩
  | parameter => exact ⟨_, rfl⟩
  | result call j => exact ⟨_, rfl⟩
  | add a b => exact ⟨_, rfl⟩
  | mul a b =>
    obtain ⟨y, hy, h⟩ := bind_eq_ok.1 h
    obtain ⟨left, hleft, h⟩ := bind_eq_ok.1 h
    obtain ⟨next, -, h⟩ := bind_eq_ok.1 h
    obtain ⟨x, hx, h⟩ := bind_eq_ok.1 h
    obtain ⟨right, hright, -⟩ := bind_eq_ok.1 h
    exact ⟨[left, right], by simp only [passOp, hy, hleft, hx, hright, ok_bind]; rfl⟩
  | square a =>
    obtain ⟨x, hx, h⟩ := bind_eq_ok.1 h
    obtain ⟨part, hpart, -⟩ := bind_eq_ok.1 h
    exact ⟨[part], by simp only [passOp, hx, hpart, ok_bind]; rfl⟩
  | scale a factor =>
    obtain ⟨part, hpart, -⟩ := bind_eq_ok.1 h
    exact ⟨[part], by simp only [passOp, hpart, ok_bind]; rfl⟩

theorem backCall_eq (hc : t.calls[call]? = some c) (ha : ∃ o ∈ c.outputs, (grads.lookup o).isSome) :
    t.backCall rules grads call = (t.passCall rules (grads.lookup ·) c >>= fun parts =>
      accumulateAll rules grads (c.inputs.zip parts)) := by
  obtain ⟨o, ho, hsome⟩ := ha
  have hall : (c.outputs.all fun id => (grads.lookup id).isNone) = false := by
    rw [all_eq_false]
    exact ⟨o, ho, by simpa using hsome⟩
  unfold backCall
  rw [hc]
  dsimp only
  rw [hall, if_neg Bool.false_ne_true, passCall]
  simp only [bind_assoc]
  rfl

theorem backNode_op (hn : t.nodes[k]? = some node) (hop : node.op.isResult = false)
    (hg : grads.lookup k = some grad) :
    t.backNode rules grads k = t.backOp rules grads node.op grad := by
  obtain ⟨value, op⟩ := node
  unfold backNode
  rw [hn]
  cases op with
  | result call j => cases hop
  | _ => dsimp only; rw [hg]

theorem backNode_first {value : V} (hn : t.nodes[k]? = some ⟨value, .result call 0⟩) :
    t.backNode rules grads k = t.backCall rules grads call := by
  unfold backNode
  simp only [hn]

theorem backNode_idle (ht : t.Ordered) (ha : ¬ t.Active (grads.lookup ·) k) :
    t.backNode rules grads k = .ok grads := by
  have hnone (o : Nat) (ho : o ∈ t.group k) : grads.lookup o = none := by
    rw [← Option.not_isSome_iff_eq_none]
    exact fun hsome => ha ⟨o, ho, hsome⟩
  rcases t.node_cases k with hn | ⟨value, call, j, hn⟩ | ⟨node, hn, hop⟩
  · unfold backNode
    rw [hn]
    rfl
  · obtain ⟨c, first, count, hc, hp, hid, -⟩ := ht.call_of_result hn
    cases j with
    | zero =>
      rw [group_first hn hc] at hnone
      have hall : (c.outputs.all fun id => (grads.lookup id).isNone) = true := by
        rw [all_eq_true]
        intro o ho
        rw [hnone o ho]
        rfl
      rw [backNode_first hn]
      unfold backCall
      rw [hc]
      dsimp only
      rw [hall, if_pos rfl]
      rfl
    | succ j =>
      unfold backNode
      simp only [hn]
      split <;> rfl
  · have hk : grads.lookup k = none := by
      apply hnone
      rw [group_eq hn hop]
      exact mem_singleton_self k
    obtain ⟨value, op⟩ := node
    unfold backNode
    rw [hn]
    cases op with
    | result call j => cases hop
    | _ => dsimp only; rw [hk]; rfl

theorem Active.cases (ht : t.Ordered) {g : Nat → Option V} (ha : t.Active g k) :
    (∃ node grad, t.nodes[k]? = some node ∧ node.op.isResult = false ∧ g k = some grad) ∨
    ∃ value call c, t.nodes[k]? = some ⟨value, .result call 0⟩ ∧ t.calls[call]? = some c ∧
      ∃ o ∈ c.outputs, (g o).isSome := by
  obtain ⟨o, ho, hsome⟩ := ha
  rcases ht.mem_group_cases ho with ⟨node, hn, hop, rfl⟩ | ⟨value, call, c, count, hn, hc, -, ho⟩
  · obtain ⟨grad, hg⟩ := Option.isSome_iff_exists.1 hsome
    exact .inl ⟨node, grad, hn, hop, hg⟩
  · exact .inr ⟨value, call, c, hn, hc, o, ho, hsome⟩

theorem backNode_active (ht : t.Ordered) {parts : List V} (ha : t.Active (grads.lookup ·) k)
    (hp : t.passes rules (grads.lookup ·) k = .ok parts) :
    t.backNode rules grads k = accumulateAll rules grads ((t.operands k).zip parts) := by
  rcases ha.cases ht with ⟨node, grad, hn, hop, hg⟩ | ⟨value, call, c, hn, hc, hsome⟩
  · rw [passes_op hn hop hg] at hp
    rw [backNode_op hn hop hg, operands_eq hn hop, backOp_eq grads hp]
  · rw [passes_call hn hc] at hp
    rw [backNode_first hn, operands_result hn hc, backCall_eq hc hsome, hp, ok_bind]

theorem passes_of_backNode (ht : t.Ordered) (ha : t.Active (grads.lookup ·) k)
    (h : t.backNode rules grads k = .ok grads') :
    ∃ parts, t.passes rules (grads.lookup ·) k = .ok parts := by
  rcases ha.cases ht with ⟨node, grad, hn, hop, hg⟩ | ⟨value, call, c, hn, hc, hsome⟩
  · rw [backNode_op hn hop hg] at h
    rw [passes_op hn hop hg]
    exact passOp_of_backOp h
  · rw [backNode_first hn, backCall_eq hc hsome] at h
    obtain ⟨parts, hp, -⟩ := bind_eq_ok.1 h
    rw [passes_call hn hc]
    exact ⟨parts, hp⟩

theorem lookup_backNode (ht : t.Ordered) (h : t.backNode rules grads k = .ok grads') (hid : k ≤ id)
    : grads'.lookup id = grads.lookup id := by
  by_cases ha : t.Active (grads.lookup ·) k
  · obtain ⟨parts, hp⟩ := passes_of_backNode ht ha h
    rw [backNode_active ht ha hp] at h
    have hsum := lookup_accumulateAll h id
    rw [slots_eq_nil, gather_nil] at hsum
    · exact (Except.ok.inj hsum).symm
    · intro hmem
      have hlt := ht.lt_of_mem_operands hmem
      omega
  · rw [backNode_idle ht ha] at h
    cases h
    rfl

/-! ### The whole sweep -/

def down (output k : Nat) : List Nat := (range' k (output + 1 - k)).reverse

theorem down_succ (h : k ≤ output) : down output k = down output (k + 1) ++ [k] := by
  have hlength : output + 1 - k = (output + 1 - (k + 1)) + 1 := by omega
  rw [down, hlength, range'_succ, reverse_cons, down]

theorem mem_down : j ∈ down output k ↔ k ≤ j ∧ j ≤ output := by
  rw [down, mem_reverse, mem_range'_1]
  omega

/-- The sweep as far as the node `k`. -/
def sweepTo [Monad m] (rules : TapeRules m V F C) (t : Tape V F C) (output k : Nat) :
    m (Grads V) := do
  let seed ← rules.ones (← t.value rules output)
  (down output k).foldlM (t.backNode rules) [(output, seed)]

theorem sweepTo_zero [Monad m] (rules : TapeRules m V F C) (t : Tape V F C) (output : Nat) :
    t.sweepTo rules output 0 = t.sweep rules output := by
  rw [sweepTo, sweep, down, range_eq_range', Nat.sub_zero]

theorem sweepTo_succ (h : k ≤ output) : t.sweepTo rules output k
    = (t.sweepTo rules output (k + 1) >>= fun grads => t.backNode rules grads k) := by
  simp only [sweepTo, bind_assoc, down_succ h, foldlM_append, foldlM_cons,
    foldlM_nil, bind_pure]

/-- What is known when the sweep has come down to `k`: the gradients are the sums of the parts
that nodes from `k` on pass to their operands. -/
structure Swept (rules : TapeRules (Except ε) V F C) (t : Tape V F C) (output : Nat) (seed : V)
    (k : Nat) (g : Nat → Option V) (parts : Nat → List V) : Prop where
  passed : ∀ j, k ≤ j → t.Active g j → t.passes rules g j = .ok (parts j)
  idle : ∀ j, ¬ (k ≤ j ∧ t.Active g j) → parts j = []
  total : ∀ id, gather rules (if id = output then some seed else none)
    ((down output k).flatMap fun j => slots id ((t.operands j).zip (parts j))) = .ok (g id)

theorem active_congr (ht : t.Ordered) {g g' : Nat → Option V} (hj : k ≤ j)
    (h : ∀ o, k ≤ o → g o = g' o) : t.Active g j ↔ t.Active g' j := by
  have hsame (o : Nat) (ho : o ∈ t.group j) : g o = g' o :=
    h o (Nat.le_trans hj (ht.le_of_mem_group ho))
  constructor
  · rintro ⟨o, ho, hsome⟩
    exact ⟨o, ho, hsame o ho ▸ hsome⟩
  · rintro ⟨o, ho, hsome⟩
    exact ⟨o, ho, hsame o ho ▸ hsome⟩

theorem Active.group_ne_nil {g : Nat → Option V} (h : t.Active g k) : t.group k ≠ [] := by
  obtain ⟨o, ho, -⟩ := h
  exact ne_nil_of_mem ho

theorem swept_start (ht : t.Ordered) (output : Nat) (seed : V) :
    Swept rules t output seed (output + 1) (([(output, seed)] : Grads V).lookup ·) fun _ => [] := by
  have hlookup (o : Nat) : ([(output, seed)] : Grads V).lookup o
      = if o = output then some seed else none := by
    by_cases h : o = output
    · simp [h]
    · rw [lookup_cons, beq_false_of_ne h, if_neg h]
      rfl
  constructor
  · rintro j hj ⟨o, ho, hsome⟩
    have hle := ht.le_of_mem_group ho
    dsimp only at hsome
    rw [hlookup, if_neg (by omega)] at hsome
    cases hsome
  · intro j _
    rfl
  · intro id
    have hnil : down output (output + 1) = [] := by simp [down]
    rw [hnil, flatMap_nil, gather_nil, hlookup]

/-- One step passes on what its node has to pass on. -/
theorem Swept.step (ht : t.Ordered) {seed : V} {grads grads' : Grads V} {parts : Nat → List V}
    (h : Swept rules t output seed (k + 1) (grads.lookup ·) parts) (hk : k ≤ output)
    (hb : t.backNode rules grads k = .ok grads') :
    ∃ parts', Swept rules t output seed k (grads'.lookup ·) parts' := by
  have hsame (o : Nat) (ho : k ≤ o) : grads.lookup o = grads'.lookup o :=
    (lookup_backNode ht hb ho).symm
  have hactive {j : Nat} (hj : k ≤ j) : t.Active (grads.lookup ·) j ↔ t.Active (grads'.lookup ·) j :=
    active_congr ht hj hsame
  have hpasses {j : Nat} (hj : k ≤ j) (ha : t.Active (grads'.lookup ·) j) :
      t.passes rules (grads'.lookup ·) j = t.passes rules (grads.lookup ·) j :=
    passes_congr ht (fun o ho => (hsame o (Nat.le_trans hj ho)).symm) ha.group_ne_nil
  by_cases ha : t.Active (grads.lookup ·) k
  · obtain ⟨new, hnew⟩ := passes_of_backNode ht ha hb
    rw [backNode_active ht ha hnew] at hb
    refine ⟨Function.update parts k new, ?_, ?_, ?_⟩
    · intro j hj haj
      rw [hpasses hj haj]
      by_cases hjk : j = k
      · subst hjk
        rw [hnew, Function.update_self]
      · rw [Function.update_of_ne hjk]
        exact h.passed j (by omega) ((hactive hj).2 haj)
    · intro j hj
      have hjk : j ≠ k := by
        rintro rfl
        exact hj ⟨Nat.le_refl j, (hactive (Nat.le_refl j)).1 ha⟩
      rw [Function.update_of_ne hjk]
      apply h.idle
      rintro ⟨hle, haj⟩
      exact hj ⟨by omega, (hactive (by omega)).1 haj⟩
    · intro id
      have hold : (down output (k + 1)).flatMap
          (fun j => slots id ((t.operands j).zip (Function.update parts k new j)))
          = (down output (k + 1)).flatMap fun j => slots id ((t.operands j).zip (parts j)) := by
        apply flatMap_congr
        intro j hj
        have hlt := (mem_down.1 hj).1
        rw [Function.update_of_ne (by omega)]
      rw [down_succ hk, flatMap_append, hold, gather_append, h.total id, ok_bind,
        flatMap_singleton, Function.update_self]
      exact lookup_accumulateAll hb id
  · rw [backNode_idle ht ha] at hb
    cases hb
    have hnil : parts k = [] := h.idle k (by omega)
    refine ⟨parts, ?_, ?_, ?_⟩
    · intro j hj haj
      have hjk : j ≠ k := fun he => ha (he ▸ haj)
      exact h.passed j (by omega) haj
    · intro j hj
      apply h.idle
      rintro ⟨hle, haj⟩
      exact hj ⟨by omega, haj⟩
    · intro id
      rw [down_succ hk, flatMap_append, gather_append, h.total id, ok_bind,
        flatMap_singleton, hnil, zip_nil_right]
      exact gather_nil _

theorem swept_of_sweepTo (ht : t.Ordered) (hk : k ≤ output + 1)
    (h : t.sweepTo rules output k = .ok grads) :
    ∃ value seed parts, t.value rules output = .ok value ∧ rules.ones value = .ok seed ∧
      Swept rules t output seed k (grads.lookup ·) parts := by
  -- The induction is on the number of nodes that were passed.
  induction hk using Nat.decreasingInduction generalizing grads with
  | self =>
    obtain ⟨value, hvalue, h⟩ := bind_eq_ok.1 h
    obtain ⟨seed, hseed, h⟩ := bind_eq_ok.1 h
    have hnil : down output (output + 1) = [] := by simp [down]
    rw [hnil] at h
    cases h
    exact ⟨value, seed, _, hvalue, hseed, swept_start ht output seed⟩
  | of_succ k hk ih =>
    rw [sweepTo_succ (by omega)] at h
    obtain ⟨before, hbefore, hb⟩ := bind_eq_ok.1 h
    obtain ⟨value, seed, parts, hvalue, hseed, hswept⟩ := ih hbefore
    obtain ⟨parts', hparts'⟩ := hswept.step ht (by omega) hb
    exact ⟨value, seed, parts', hvalue, hseed, hparts'⟩

/-- When the sweep comes to a node, its gradient is final. -/
theorem lookup_sweepTo (ht : t.Ordered) (hk : k ≤ output + 1) (h : t.sweep rules output = .ok grads) :
    ∃ before, t.sweepTo rules output k = .ok before ∧
      ∀ id, k ≤ id + 1 → before.lookup id = grads.lookup id := by
  induction k with
  | zero => exact ⟨grads, (sweepTo_zero rules t output).trans h, fun _ _ => rfl⟩
  | succ k ih =>
    obtain ⟨after, hafter, hsame⟩ := ih (by omega)
    rw [sweepTo_succ (by omega)] at hafter
    obtain ⟨before, hbefore, hb⟩ := bind_eq_ok.1 hafter
    refine ⟨before, hbefore, ?_⟩
    intro id hid
    rw [← hsame id (by omega), lookup_backNode ht hb (by omega)]

/-! ### Gradients and dependence -/

/-- Every call answers with a part for each of its inputs. -/
def Complete (rules : TapeRules (Except ε) V F C) (t : Tape V F C) : Prop :=
  ∀ (call : Nat) (c : TapeCall C), t.calls[call]? = some c → ∀ inputs outputGrads parts,
    t.values rules c.inputs = .ok inputs →
    rules.callGrad c.callee inputs outputGrads = .ok parts → parts.length = c.inputs.length

theorem length_passOp (hop : op.isResult = false) {parts : List V}
    (h : t.passOp rules op grad = .ok parts) : parts.length = op.operands.length := by
  cases op with
  | constant => cases h; rfl
  | parameter => cases h; rfl
  | result call j => cases hop
  | add a b => cases h; rfl
  | mul a b =>
    obtain ⟨y, -, h⟩ := bind_eq_ok.1 h
    obtain ⟨left, -, h⟩ := bind_eq_ok.1 h
    obtain ⟨x, -, h⟩ := bind_eq_ok.1 h
    obtain ⟨right, -, h⟩ := bind_eq_ok.1 h
    cases h
    rfl
  | square a =>
    obtain ⟨x, -, h⟩ := bind_eq_ok.1 h
    obtain ⟨part, -, h⟩ := bind_eq_ok.1 h
    cases h
    rfl
  | scale a factor =>
    obtain ⟨part, -, h⟩ := bind_eq_ok.1 h
    cases h
    rfl

theorem length_passes (ht : t.Ordered) (hc : t.Complete rules) {g : Nat → Option V} {parts : List V}
    (ha : t.Active g k) (h : t.passes rules g k = .ok parts) :
    parts.length = (t.operands k).length := by
  rcases ha.cases ht with ⟨node, grad, hn, hop, hg⟩ | ⟨value, call, c, hn, hcall, -⟩
  · rw [passes_op hn hop hg] at h
    rw [operands_eq hn hop, length_passOp hop h]
  · rw [passes_call hn hcall] at h
    obtain ⟨outputGrads, -, h⟩ := bind_eq_ok.1 h
    obtain ⟨inputs, hinputs, h⟩ := bind_eq_ok.1 h
    rw [operands_result hn hcall, hc call c hcall inputs outputGrads parts hinputs h]

namespace Swept

variable {output k : Nat} {seed : V} {g : Nat → Option V} {parts : Nat → List V}

theorem isSome_iff (h : Swept rules t output seed k g parts) (ht : t.Ordered)
    (hc : t.Complete rules) (id : Nat) : (g id).isSome ↔
      id = output ∨ ∃ j, k ≤ j ∧ j ≤ output ∧ t.Active g j ∧ id ∈ t.operands j := by
  rw [isSome_gather (h.total id)]
  have hseed : (if id = output then some seed else none).isSome ↔ id = output := by
    split <;> simp [*]
  rw [hseed, Ne, flatMap_eq_nil_iff]
  apply or_congr_right
  push Not
  constructor
  · rintro ⟨j, hj, hslots⟩
    obtain ⟨hle, hlt⟩ := mem_down.1 hj
    refine ⟨j, hle, hlt, ?_, ?_⟩
    · by_contra ha
      rw [h.idle j (fun hboth => ha hboth.2), zip_nil_right] at hslots
      exact hslots rfl
    · by_contra hid
      exact hslots (slots_eq_nil hid)
  · rintro ⟨j, hle, hlt, ha, hid⟩
    have hlength := length_passes ht hc ha (h.passed j hle ha)
    exact ⟨j, mem_down.2 ⟨hle, hlt⟩, slots_ne_nil hlength hid⟩

theorem isSome_iff_depends (h : Swept rules t output seed k g parts) (ht : t.Ordered)
    (hc : t.Complete rules) (hid : k ≤ id + 1) : (g id).isSome ↔ t.Depends output id := by
  -- Users of a value have greater numbers, so the induction goes down from the output.
  induction hn : output - id using Nat.strongRecOn generalizing id with
  | ind n ih =>
    rw [h.isSome_iff ht hc, ht.depends_iff]
    apply or_congr_right
    have husers (j : Nat) (hj : j ≤ output) (hmem : id ∈ t.operands j) :
        t.Active g j ↔ t.Consumes output j := by
      have hlt := ht.lt_of_mem_operands hmem
      apply exists_congr
      intro o
      apply and_congr_right
      intro ho
      have hle := ht.le_of_mem_group ho
      exact ih (output - o) (by omega) (by omega) rfl
    constructor
    · rintro ⟨j, -, hj, ha, hmem⟩
      exact ⟨j, (husers j hj hmem).1 ha, hmem⟩
    · rintro ⟨j, hconsumes, hmem⟩
      have hlt := ht.lt_of_mem_operands hmem
      have hj := ht.le_of_consumes hconsumes
      exact ⟨j, by omega, hj, (husers j hj hmem).2 hconsumes, hmem⟩

theorem active_iff_consumes (h : Swept rules t output seed k g parts) (ht : t.Ordered)
    (hc : t.Complete rules) (hj : k ≤ j + 1) : t.Active g j ↔ t.Consumes output j := by
  apply exists_congr
  intro o
  apply and_congr_right
  intro ho
  have hle := ht.le_of_mem_group ho
  exact h.isSome_iff_depends ht hc (by omega)

end Swept

theorem mem_consumers : k ∈ t.consumers output ↔ k ≤ output ∧ t.Consumes output k := by
  rw [consumers, mem_filter, mem_reverse, mem_range, Nat.lt_succ_iff]
  simp only [decide_eq_true_eq]

theorem flatMap_consumers {α : Type} {f : Nat → List α}
    (h : ∀ j ≤ output, ¬ t.Consumes output j → f j = []) :
    (down output 0).flatMap f = (t.consumers output).flatMap f := by
  have hdown : down output 0 = (range (output + 1)).reverse := by
    rw [down, Nat.sub_zero, range_eq_range']
  rw [hdown, consumers]
  have hle : ∀ j ∈ (range (output + 1)).reverse, j ≤ output := by
    intro j hj
    rw [mem_reverse, mem_range] at hj
    omega
  generalize (range (output + 1)).reverse = ks at hle ⊢
  induction ks with
  | nil => rfl
  | cons j rest ih =>
    have hrest := ih fun i hi => hle i (mem_cons_of_mem j hi)
    rw [flatMap_cons, hrest]
    by_cases hj : t.Consumes output j
    · rw [filter_cons_of_pos (by simpa using hj), flatMap_cons]
    · rw [filter_cons_of_neg (by simpa using hj), h j (hle j (mem_cons_self ..)) hj,
        nil_append]

/-- The gradients a sweep ends with solve the recursion. -/
theorem isGradient_of_sweep (ht : t.Ordered) (hc : t.Complete rules)
    (h : t.sweep rules output = .ok grads) :
    ∃ parts, t.IsGradient rules output (grads.lookup ·) parts := by
  rw [← sweepTo_zero] at h
  obtain ⟨value, seed, parts, hvalue, hseed, hswept⟩ := swept_of_sweepTo ht (by omega) h
  have hconsumers (j : Nat) : t.Active (grads.lookup ·) j ↔ t.Consumes output j :=
    hswept.active_iff_consumes ht hc (by omega)
  have hidle (id : Nat) : ∀ j ≤ output, ¬ t.Consumes output j →
      slots id ((t.operands j).zip (parts j)) = [] := by
    intro j _ hj
    rw [hswept.idle j (fun hboth => hj ((hconsumers j).1 hboth.2)), zip_nil_right]
    rfl
  refine ⟨parts, ⟨value, seed, hvalue, hseed, ?_⟩, ?_, ?_, ?_⟩
  · have htotal := hswept.total output
    rw [if_pos rfl] at htotal
    have hnil : (down output 0).flatMap (fun j => slots output ((t.operands j).zip (parts j)))
        = [] := by
      rw [flatMap_eq_nil_iff]
      intro j hj
      apply slots_eq_nil
      intro hmem
      have hlt := ht.lt_of_mem_operands hmem
      have hle := (mem_down.1 hj).2
      omega
    rw [hnil, gather_nil] at htotal
    exact (Except.ok.inj htotal).symm
  · intro id hd
    rw [← Option.not_isSome_iff_eq_none, hswept.isSome_iff_depends ht hc (by omega)]
    exact hd
  · intro k hk
    have ha := (hconsumers k).2 hk
    have hpassed := hswept.passed k (by omega) ha
    exact ⟨hpassed, length_passes ht hc ha hpassed⟩
  · intro id hd hne
    have htotal := hswept.total id
    rw [if_neg hne, flatMap_consumers (hidle id)] at htotal
    have hsome := (hswept.isSome_iff_depends ht hc (by omega)).2 hd
    obtain ⟨total, hg⟩ := Option.isSome_iff_exists.1 hsome
    rw [hg] at htotal
    cases hlist : (t.consumers output).flatMap fun k =>
        slots id ((t.operands k).zip (parts k)) with
    | nil =>
      rw [hlist] at htotal
      cases htotal
    | cons first rest =>
      rw [hlist] at htotal
      change gather rules (some first) rest = .ok (some total) at htotal
      rw [gather_some, map_eq_ok] at htotal
      obtain ⟨sum, hsum, heq⟩ := htotal
      cases heq
      exact ⟨first, rest, total, rfl, hsum, hg⟩

theorem IsGradient.isSome_of_depends {g : Nat → Option V} {parts : Nat → List V}
    (h : t.IsGradient rules output g parts) (hd : t.Depends output id) : (g id).isSome := by
  by_cases hid : id = output
  · subst hid
    obtain ⟨value, ones, -, -, hones⟩ := h.seed
    rw [hones]
    rfl
  · obtain ⟨first, rest, total, -, -, htotal⟩ := h.sum id hd hid
    rw [htotal]
    rfl

end TensorKernel.Tape

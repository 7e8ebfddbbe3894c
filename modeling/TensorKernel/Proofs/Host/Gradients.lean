import TensorKernel.Proofs.Host.Found

/-! Gradients of tensor tapes. On every tape that a host program makes, one sweep computes the
whole recursion of gradients, and it fails only at a call whose operator has none. -/
namespace TensorKernel

open HostTape List

variable {c : TapeCall PlacedOp} {g : Graph}

theorem LibraryOp.callGradient_eq_ok {op : LibraryOp} {device : Device}
    {inputs grads parts : List Tensor} {s : Session}
    (h : (op.callGradient device inputs grads s).1 = .ok parts) :
    ∃ k, op.grad = some k ∧ Tensor.types (inputs ++ grads) = k.inputs ∧
      Tensor.types parts = k.outputs := by
  unfold callGradient at h
  cases hk : op.grad with
  | none =>
    rw [hk] at h
    cases h
  | some k =>
    rw [hk] at h
    dsimp only at h
    split at h
    · cases h
    · rw [(k.launch_eq device _ s).1] at h
      obtain ⟨hinputs, houtputs, -⟩ := Kernel.answer_eq_ok h
      exact ⟨k, rfl, hinputs, houtputs⟩

/-- An operator without a gradient kernel refuses to pass gradients on. -/
def HostTape.refusal (c : PlacedOp) : Option Error :=
  match c.op.grad with
  | some _ => none
  | none => some (.noGradient c.op.name)

namespace Workbench

variable {p : Depot} {w : Workbench} {t : HostTape} {G : Graph → Prop}

theorem Formed.signature (hw : w.Formed p) {op : LibraryOp} (hop : w.Offers op) {k : Kernel}
    (hk : op.grad = some k) :
    k.inputs = op.forward.inputs ++ op.forward.outputs ∧ k.outputs = op.forward.inputs := by
  obtain ⟨i, hi, hop⟩ := hop
  exact (hw.instances i hi).signature hop hk

theorem Formed.complete (hw : w.Formed p) (ht : w.Carries t) (s : Session) :
    t.Complete (HostTape.rules.inState s) := by
  intro call c hc inputs grads parts _ hparts
  obtain ⟨k, hk, -, htypes⟩ := LibraryOp.callGradient_eq_ok hparts
  have htakes := congrArg List.length (ht.sound.typed.inputs call c hc)
  have hgives := congrArg List.length htypes
  rw [(hw.signature (ht.callee call c hc) hk).2] at hgives
  simp only [length_map] at htakes
  simp only [Tensor.types, length_map] at hgives
  rw [hgives, htakes]
  rfl

theorem Stocked.serves (hs : w.Stocked p G) (hw : w.Formed p) (hG : ∀ g, w.Captured g → G g)
    (ht : w.Carries t) :
    t.Serves (HostTape.rules.inState w.bench.session) typing refusal := by
  intro call c hc inputs grads hinputs hgrads
  have hoffers := ht.callee call c hc
  cases hk : c.callee.op.grad with
  | none =>
    simp only [refusal, hk]
    change (c.callee.op.callGradient c.callee.device inputs grads w.bench.session).1 = _
    rw [LibraryOp.callGradient, hk]
    rfl
  | some k =>
    simp only [refusal, hk]
    change ∃ parts, (c.callee.op.callGradient c.callee.device inputs grads w.bench.session).1
      = .ok parts ∧ _
    obtain ⟨htakes, hgives⟩ := hw.signature hoffers hk
    obtain ⟨g, hbuilt, rfl⟩ := (hw.within hoffers).grad k hk
    have hgood (type : TensorType) (htype : type ∈ g.outputs) : type.element.isBool = false := by
      have htaken : type ∈ c.callee.op.forward.inputs := hgives ▸ htype
      exact ht.sound.typed.good_takes hc htaken
    have htypes : Tensor.types (inputs ++ grads) = g.inputs := by
      rw [Tensor.types, map_append]
      exact (congrArg₂ (· ++ ·) hinputs hgrads).trans htakes.symm
    obtain ⟨parts, hparts⟩ := hs.answer_isOk hG hbuilt c.callee.device htypes hgood
    have hcall : (c.callee.op.callGradient c.callee.device inputs grads w.bench.session).1
        = .ok parts := by
      rw [LibraryOp.callGradient, hk]
      dsimp only
      rw [p.entryPoint_kernel, isEmpty_entryPoint, if_neg (by decide), hparts]
    obtain ⟨k', hk', -, hresults⟩ := LibraryOp.callGradient_eq_ok hcall
    obtain rfl : p.kernel g = k' := Option.some.inj (hk.symm.trans hk')
    exact ⟨parts, hcall, hresults.trans hgives⟩

section
variable (hs : w.Stocked p G) (hw : w.Formed p) (hG : ∀ g, w.Captured g → G g) (ht : w.Carries t)
  {output : Nat} (hout : output < t.length)
include hs hw hG ht hout

theorem Stocked.gradients_isOk (hno : ∀ call c e, ¬ t.Blocks refusal output call c e)
    {wrt : List Nat} (hwrt : ∀ id ∈ wrt, id < t.length) :
    ∃ results, (t.gradients HostTape.rules output wrt w.bench.session).1 = .ok results ∧
      Forall₂ (fun id x => t.typeAt typing id = some x.type) wrt results := by
  rw [(t.answers_gradients (w.settled p) (hw.callees ht) output wrt _ .refl).1]
  exact Tape.gradients_isOk ht.sound (safe _) (hs.serves hw hG ht) (hw.complete ht _)
    hout hno hwrt

theorem Stocked.gradients_blocked {call : Nat} {e : Error}
    (h : t.Blocks refusal output call c e)
    (hlast : ∀ call' c' e', t.Blocks refusal output call' c' e' → call' ≤ call)
    (wrt : List Nat) : (t.gradients HostTape.rules output wrt w.bench.session).1 = .error e := by
  rw [(t.answers_gradients (w.settled p) (hw.callees ht) output wrt _ .refl).1]
  exact Tape.gradients_blocked ht.sound (safe _) (hs.serves hw hG ht) (hw.complete ht _)
    hout h hlast wrt

end

/-! ### A program that relays a tensor -/

/-- Copies its input and, if it is differentiable, the gradient back. -/
def relay (differentiable : Bool) : Operator :=
  let register (name : String) : Register := ⟨false, name⟩
  let make (name : String) (action : Action) : TensorKernel.Step := .mk (some name) false action
  let copy (tensor : Given) : Script := {
    body := [
      make "out" (.outputLike (.given (.input 0))),
      make "at" (.positionIn ⟨[2]⟩),
      make "x" (.element tensor (.position (register "at"))),
      .mk none false (.store (register "out") (.position (register "at"))
        (.register (register "x")))]
    returns := [register "out"] }
  { name := "relay"
    forward := copy (.input 0)
    gradient := if differentiable then some (copy (.gradient 0)) else none }

def pair : TensorType := ⟨⟨[2]⟩, .i64⟩

theorem capture_relay (differentiable : Bool) :
    ∃ g, ((relay differentiable).forwardGraph [pair] none).result = .ok g ∧
      ((relay differentiable).forwardGraph [pair] none).guest = none ∧
      g.name = "relay" ∧ g.outputs = [pair] ∧
      ((relay differentiable).gradientGraph g none).result.toOption.map Graph.name
        = if differentiable then some "relay_grad" else none := by
  have hguest : ((relay differentiable).forwardGraph [pair] none).guest.isNone = true := by
    cases differentiable <;> decide +kernel
  have hall : ((relay differentiable).forwardGraph [pair] none).result.toOption.any (fun g => decide
      (g.name = "relay" ∧ g.outputs = [pair] ∧
        ((relay differentiable).gradientGraph g none).result.toOption.map Graph.name
          = if differentiable then some "relay_grad" else none)) = true := by
    cases differentiable <;> decide +kernel
  cases hg : ((relay differentiable).forwardGraph [pair] none).result with
  | error e =>
    rw [hg] at hall
    cases hall
  | ok g =>
    rw [hg] at hall
    obtain ⟨hname, houtputs, hgrad⟩ := of_decide_eq_true hall
    exact ⟨g, rfl, Option.isNone_iff_eq_none.1 hguest, hname, houtputs, hgrad⟩

def relayInput : NumberTensor := ⟨⟨pair, #[.int 3, .int 4], rfl⟩, rfl⟩

/-- The operator is called on a tensor, and the result squared. -/
def relayActs (differentiable : Bool) : List Act :=
  [.make (relay differentiable) [relayInput.1] .default, .libraryOp 0, .begin,
    .edit 0 (.parameter relayInput), .edit 0 (.call 0 .cpu [0]), .edit 0 (.square 1)]

theorem named_relay {differentiable : Bool} (hid : Text.IsIdentifier g.name)
    (hname : g.name = "relay")
    (hgrad : ((relay differentiable).gradientGraph g none).result.toOption.map Graph.name
      = if differentiable then some "relay_grad" else none) :
    Named (g :: ((relay differentiable).gradientGraph g none).result.toOption.toList) := by
  have hcases {g' : Graph}
      (h : g' ∈ g :: ((relay differentiable).gradientGraph g none).result.toOption.toList) :
      g' = g ∨ ((relay differentiable).gradientGraph g none).result = .ok g' ∧
        g'.name = "relay_grad" := by
    rcases mem_cons.1 h with rfl | h
    · exact .inl rfl
    · cases hresult : ((relay differentiable).gradientGraph g none).result with
      | error e =>
        rw [hresult] at h
        cases h
      | ok grad =>
        rw [hresult] at h hgrad
        cases mem_singleton.1 h
        cases differentiable with
        | false => cases hgrad
        | true => exact .inr ⟨rfl, Option.some.inj hgrad⟩
  refine ⟨?_, ?_, ?_⟩
  · intro g' h
    rcases hcases h with rfl | ⟨hresult, -⟩
    · exact hid
    · exact (Operator.gradientGraph_ok hid hresult).1
  · intro g' h
    rcases hcases h with rfl | ⟨-, hname'⟩
    · rw [hname]
      decide
    · rw [hname']
      decide
  · intro g₁ h₁ g₂ h₂ hsame
    rcases hcases h₁ with rfl | ⟨hresult₁, hname₁⟩ <;>
      rcases hcases h₂ with rfl | ⟨hresult₂, hname₂⟩
    · rfl
    · simp [hname, hname₂] at hsame
    · simp [hname, hname₁] at hsame
    · exact Except.ok.inj (hresult₁.symm.trans hresult₂)

theorem stored_relay {differentiable : Bool} {graphs : List Graph}
    (hgrad : ((relay differentiable).gradientGraph g none).result.toOption.map Graph.name
      = if differentiable then some "relay_grad" else none)
    (hgraphs : graphs = g :: ((relay differentiable).gradientGraph g none).result.toOption.toList) :
    match ((relay differentiable).gradientGraph g none).result with
    | .ok grad => grad ∈ graphs
    | .error e => ∃ name, e = .failed (.noGradient name) := by
  cases hresult : ((relay differentiable).gradientGraph g none).result with
  | error e =>
    cases differentiable with
    | false =>
      rw [Operator.gradientGraph_none rfl] at hresult
      exact ⟨_, (Except.error.inj hresult).symm⟩
    | true =>
      rw [hresult] at hgrad
      cases hgrad
  | ok grad =>
    rw [hgraphs, hresult]
    exact mem_cons_of_mem _ mem_cons_self

structure Offered (differentiable : Bool) (graphs : List Graph) (bench : Bench) (inst : Instance)
    (op : LibraryOp) : Prop where
  named : Named graphs
  run : (start (cacheBench graphs)).after
    [.make (relay differentiable) [relayInput.1] .default, .libraryOp 0, .begin]
      = ⟨bench, [inst], [op], [Tape.empty]⟩
  captured : ∀ d g, inst.graph? d = some g → g ∈ graphs
  inputs : inst.forward.inputs = [pair]
  outputs : inst.forward.outputs = [pair]
  name : inst.forward.name = "relay"
  grad : op.grad.isSome = differentiable

theorem exists_offered (differentiable : Bool) :
    ∃ graphs bench inst op, Offered differentiable graphs bench inst op := by
  obtain ⟨g, hg, hguest, hname, houtputs, hgrad⟩ := capture_relay differentiable
  obtain ⟨hid, hinputs⟩ := Operator.forwardGraph_ok hg
  have hnamed := named_relay hid hname hgrad
  obtain ⟨graphs, hgraphs⟩ : ∃ graphs,
      graphs = g :: ((relay differentiable).gradientGraph g none).result.toOption.toList := ⟨_, rfl⟩
  rw [← hgraphs] at hnamed
  have hmem : g ∈ graphs := hgraphs ▸ mem_cons_self
  obtain ⟨bench, inst, op, hafter, hforward, hgraph, hsome⟩ :=
    @after_libraryOp graphs hnamed (relay differentiable) [relayInput.1] g hg hguest hmem
      (stored_relay hgrad hgraphs)
  have hcaptured (d : Direction) (g' : Graph) (hd : inst.graph? d = some g') : g' ∈ graphs := by
    cases d with
    | forward =>
      rw [← Option.some.inj hd, hforward]
      exact hmem
    | grad =>
      rw [hgraphs]
      apply mem_cons_of_mem
      rw [Option.mem_toList, ← hgraph]
      exact hd
  have hdifferentiable : op.grad.isSome = differentiable := by
    have hnamed := congrArg Option.isSome hgrad
    rw [Option.isSome_map] at hnamed
    rw [hsome, hgraph, hnamed]
    cases differentiable <;> rfl
  subst hforward
  exact ⟨graphs, bench, inst, op, hnamed, hafter, hcaptured, hinputs, houtputs, hname,
    hdifferentiable⟩

/-- What the program comes to: a tape with a call, whose operator has a gradient or not. -/
structure Relayed (differentiable : Bool) (graphs : List Graph) (w : Workbench) (t : HostTape)
    (op : LibraryOp) : Prop where
  named : Named graphs
  run : (start (cacheBench graphs)).after (relayActs differentiable) = w
  captured : ∀ g, w.Captured g → g ∈ graphs
  tape : t ∈ w.tapes
  nodes : ∃ y z, t.nodes = #[⟨relayInput.1, .parameter⟩, ⟨y, .result 0 0⟩, ⟨z, .square 1⟩]
  calls : t.calls = #[⟨⟨op, .cpu⟩, [0], [1]⟩]
  name : op.name = "relay"
  grad : op.grad.isSome = differentiable

namespace Relayed

variable {differentiable : Bool} {graphs : List Graph} {op : LibraryOp}
  (h : Relayed differentiable graphs w t op)
include h

theorem length : t.length = 3 := by
  obtain ⟨y, z, hnodes⟩ := h.nodes
  rw [Tape.length, hnodes]
  rfl

theorem stocked : w.Stocked cacheDepot w.Captured := stocked_storeOf h.named h.run h.captured

theorem formed : w.Formed cacheDepot := h.run ▸ formed_after (cacheBench graphs) _

theorem calls_eq {call : Nat} (hc : t.calls[call]? = some c) :
    call = 0 ∧ c = ⟨⟨op, .cpu⟩, [0], [1]⟩ := by
  rw [h.calls] at hc
  cases call with
  | zero => exact ⟨rfl, (Option.some.inj hc).symm⟩
  | succ call => cases hc

theorem not_blocks (hd : differentiable = true) (call : Nat) (c : TapeCall PlacedOp) (e : Error) :
    ¬ t.Blocks refusal 2 call c e := by
  intro hb
  have hrefusal := hb.refusal
  rw [(h.calls_eq hb.call).2, refusal] at hrefusal
  obtain ⟨k, hk⟩ := Option.isSome_iff_exists.1 (h.grad.trans hd)
  rw [hk] at hrefusal
  cases hrefusal

theorem blocks (hd : differentiable = false) :
    t.Blocks refusal 2 0 ⟨⟨op, .cpu⟩, [0], [1]⟩ (.noGradient "relay") := by
  obtain ⟨y, z, hnodes⟩ := h.nodes
  refine ⟨?_, ?_, 1, mem_singleton_self 1, .single ?_⟩
  · rw [h.calls]
    rfl
  · have hnone := Option.isSome_eq_false_iff.1 (h.grad.trans hd)
    rw [refusal, Option.isNone_iff_eq_none.1 hnone, h.name]
  · rw [Tape.operands, hnodes]
    exact mem_singleton_self 1

end Relayed

theorem relayActs_eq (differentiable : Bool) : relayActs differentiable =
    ([.make (relay differentiable) [relayInput.1] .default, .libraryOp 0, .begin]
      ++ [.edit 0 (.parameter relayInput)])
      ++ [.edit 0 (.call 0 .cpu [0]), .edit 0 (.square 1)] := rfl

theorem exists_relayed (differentiable : Bool) :
    ∃ graphs w t op, Relayed differentiable graphs w t op := by
  obtain ⟨graphs, bench, inst, op, h⟩ := exists_offered differentiable
  obtain ⟨w, hw⟩ : ∃ w : Workbench,
    w = ⟨bench, [inst], [op], [(Tape.empty.parameter relayInput.1).2]⟩ := ⟨_, rfl⟩
  have hrun : (start (cacheBench graphs)).after
      ([.make (relay differentiable) [relayInput.1] .default, .libraryOp 0, .begin]
        ++ [.edit 0 (.parameter relayInput)]) = w := by
    rw [after_append, h.run, hw]
    rfl
  have hinstances : w.instances = [inst] := by rw [hw]
  have hcaptured {w : Workbench} (hw : w.instances = [inst]) (g : Graph) (hg : w.Captured g) :
      g ∈ graphs := by
    obtain ⟨i, hi, d, hd⟩ := hg
    rw [hw, mem_singleton] at hi
    exact h.captured d g (hi ▸ hd)
  have hformed : w.Formed cacheDepot := hrun ▸ formed_after (cacheBench graphs) _
  have hstocked := stocked_storeOf h.named hrun (hcaptured hinstances)
  have hoffers : inst.Offers op := by
    obtain ⟨i, hi, hoffers⟩ := hformed.ops op (by rw [hw]; exact mem_singleton_self _)
    rw [hinstances, mem_singleton] at hi
    exact hi ▸ hoffers
  obtain ⟨a, g, -, hg, hkernel⟩ := hoffers.forward
  obtain rfl : inst.forward = g := Option.some.inj hg
  have hinputs : op.forward.inputs = [pair] := by
    rw [hkernel]
    exact h.inputs
  have houtputs : op.forward.outputs = [pair] := by
    rw [hkernel]
    exact h.outputs
  obtain ⟨results, htypes, htapes, hsame⟩ := @act_call cacheDepot w _ hstocked hformed
    (fun _ h => h) 0 0 _ op (by rw [hw]; rfl) (by rw [hw]; rfl) .cpu [0]
    (by rw [hinputs]; rfl) (by rw [houtputs]; decide)
  rw [houtputs] at htypes
  obtain ⟨y, rfl⟩ : ∃ y, results = [y] :=
    length_eq_one_iff.1 ((length_map _).symm.trans (congrArg List.length htypes))
  have hy : y.type = pair := (cons.inj htypes).1
  obtain ⟨w', hw'⟩ : ∃ w', w.act (.edit 0 (.call 0 .cpu [0])) = w' := ⟨_, rfl⟩
  rw [hw'] at htapes hsame
  have hone : w.tapes = [(Tape.empty.parameter relayInput.1).2] := by rw [hw]
  rw [hone] at htapes
  obtain ⟨z, hsquare, hlast⟩ := @act_square w' 0 1 _ (by rw [htapes]; rfl) ⟨y, .result 0 0⟩ rfl
    (by rw [hy]; rfl)
  rw [htapes] at hsquare
  have htape : (w'.act (.edit 0 (.square 1))).tapes =
      [⟨#[⟨relayInput.1, .parameter⟩, ⟨y, .result 0 0⟩, ⟨z, .square 1⟩],
        #[⟨⟨op, .cpu⟩, [0], [1]⟩]⟩] := hsquare
  refine ⟨graphs, w'.act (.edit 0 (.square 1)), _, op, h.named, ?_,
    hcaptured (hlast.trans (hsame.trans hinstances)), by rw [htape]; exact mem_singleton_self _,
    ⟨y, z, rfl⟩, rfl, hoffers.name.trans h.name, h.grad⟩
  rw [relayActs_eq, after_append, hrun, after, foldl_cons, foldl_cons, foldl_nil, hw']

/-! ### What gradients are, and when there are any -/

/-- Gradients that a host program gets solve the recursion: the sweep's result is the ones of
the output, nothing where the output does not depend on a value, and else the sum of what the
consumers pass on, last to first. A gradient is final before it is passed on. -/
theorem gradients_recursion {b : Bench} {acts : List Act} {w : Workbench}
    (hw : (start b).after acts = w) {t : HostTape} (ht : t ∈ w.tapes) {output : Nat}
    {wrt : List Nat} {results : List Tensor}
    (h : (t.gradients HostTape.rules output wrt w.bench.session).1 = .ok results) :
    let rules := HostTape.rules.inState w.bench.session
    ∃ grads parts, (t.sweep HostTape.rules output w.bench.session).1 = .ok grads ∧
      t.IsGradient rules output (grads.lookup ·) parts ∧
      (∀ k ≤ output + 1, ∃ before,
        (t.sweepTo HostTape.rules output k w.bench.session).1 = .ok before ∧
        ∀ id, k ≤ id + 1 → before.lookup id = grads.lookup id) ∧
      wrt.mapM (t.gradAt rules (grads.lookup ·)) = .ok results := by
  intro rules
  have hformed := formed_after b acts
  rw [hw] at hformed
  have hcarried := hformed.tapes t ht
  have hordered := hcarried.sound.ordered
  have hsettled := w.settled b.session.depot
  have hcallees := hformed.callees hcarried
  rw [(t.answers_gradients hsettled hcallees output wrt _ .refl).1] at h
  obtain ⟨grads, hgrads, hresults⟩ := bind_eq_ok.1 h
  obtain ⟨parts, hparts⟩ :=
    Tape.isGradient_of_sweep hordered (hformed.complete hcarried _) hgrads
  refine ⟨grads, parts, ?_, hparts, ?_, hresults⟩
  · rw [(t.answers_sweep hsettled hcallees output _ .refl).1, hgrads]
  · intro k hk
    obtain ⟨before, hbefore, hsame⟩ := Tape.lookup_sweepTo hordered hk hgrads
    refine ⟨before, ?_, hsame⟩
    rw [(t.answers_sweepTo hsettled hcallees output k _ .refl).1, hbefore]

theorem gradients_recursion_relay : ∃ graphs w t op results, Relayed true graphs w t op ∧
    (t.gradients HostTape.rules 2 [0] w.bench.session).1 = .ok results ∧
    let rules := HostTape.rules.inState w.bench.session
    ∃ grads parts, (t.sweep HostTape.rules 2 w.bench.session).1 = .ok grads ∧
      t.IsGradient rules 2 (grads.lookup ·) parts ∧
      (∀ k ≤ 3, ∃ before, (t.sweepTo HostTape.rules 2 k w.bench.session).1 = .ok before ∧
        ∀ id, k ≤ id + 1 → before.lookup id = grads.lookup id) ∧
      [0].mapM (t.gradAt rules (grads.lookup ·)) = .ok results := by
  obtain ⟨graphs, w, t, op, h⟩ := exists_relayed true
  obtain ⟨results, hresults, -⟩ := @Stocked.gradients_isOk cacheDepot w t _ h.stocked h.formed
    (fun _ h => h) (h.formed.tapes t h.tape) 2 (by rw [h.length]; decide) (h.not_blocks rfl) [0]
    (by rw [h.length]; decide)
  exact ⟨graphs, w, t, op, results, h, hresults, gradients_recursion h.run h.tape hresults⟩

/-- On a tape that a host program made, gradients of a value fail if and only if it depends on
a result of a call whose operator has no gradient kernel, and then for the last such call.
Otherwise there is one for each value asked for, of its type. A gradient kernel takes what the
forward kernel takes and gives, and gives what that takes. -/
theorem gradients_fail_iff {config : Config} {files : FileTree} {b : Bench}
    (hstart : Session.start config files = .ok b.session) {acts : List Act} {w : Workbench}
    (hw : (start b).after acts = w) {p : Depot} (hp : b.session.depot = p)
    (hdigest : ∀ g g', w.Captured g → w.Captured g' → g.name = g'.name →
      Sha256.digest (p.origin g).message = Sha256.digest (p.origin g').message →
      (p.origin g).message = (p.origin g').message)
    (hclean : ∀ g, w.Captured g → ∀ c, b.session.files.content? (p.path g) = some c →
      ∃ library, c = .library library ∧ library.Suits g)
    {t : HostTape} (ht : t ∈ w.tapes) {output : Nat} (hout : output < t.length) {wrt : List Nat}
    (hwrt : ∀ id ∈ wrt, id < t.length) :
    let result := (t.gradients HostTape.rules output wrt w.bench.session).1
    ((∃ e, result = .error e) ↔ ∃ call c e, t.Blocks HostTape.refusal output call c e) ∧
    (∀ call c e, t.Blocks HostTape.refusal output call c e →
      (∀ call' c' e', t.Blocks HostTape.refusal output call' c' e' → call' ≤ call) →
      result = .error e) ∧
    (∀ results, result = .ok results →
      List.Forall₂ (fun id x => t.nodes[id]?.map (·.value.type) = some x.type) wrt results) ∧
    ∀ (call : Nat) (c : TapeCall PlacedOp) (k : Kernel), t.calls[call]? = some c →
      c.callee.op.grad = some k →
      k.inputs = c.callee.op.forward.inputs ++ c.callee.op.forward.outputs ∧
        k.outputs = c.callee.op.forward.inputs := by
  intro result
  subst hp
  have hformed : w.Formed b.session.depot := hw ▸ formed_after b acts
  have hstocked := stocked_of_start hstart hw hdigest hclean
  have hcarried := hformed.tapes t ht
  have hblocked {call : Nat} {c : TapeCall PlacedOp} {e : Error}
      (h : t.Blocks HostTape.refusal output call c e)
      (hlast : ∀ call' c' e', t.Blocks HostTape.refusal output call' c' e' → call' ≤ call) :
      result = .error e :=
    hstocked.gradients_blocked hformed (fun _ h => h) hcarried hout h hlast wrt
  have hfree := hstocked.gradients_isOk hformed (fun _ h => h) hcarried hout
  refine ⟨⟨?_, ?_⟩, fun call c e => hblocked, ?_, ?_⟩
  · rintro ⟨e, he⟩
    by_contra hno
    obtain ⟨results, hok, -⟩ := hfree (fun call c e h => hno ⟨call, c, e, h⟩) hwrt
    cases he.symm.trans hok
  · rintro ⟨call, c, e, h⟩
    obtain ⟨last, c', e', hlast, hmax⟩ := Tape.exists_last_blocks h
    exact ⟨e', hblocked hlast hmax⟩
  · intro results hok
    have hno (call : Nat) (c : TapeCall PlacedOp) (e : Error) :
        ¬ t.Blocks HostTape.refusal output call c e := by
      intro h
      obtain ⟨last, c', e', hlast, hmax⟩ := Tape.exists_last_blocks h
      cases (hblocked hlast hmax).symm.trans hok
    obtain ⟨results', hok', htypes⟩ := hfree hno hwrt
    cases hok.symm.trans hok'
    exact htypes
  · intro call c k hc hk
    exact hformed.signature (hcarried.callee call c hc) hk

theorem gradients_fail_iff_relay :
    (∃ graphs w t op results, Relayed true graphs w t op ∧
      (t.gradients HostTape.rules 2 [0, 1] w.bench.session).1 = .ok results ∧
      List.Forall₂ (fun id x => t.nodes[id]?.map (·.value.type) = some x.type) [0, 1] results) ∧
    ∃ graphs w t op, Relayed false graphs w t op ∧
      (t.gradients HostTape.rules 2 [0, 1] w.bench.session).1 = .error (.noGradient "relay") := by
  have hall {differentiable : Bool} {graphs : List Graph} {w : Workbench} {t : HostTape}
      {op : LibraryOp} (h : Relayed differentiable graphs w t op) :=
    @gradients_fail_iff _ _ (cacheBench graphs) (start_storeOf graphs) _ w h.run cacheDepot rfl
      (fun g g' hg hg' hname _ => by
        rw [h.named.inj g (h.captured g hg) g' (h.captured g' hg') hname])
      (fun g hg c hc => h.named.clean (h.captured g hg) hc)
      t h.tape 2 (by rw [h.length]; decide) [0, 1] (by rw [h.length]; decide)
  refine ⟨?_, ?_⟩
  · obtain ⟨graphs, w, t, op, h⟩ := exists_relayed true
    obtain ⟨hfail, -, htypes, -⟩ := hall h
    cases hresult : (t.gradients HostTape.rules 2 [0, 1] w.bench.session).1 with
    | error e =>
      obtain ⟨call, c, e, hblocks⟩ := hfail.1 ⟨e, hresult⟩
      exact absurd hblocks (h.not_blocks rfl call c e)
    | ok results => exact ⟨graphs, w, t, op, results, h, hresult, htypes results hresult⟩
  · obtain ⟨graphs, w, t, op, h⟩ := exists_relayed false
    refine ⟨graphs, w, t, op, h, (hall h).2.1 0 _ _ (h.blocks rfl) ?_⟩
    intro call c e hblocks
    exact Nat.le_of_eq (h.calls_eq hblocks.call).1

end Workbench
end TensorKernel

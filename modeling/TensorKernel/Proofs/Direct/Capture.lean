import TensorKernel.Proofs.Renumber
import TensorKernel.Proofs.Direct.Graphs
import TensorKernel.Proofs.Direct.Record
import TensorKernel.Proofs.Direct.Walk

/-! Capture preserves meaning. The graph of a structured script computes at every position
what the script says when its instructions are read in order: what was built between two
branches and now stands in front of the chain is worth the same there. -/
namespace TensorKernel

open Run Draft List

variable {g : Graph} {regs : Registers} {script : Script} {returns : List Register} {w : World}
  {V : View} {types : List TensorType}

namespace Recording

variable {r : Recording} {name : String}

def declared (r : Recording) (name : String) (domain : Shape) : Graph where
  name := name
  nodes := r.nodes
  body := r.current.body
  inputs := r.inputs
  outputs := r.outputs
  slots := r.slots.toList.map Slot.type
  domain := domain

theorem fits_declared (r : Recording) (name : String) (domain : Shape) (inputs : Array Buffer)
    (position : List Nat) : Surroundings.Fits ⟨r.declared name domain, inputs, position⟩ r where
  nodes _ node h := ⟨node.scope, h⟩
  slots v slot h := by
    change (r.slots.toList.map Slot.type)[v]? = _
    rw [getElem?_map, Array.getElem?_toList, h]
    rfl
  inputs := rfl
  outputs _ _ h := h

theorem Finished.renumbers {returned : List OutputTensor} (h : r.Finished name returned g)
    (hr : ∀ t ∈ returned, r.OwnsOutput t) :
    Renumbers (returned.map OutputTensor.index) r.outputs (returned.map OutputTensor.type) where
  nodup := h.nodup
  length := by rw [length_map, length_map]
  outputs k := by
    cases hk : r.outputs[k]? with
    | some type =>
      have htype := (returnOrder_signature h hr).outputs k type hk
      rw [h.graph] at htype
      exact htype
    | none =>
      have hout : k ∉ returned.map OutputTensor.index := by
        intro hm
        obtain ⟨t, ht, rfl⟩ := mem_map.1 hm
        have htype : r.outputs[t.index]? = some t.type := hr t ht (h.owners t ht)
        rw [hk] at htype
        cases htype
      rw [idxOf_eq_length hout, length_map]
      exact getElem?_eq_none (Nat.le_of_eq (length_map _))

end Recording

namespace View

def whole (S : Surroundings) (active : Bool) (outputs : Array Buffer) : View where
  around := S
  active := active
  entry := ⟨Array.replicate S.graph.nodes.size default,
    Array.replicate S.graph.slots.length default, outputs⟩
  live := if active then [Recording.rootScope] else []

theorem matches_start (S : Surroundings) (active : Bool) (outputs : Array Buffer)
    (id : RecordingId) (types : List TensorType) :
    (whole S active outputs).Matches [] (start id types) (.start outputs) where
  of := {
    nested := (nests_start id types).nested
    within := by
      cases active <;> simp [whole, start, Recording.start, Recording.scopes, Recording.blocks]
    active := by
      rintro rfl
      simp [whole, start, Recording.start, Recording.scopes, Recording.blocks]
    skipped := by
      rintro rfl
      simp [whole]
    size := Array.size_replicate
    slots := Array.size_replicate }
  agrees := {
    registers := fun _ _ h => by cases h
    slots := rfl
    values := fun v slot h => by simp [start, Recording.start] at h
    types := rfl
    domain := rfl
    outputs := by
      cases active
      · rfl
      · change outputs = (S.stepBlock _ []).outputs
        rw [Surroundings.stepBlock]
        rfl }
  length := rfl
  ran := fun _ _ _ h => by cases h

theorem Agrees.returned {r : Recording} (h : V.Agrees regs r w) {ts : List OutputTensor}
    (ht : returns.mapM (Registers.output? regs) = some ts) :
    returns.mapM w.output? = some (ts.map fun t => (t.index, t.type)) := by
  induction returns generalizing ts with
  | nil =>
    cases ht
    rfl
  | cons x rest ih =>
    rw [mapM_cons] at ht
    obtain ⟨t, hx, ht⟩ := Option.bind_eq_some_iff.1 ht
    obtain ⟨ts', hrest, ht⟩ := Option.bind_eq_some_iff.1 ht
    cases ht
    rw [mapM_cons, h.output hx, ih hrest]
    rfl

/-- The world at the end of a script has what the recording has, with the same numbers. -/
structure Concludes (V : View) (r : Recording) (returns : List Register)
    (returned : List OutputTensor) (w : World) : Prop where
  returned : returns.mapM w.output? = some (returned.map fun t => (t.index, t.type))
  types : w.types = r.outputs
  domain : w.domain = r.domain
  outputs : w.outputs = (V.now r).outputs

theorem Agrees.concludes {r : Recording} (h : V.Agrees regs r w) {returned : List OutputTensor}
    (hret : returns.mapM (Registers.output? regs) = some returned) :
    V.Concludes r returns returned w :=
  ⟨h.returned hret, h.types, h.domain, h.outputs⟩

end View

/-- What a script means that can be read, once for the plan and once at every position, as it
was recorded. -/
theorem interpret_of_walks {name : String} {r : Recording} {returned : List OutputTensor}
    {count : Nat} {inputs : Array Buffer} (hfin : r.Finished name returned g)
    (hown : ∀ t ∈ returned, r.OwnsOutput t) (hwalk : ∀ active outputs position, ∃ w,
      Site.walk ⟨types, count, inputs, position⟩ active (.start outputs) script.body = some w ∧
        (View.whole ⟨r.declared name g.domain, inputs, position⟩ active outputs).Concludes r
          script.returns returned w) :
    script.interpret types count inputs = some (g.run inputs) := by
  obtain ⟨plan, hplan, hends⟩ := hwalk false #[] []
  have hrun (outputs : Array Buffer) (position : List Nat) :
      (do
        let w ← Site.walk ⟨types, count, inputs, position⟩ true (.start outputs) script.body
        return w.outputs) =
      some ((r.declared name g.domain).runAt inputs outputs position) := by
    obtain ⟨w, hw, hends⟩ := hwalk true outputs position
    rw [hw]
    exact congrArg some hends.outputs
  have hg : g = (r.declared name g.domain).renumber (returned.map OutputTensor.index)
      (returned.map OutputTensor.type) := hfin.graph
  have hbuffers : g.run inputs = select (returned.map OutputTensor.index)
      ((r.declared name g.domain).run inputs) := by
    rw [hg]
    exact Graph.run_renumber (hfin.renumbers hown) inputs
  unfold Script.interpret
  simp only [hplan, hends.domain, hfin.domain, hends.returned, hends.types, hrun,
    Option.bind_eq_bind, Option.bind_some]
  have hfold : g.domain.positions.foldlM
      (fun outputs position => some ((r.declared name g.domain).runAt inputs outputs position))
      (r.declared name g.domain).zeroBuffers = some ((r.declared name g.domain).run inputs) := by
    rw [Graph.run_eq_foldl]
    exact foldlM_pure
  rw [hbuffers, select]
  refine (congrArg (Option.bind · _) hfold).trans ?_
  rw [Option.bind_some, map_map, map_map]
  rfl

theorem Took.interpret {given : Given → Option InputTensor} {id : RecordingId} {name : String}
    {s : Draft} {returned : List OutputTensor} {count : Nat}
    (h : Took given script.body [] (start id types) regs s)
    (hret : script.returns.mapM (Registers.output? regs) = some returned)
    (hown : ∀ t ∈ returned, s.recording.OwnsOutput t) (hfin : s.recording.Finished name returned g)
    (inputs : Array Buffer) (hσ : ∀ position, Site.Faces ⟨types, count, inputs, position⟩
      ⟨s.recording.declared name g.domain, inputs, position⟩ given) :
    script.interpret types count inputs = some (g.run inputs) := by
  refine interpret_of_walks hfin hown fun active outputs position => ?_
  obtain ⟨w, hw, hm, -⟩ := h.walk (settled_start id types) hfin.error
    (s.recording.fits_declared name g.domain inputs position) (hσ position) _ _ rfl
    (View.matches_start _ active outputs id types)
  exact ⟨w, hw, hm.agrees.concludes hret⟩

section
variable (id : RecordingId) (types : List TensorType) (count : Nat)

theorem given?_start {t : Given} {tensor : InputTensor}
    (h : (Desk.start id types count none).given? t = some tensor) :
    tensor ∈ (start id types).recording.inputTensors ∧ ∀ inputs position,
      Site.given? ⟨types, count, inputs, position⟩ t = some (tensor.index, tensor.type) := by
  have hget (k : Nat) : ((start id types).recording.inputTensors)[k]? =
      types[k]?.map fun type => ⟨id, k, type⟩ := getElem?_mapIdx
  cases t with
  | input k =>
    change ((start id types).recording.inputTensors.take count)[k]? = some tensor at h
    rw [getElem?_take] at h
    split at h
    next hk =>
      refine ⟨mem_of_getElem? h, fun _ _ => ?_⟩
      rw [hget] at h
      obtain ⟨type, htype, rfl⟩ := Option.map_eq_some_iff.1 h
      rw [Site.given?, if_pos hk, htype]
      rfl
    · cases h
  | gradient k =>
    change ((start id types).recording.inputTensors.drop count)[k]? = some tensor at h
    rw [getElem?_drop] at h
    refine ⟨mem_of_getElem? h, fun _ _ => ?_⟩
    rw [hget] at h
    obtain ⟨type, htype, rfl⟩ := Option.map_eq_some_iff.1 h
    rw [Site.given?, htype]
    rfl

theorem mirrors_start : Mirrors (Desk.start id types count none).given?
    (Desk.start id types count none) (start id types) where
  home := rfl
  guest := rfl
  chains := rfl
  tensors := rfl
  inputs _ _ h := (given?_start id types count h).1
  held _ _ h := by cases h

end

theorem graph_ok {id : RecordingId} {name : String} {d₀ d : Desk} (h : (do
      let outputs ← script.run id
      finishHome name outputs) d₀ = (.ok g, d)) :
    ∃ returned d₁, runSteps id script.body d₀ = (.ok (), d₁) ∧
      script.returns.mapM outputTensor d₁ = (.ok returned, d) ∧
      d.home.finish name returned = .ok g := by
  obtain ⟨returned, d', hscript, h⟩ := bind_ok.1 h
  obtain ⟨_, d₁, hsteps, hreturns⟩ := bind_ok.1 hscript
  obtain ⟨hfinish, rfl⟩ := finishHome_ok.1 h
  exact ⟨returned, d₁, hsteps, hreturns, hfinish⟩

theorem Mirrors.finished {given : Given → Option InputTensor} {name : String} {s : Draft}
    {d d' : Desk} {returned : List OutputTensor} (hm : Mirrors given d s) (hs : s.Holds)
    (h : returns.mapM outputTensor d = (.ok returned, d'))
    (hfinish : d'.home.finish name returned = .ok g) :
    returns.mapM (Registers.output? d.registers) = some returned ∧
      (∀ t ∈ returned, s.recording.OwnsOutput t) ∧ s.recording.Finished name returned g := by
  obtain ⟨hret, rfl⟩ := mapM_ok (fun _ _ _ h => outputTensor_ok hm.guest h) h
  rw [hm.home] at hfinish
  refine ⟨hret, fun t ht => ?_, Recording.finished_of_finish hfinish⟩
  obtain ⟨x, -, hx⟩ := exists_of_mem_mapM hret ht
  exact hs.outputs t (hm.output hx)

theorem interpret_of_run {id : RecordingId} {count : Nat} {name : String} {d : Desk} (hrun : (do
      let outputs ← script.run id
      finishHome name outputs) (Desk.start id types count none) = (.ok g, d)) (hdone : d.AllDone)
    (hs : structured [] script.body = true) (inputs : Array Buffer) :
    script.interpret types count inputs = some (g.run inputs) := by
  obtain ⟨returned, d₁, hsteps, hreturns, hfinish⟩ := graph_ok hrun
  have hdone₁ : d₁.AllDone := (Moves.mapM moves_outputTensor script.returns).allDone hreturns hdone
  have hholds := holds_start id types
  obtain ⟨s, hm, htook⟩ := recorded _ id 0 script.body [] _ d₁ (start id types) hs hsteps
    (Nat.zero_le _) (hdone₁.since 0) (mirrors_start id types count) hholds (nests_start id types)
    (fun _ hname => absurd hname not_mem_nil)
  obtain ⟨hret, howns, hfin⟩ := hm.finished (htook.leads.holds hholds) hreturns hfinish
  exact htook.interpret hret howns hfin inputs
    fun position => ⟨rfl, rfl, fun t tensor h => (given?_start id types count h).2 inputs position⟩

theorem captureOn_ok {desk : Desk} {x : Run Graph} (h : (captureOn desk x).result = .ok g)
    (he : (captureOn desk x).events.all Event.isDone = true) :
    ∃ d, x desk = (.ok g, d) ∧ d.AllDone := by
  unfold captureOn at h he
  generalize x desk = p at h he
  obtain ⟨result, d⟩ := p
  dsimp only at h he
  rw [all_reverse, all_eq_true] at he
  exact ⟨d, by rw [h], he⟩

/-- Both graphs of an operator mean what its scripts say. -/
theorem Operator.capture_preserves_meaning (op : Operator) :
    (∀ types g, (op.forwardGraph types none).result = .ok g →
        (op.forwardGraph types none).events.all Event.isDone = true →
        structured [] op.forward.body = true →
        ∀ inputs, op.forward.interpret types types.length inputs = some (g.run inputs)) ∧
      ∀ script forward g, op.gradient = some script → (op.gradientGraph forward none).result = .ok g →
        (op.gradientGraph forward none).events.all Event.isDone = true →
        structured [] script.body = true →
        ∀ inputs, script.interpret (forward.inputs ++ forward.outputs) forward.inputs.length inputs =
          some (g.run inputs) := by
  refine ⟨fun types g hg he hs inputs => ?_, fun script forward g hop hg he hs inputs => ?_⟩
  · obtain ⟨d, hd, hdone⟩ := captureOn_ok hg he
    exact interpret_of_run hd hdone hs inputs
  · unfold gradientGraph at hg he
    rw [hop] at hg he
    obtain ⟨d, hd, hdone⟩ := captureOn_ok hg he
    obtain ⟨outputs, d₁, hscript, h₁⟩ := bind_ok.1 hd
    obtain ⟨grad, d₂, hfinish, h₂⟩ := bind_ok.1 h₁
    obtain ⟨hcheck, rfl⟩ := lift_ok.1 h₂
    obtain rfl : grad = g := by
      unfold checkGradient at hcheck
      split at hcheck
      · exact Except.ok.inj hcheck
      · cases hcheck
    exact interpret_of_run (bind_ok.2 ⟨outputs, d₁, hscript, hfinish⟩) hdone hs inputs

/-- The sign of each element through a variable. The second guard reads the variable between
the branches, where the first branch may have set it. The gradient passes or is negated. -/
def signThroughVariable : Operator :=
  let register (name : String) : Register := ⟨false, name⟩
  let value (name : String) : Argument := .register (register name)
  let make (name : String) (action : Action) : Step := .mk (some name) false action
  let change (action : Action) : Step := .mk none false action
  let store (name : String) : Step :=
    change (.store (register "out") (.position (register "at")) (value name))
  let start := [
    make "out" (.outputLike (.given (.input 0))),
    make "at" (.positionIn ⟨[3]⟩),
    make "x" (.element (.input 0) (.position (register "at"))),
    make "positive" (.binary .gt (value "x") (.literal (.int 0)))]
  { name := "sign"
    forward := {
      body := start ++ [
        make "v" (.declare (.literal (.int 0)) .i64),
        make "chain" (.branch (register "positive") [
          change (.assign (register "v") (.literal (.int 1)))]),
        make "now" (.get (register "v")),
        make "unset" (.binary .lt (value "now") (.literal (.int 1))),
        make "negative" (.binary .lt (value "x") (.literal (.int 0))),
        make "both" (.binary .and (value "unset") (value "negative")),
        change (.elif (register "chain") (register "both") [
          change (.assign (register "v") (.literal (.int (-1))))]),
        make "sign" (.get (register "v")),
        store "sign"]
      returns := [register "out"] }
    gradient := some {
      body := start ++ [
        make "dy" (.element (.gradient 0) (.position (register "at"))),
        make "chain" (.branch (register "positive") [store "dy"]),
        make "back" (.unary .neg (register "dy")),
        change (.otherwise (register "chain") [store "back"])]
      returns := [register "out"] } }

theorem Operator.capture_preserves_meaning_sign :
    let vector : TensorType := ⟨⟨[3]⟩, .i64⟩
    let x : Buffer := #[.int 5, .int (-5), .int 0]
    let dy : Buffer := #[.int 7, .int 8, .int 9]
    ∃ g script grad, (signThroughVariable.forwardGraph [vector] none).result = .ok g ∧
      signThroughVariable.forward.interpret [vector] 1 #[x] = some (g.run #[x]) ∧
      g.run #[x] = #[#[.int 1, .int (-1), .int 0]] ∧
      signThroughVariable.gradient = some script ∧
      (signThroughVariable.gradientGraph g none).result = .ok grad ∧
      script.interpret (g.inputs ++ g.outputs) g.inputs.length #[x, dy] = some (grad.run #[x, dy]) ∧
      grad.run #[x, dy] = #[#[.int 7, .int (-8), .int (-9)]] := by
  intro vector x dy
  obtain ⟨g, hg⟩ := exists_ok_of_isOk
    (show (signThroughVariable.forwardGraph [vector] none).result.isOk = true by decide +kernel)
  obtain ⟨script, hscript⟩ := Option.isSome_iff_exists.1
    (show signThroughVariable.gradient.isSome = true by rfl)
  have hstructured : signThroughVariable.gradient.all (structured [] ·.body) = true := by
    decide +kernel
  have hback : (match (signThroughVariable.forwardGraph [vector] none).result with
      | .error _ => false
      | .ok g =>
        let captured := signThroughVariable.gradientGraph g none
        captured.result.isOk && captured.events.all Event.isDone &&
          decide ((signThroughVariable.gradient.bind
            (·.interpret (g.inputs ++ g.outputs) g.inputs.length #[x, dy])) =
              some #[#[.int 7, .int (-8), .int (-9)]])) = true := by
    decide +kernel
  have hvalue : signThroughVariable.forward.interpret [vector] 1 #[x] =
      some #[#[.int 1, .int (-1), .int 0]] := by
    decide +kernel
  rw [hg] at hback
  simp only [hscript, Option.all_some, Option.bind_some, Bool.and_eq_true, decide_eq_true_eq]
    at hback hstructured
  obtain ⟨⟨hok, hdone⟩, hgradient⟩ := hback
  obtain ⟨grad, hgrad⟩ := exists_ok_of_isOk hok
  obtain ⟨hmeans, hback⟩ := signThroughVariable.capture_preserves_meaning
  have hforward := hmeans [vector] g hg (by decide +kernel) (by decide +kernel) #[x]
  have hgrad' := hback script g grad hscript hgrad hdone hstructured #[x, dy]
  refine ⟨g, script, grad, hg, hforward, ?_, hscript, hgrad, hgrad', ?_⟩
  · exact Option.some.inj (hforward.symm.trans hvalue)
  · exact Option.some.inj (hgrad'.symm.trans hgradient)

end TensorKernel

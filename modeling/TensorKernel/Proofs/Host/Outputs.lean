import Mathlib.Data.List.Perm.Basic
import TensorKernel.Proofs.Direct.Graphs
import TensorKernel.Proofs.Draft.Outline
import TensorKernel.Proofs.Host.Kernel

/-! The outputs of a capture: which types are declared, that a finished graph gives exactly
these, and what an output of truth values means for the launches of its kernel. -/
namespace TensorKernel

open List

variable {calls : List Call} {c : Call}

/-! ### What a call declares -/

/-- The type of the output that a call declares. Of the two ways to declare one only
`output` looks at the elements. -/
def Call.declares? : Call → Option TensorType
  | .output type => if type.element.isBool then none else some type
  | .outputLike type => some type
  | _ => none

namespace Recording

theorem Finished.outputs_perm {r : Recording} {name : String} {returned : List OutputTensor}
    {g : Graph} (h : r.Finished name returned g) (hr : ∀ t ∈ returned, r.OwnsOutput t) :
    g.outputs.Perm r.outputs := by
  have hindex : ∀ t ∈ returned, r.outputs[t.index]? = some t.type :=
    fun t ht => hr t ht (h.owners t ht)
  have horder : (returned.map OutputTensor.index).Perm (range r.outputs.length) := by
    rw [perm_ext_iff_of_nodup h.nodup nodup_range]
    intro k
    rw [mem_range]
    refine ⟨fun hk => ?_, h.all k⟩
    obtain ⟨t, ht, rfl⟩ := mem_map.1 hk
    exact (List.getElem?_eq_some_iff.1 (hindex t ht)).1
  have htypes : (returned.map OutputTensor.type).map some =
      (returned.map OutputTensor.index).map (r.outputs[·]?) := by
    rw [map_map, map_map]
    exact map_congr_left fun t ht => (hindex t ht).symm
  have hall : (range r.outputs.length).map (r.outputs[·]?) = r.outputs.map some := by
    apply ext_getElem
    · simp
    · simp
  have hgraph : g.outputs = returned.map OutputTensor.type := by
    rw [h.graph]
    rfl
  rw [← map_perm_map_iff (Option.some_injective _), hgraph, htypes, ← hall]
  exact horder.map _

end Recording

namespace Draft
open Recording

theorem outputs_perform_of_none {s : Draft} (h : c.declares? = none) :
    (s.perform c).recording.outputs = s.recording.outputs := by
  cases hc : c.declares with
  | false => exact congrArg Prod.fst (s.outline_perform hc).1
  | true =>
    cases c with
    | output type =>
      have hbool : type.element.isBool = true := by
        by_contra hbool
        rw [Call.declares?, if_neg hbool] at h
        cases h
      rw [perform, Recording.output, if_pos hbool]
    | outputLike type => cases h
    | positionIn shape =>
      unfold perform
      dsimp only
      split
      next hp => exact (built_of_positionIn hp).2.outputs
      · rfl
    | _ => cases hc

theorem outputs_perform_of_some {s : Draft} {type : TensorType} (h : c.declares? = some type) :
    (s.perform c).recording.outputs = s.recording.outputs ++ [type] := by
  unfold Call.declares? at h
  split at h
  · split at h
    · cases h
    next hbool =>
      cases h
      rw [perform, Recording.output, if_neg hbool]
      rfl
  · cases h
    rfl
  · cases h

theorem outputs_performAll (s : Draft) (calls : List Call) :
    (s.performAll calls).recording.outputs =
      s.recording.outputs ++ calls.filterMap Call.declares? := by
  induction calls generalizing s with
  | nil => simp [performAll]
  | cons c rest ih =>
    change ((s.perform c).performAll rest).recording.outputs = _
    rw [ih, filterMap_cons]
    cases hc : c.declares? with
    | none => rw [outputs_perform_of_none hc]
    | some type => simp [outputs_perform_of_some hc]

theorem exists_bool_declared_iff :
    (∃ type ∈ calls.filterMap Call.declares?, type.element = .bool) ↔
      ∃ type, Call.outputLike type ∈ calls ∧ type.element = .bool := by
  constructor
  · rintro ⟨type, hmem, hbool⟩
    obtain ⟨c, hc, hdeclares⟩ := mem_filterMap.1 hmem
    refine ⟨type, ?_, hbool⟩
    unfold Call.declares? at hdeclares
    split at hdeclares
    · split at hdeclares
      · cases hdeclares
      next hnot =>
        cases hdeclares
        exact absurd (by rw [hbool]; rfl) hnot
    · cases hdeclares
      exact hc
    · cases hdeclares
  · rintro ⟨type, hmem, hbool⟩
    exact ⟨type, mem_filterMap.2 ⟨_, hmem, rfl⟩, hbool⟩

theorem exists_first_bool (h : ∃ type, Call.outputLike type ∈ calls ∧ type.element = .bool) :
    ∃ before type after, calls = before ++ .outputLike type :: after ∧ type.element = .bool ∧
      ∀ earlier ∈ before.filterMap Call.declares?, earlier.element ≠ .bool := by
  induction calls with
  | nil =>
    obtain ⟨type, hmem, -⟩ := h
    cases hmem
  | cons c rest ih =>
    by_cases hfirst : ∃ type, c = .outputLike type ∧ type.element = .bool
    · obtain ⟨type, rfl, hbool⟩ := hfirst
      exact ⟨[], type, rest, rfl, hbool, by simp⟩
    · obtain ⟨type, hmem, hbool⟩ := h
      have hrest : Call.outputLike type ∈ rest := by
        rcases mem_cons.1 hmem with rfl | hrest
        · exact absurd ⟨type, rfl, hbool⟩ hfirst
        · exact hrest
      obtain ⟨before, first, after, rfl, hb, hbefore⟩ := ih ⟨type, hrest, hbool⟩
      refine ⟨c :: before, first, after, rfl, hb, ?_⟩
      intro earlier hmem hbool
      obtain ⟨shown, hmem, hbool⟩ := exists_bool_declared_iff.1 ⟨earlier, hmem, hbool⟩
      rcases mem_cons.1 hmem with rfl | hmem
      · exact hfirst ⟨shown, rfl, hbool⟩
      · exact hbefore shown (mem_filterMap.2 ⟨_, hmem, rfl⟩) hbool

end Draft

/-! ### Launches -/

namespace Tensor

theorem ofValues_ne_boolElements {type : TensorType} (hb : type.element.isBool = false)
    (data : Array Value) : ofValues type data ≠ .error .boolElements := by
  intro h
  rw [ofValues, if_neg (by simp [hb])] at h
  split at h
  · cases h
  · cases h

end Tensor

theorem Session.load_ne_boolElements (path : String) (s : Session) :
    (Session.load path s).1 ≠ .error .boolElements := by
  unfold load
  dsimp only
  split
  · simp
  · split
    · simp
    · simp [Error.boolElements]

namespace Kernel

variable (k : Kernel) (device : Device) (inputs : List Tensor) (s : Session)

/-- The launch gets as far as its outputs: a library is registered, the inputs are those of
the kernel, and the library is there and has the symbol. -/
structure ReachesOutputs : Prop where
  registered : (k.entryPoint device.backend).isEmpty = false
  types : Tensor.types inputs = k.inputs
  library : ∃ library, (Session.load (k.entryPoint device.backend).path s).1 = .ok library ∧
    library.entry = (k.entryPoint device.backend).symbol

variable {k device inputs s}

theorem collect_ne_boolElements (hb : ∀ type ∈ k.outputs, type.element.isBool = false)
    (buffers : Array Buffer) : k.collect buffers ≠ .error .boolElements := by
  intro h
  obtain ⟨⟨type, n⟩, hmem, h⟩ := exists_of_mapM_error h
  exact Tensor.ofValues_ne_boolElements (hb type (fst_mem_of_mem_zipIdx hmem)) _ h

theorem any_isBool_iff {types : List TensorType} :
    types.any (·.element.isBool) = true ↔ ∃ type ∈ types, type.element = .bool := by
  have hbool (t : ElementType) : t.isBool = true ↔ t = .bool := by
    cases t <;> simp [ElementType.isBool]
  simp [hbool]

theorem launch_eq_boolElements_iff :
    (k.launch device inputs s).1 = .error .boolElements ↔
      (∃ type ∈ k.outputs, type.element = .bool) ∧ k.ReachesOutputs device inputs s := by
  rw [(k.launch_eq device inputs s).1, ← any_isBool_iff]
  unfold answer
  dsimp only
  constructor
  · intro h
    split at h
    · cases device
      exact absurd (Error.message.inj (Except.error.inj h)) (by decide)
    next hregistered =>
      by_cases htypes : Tensor.types inputs = k.inputs
      · have hcheck (name : String) : k.checkInputs name inputs = .ok () := if_pos htypes
        rw [hcheck] at h
        cases hload : (Session.load (k.entryPoint device.backend).path s).1 with
        | error e =>
          rw [hload] at h
          cases h
          exact absurd hload (Session.load_ne_boolElements _ s)
        | ok library =>
          rw [hload] at h
          change k.outcome _ inputs library = _ at h
          unfold outcome at h
          split at h
          · cases h
          next hsymbol =>
            split at h
            next hbool =>
              exact ⟨hbool, by simpa using hregistered, htypes, library, hload,
                Decidable.of_not_not hsymbol⟩
            next hnone =>
              split at h
              · cases h
              · exact absurd h (collect_ne_boolElements (by simpa using hnone) _)
      · have hcheck (name : String) : ∃ expected given,
            k.checkInputs name inputs = .error (.shapeMismatch "dynamic_lib" expected given) :=
          ⟨_, _, if_neg htypes⟩
        obtain ⟨expected, given, hcheck⟩ := hcheck (k.entryPoint device.backend).name
        rw [hcheck] at h
        cases h
  · rintro ⟨hbool, hregistered, htypes, library, hload, hsymbol⟩
    have hcheck (name : String) : k.checkInputs name inputs = .ok () := if_pos htypes
    rw [hregistered, hcheck, hload]
    change k.outcome _ inputs library = _
    rw [outcome, if_neg (not_not.2 hsymbol), if_pos hbool]

end Kernel

/-! ### Captures -/

namespace Draft
open Recording

/-- A finished graph gives exactly the outputs that were declared, so one is of truth values
exactly if a call of `outputLike` named such a type. The kernel of such a graph never runs:
each launch fails, at the latest when it makes its outputs; without one no launch fails there.
As long as no input is of truth values, the first such type is neither that of an input nor
that of an earlier output, and no gradient graph has one. -/
theorem bool_output_iff_outputLike {id : RecordingId} {inputs : List TensorType}
    {calls : List Call} {name : String} {returned : List OutputTensor} {g : Graph}
    (hcalls : Follows Anything (start id inputs) calls)
    (hr : ∀ t ∈ returned, ((start id inputs).performAll calls).KnowsOutput t)
    (hg : ((start id inputs).performAll calls).recording.finish name returned = .ok g) :
    g.outputs.Perm (calls.filterMap Call.declares?) ∧
      ((∃ type ∈ g.outputs, type.element = .bool) ↔
        ∃ type, Call.outputLike type ∈ calls ∧ type.element = .bool) ∧
      (∀ k : Kernel, k.outputs = g.outputs → ∀ device tensors session,
        ((k.launch device tensors session).1 = .error .boolElements ↔
          (∃ type ∈ g.outputs, type.element = .bool) ∧
            k.ReachesOutputs device tensors session) ∧
        ((∃ type ∈ g.outputs, type.element = .bool) →
          ∀ results, (k.launch device tensors session).1 ≠ .ok results)) ∧
      ((∀ type ∈ inputs, type.element ≠ .bool) →
        ((∃ type ∈ g.outputs, type.element = .bool) →
          ∃ before type after, calls = before ++ .outputLike type :: after ∧
            type.element = .bool ∧ type ∉ inputs ∧ type ∉ before.filterMap Call.declares?) ∧
        ∀ (op : Operator) guest grad, (op.gradientGraph g guest).result = .ok grad →
          ∀ type ∈ grad.outputs, type.element ≠ .bool) := by
  have hleads := leads_performAll hcalls
  have hstart := holds_start id inputs
  have hfin := finished_of_finish hg
  have hperm : g.outputs.Perm (calls.filterMap Call.declares?) := by
    have hdeclared := hfin.outputs_perm fun t ht => (hr t ht).owns (hleads.holds hstart)
    rw [outputs_performAll] at hdeclared
    exact hdeclared
  have hbool : (∃ type ∈ g.outputs, type.element = .bool) ↔
      ∃ type, Call.outputLike type ∈ calls ∧ type.element = .bool := by
    rw [← exists_bool_declared_iff]
    simp only [hperm.mem_iff]
  have hinputs : g.inputs = inputs := by
    rw [hfin.graph]
    exact (hleads.keeps hstart).types.inputs
  refine ⟨hperm, hbool, ?_, ?_⟩
  · intro k hk device tensors session
    rw [← hk]
    refine ⟨Kernel.launch_eq_boolElements_iff, ?_⟩
    rintro ⟨type, hmem, htype⟩ results hresults
    rw [(k.launch_eq device tensors session).1] at hresults
    have hnot := (Kernel.answer_eq_ok hresults).2.2 type hmem
    rw [htype] at hnot
    cases hnot
  · intro hnone
    refine ⟨fun h => ?_, ?_⟩
    · obtain ⟨before, type, after, hsplit, htype, hbefore⟩ := exists_first_bool (hbool.1 h)
      exact ⟨before, type, after, hsplit, htype, fun hmem => hnone type hmem htype,
        fun hmem => hbefore type hmem htype⟩
    · intro op guest grad hgrad type hmem
      rw [(Operator.parts_of_gradientGraph hgrad).2.2, hinputs] at hmem
      exact hnone type hmem

/-- Stores where the elements are positive, as truth values. -/
def positiveMask : List Call :=
  let vector : TensorType := ⟨⟨[2]⟩, .f32⟩
  let mask : TensorType := ⟨⟨[2]⟩, .bool⟩
  let at0 : Operand := .expr ⟨1, 0, .i64⟩
  [.outputLike mask, .positionIn ⟨[2]⟩, .element ⟨1, 0, vector⟩ [at0],
    .binary .gt ⟨1, 1, .f32⟩ (.literal (.int 0)), .store ⟨1, 0, mask⟩ [at0] (.expr ⟨1, 3, .bool⟩)]

/-- The capture of `positiveMask` finishes, with an output of truth values, and a launch of its
kernel with the right input and library cannot make that output. -/
theorem finish_positiveMask :
    let vector : TensorType := ⟨⟨[2]⟩, .f32⟩
    let mask : TensorType := ⟨⟨[2]⟩, .bool⟩
    let s := (start 1 [vector]).performAll positiveMask
    Follows Anything (start 1 [vector]) positiveMask ∧
      ∃ g, s.recording.finish "mask" [⟨1, 0, mask⟩] = .ok g ∧ g.outputs = [mask] ∧
        ∀ config store files,
          (Kernel.launch ⟨⟨"mask.so", "mask"⟩, .none, g.domain, g.inputs, g.outputs⟩ .cpu
            [⟨vector, #[.single 0x3f800000, .single 0xbf800000], rfl⟩]
            ⟨config, store, files, [(Path.components "mask.so", ⟨"mask", g⟩)]⟩).1
            = .error .boolElements := by
  intro vector mask s
  refine ⟨by decide +kernel, ?_⟩
  obtain ⟨g, hg⟩ := exists_ok_of_isOk
    (show (s.recording.finish "mask" [⟨1, 0, mask⟩]).isOk = true by decide +kernel)
  have hgraph := (finished_of_finish hg).graph
  have houtputs : g.outputs = [mask] := by
    rw [hgraph]
    rfl
  have hinputs : g.inputs = s.recording.inputs := by
    rw [hgraph]
    rfl
  have hvector : s.recording.inputs = [vector] := by decide +kernel
  have hregistered : (EntryPoint.mk "mask.so" "mask").isEmpty = false := by decide
  have hsymbol : "mask" = (EntryPoint.mk "mask.so" "mask").symbol := by decide
  refine ⟨g, hg, houtputs, fun config store files => ?_⟩
  refine Kernel.launch_eq_boolElements_iff.2 ⟨⟨mask, by simp [houtputs], rfl⟩, hregistered,
    (hinputs.trans hvector).symm, ⟨"mask", g⟩, ?_, hsymbol⟩
  simp [Session.load, Kernel.entryPoint, Device.backend]

theorem bool_output_iff_outputLike_positiveMask :
    let vector : TensorType := ⟨⟨[2]⟩, .f32⟩
    let mask : TensorType := ⟨⟨[2]⟩, .bool⟩
    let s := (start 1 [vector]).performAll positiveMask
    ∃ g, s.recording.finish "mask" [⟨1, 0, mask⟩] = .ok g ∧
      (∃ type ∈ g.outputs, type.element = .bool) ∧
      (∀ k : Kernel, k.outputs = g.outputs → ∀ device tensors session results,
        (k.launch device tensors session).1 ≠ .ok results) ∧
      ∃ before type after, positiveMask = before ++ .outputLike type :: after ∧
        type.element = .bool ∧ type ∉ [vector] ∧ type ∉ before.filterMap Call.declares? := by
  intro vector mask s
  obtain ⟨g, hg⟩ := exists_ok_of_isOk
    (show (s.recording.finish "mask" [⟨1, 0, mask⟩]).isOk = true by decide +kernel)
  obtain ⟨-, hbool, hlaunch, hfirst⟩ :=
    bool_output_iff_outputLike (by decide +kernel) (by decide +kernel) hg
  have hsome : ∃ type ∈ g.outputs, type.element = .bool :=
    hbool.2 ⟨mask, by simp [positiveMask, mask], rfl⟩
  refine ⟨g, hg, hsome, fun k hk device tensors session => ?_, ?_⟩
  · exact (hlaunch k hk device tensors session).2 hsome
  · exact (hfirst (by simp [vector])).1 hsome

end Draft
end TensorKernel

import TensorKernel.Proofs.Direct.Capture
import TensorKernel.Proofs.Run.Writes

/-! The order of results. A capture finishes with the handles of its outputs in any order, and
each result is the tensor that was written through its handle. -/
namespace TensorKernel

open List

variable {r : Recording} {returned : List OutputTensor} {k : Nat}

namespace Graph

variable {g : Graph}

/-- One output after a run: the stores to it, in order, on zeros. -/
def written (g : Graph) (inputs : Array Buffer) (k : Nat) (type : TensorType) : Buffer :=
  ((g.allWrites inputs).filter (·.output = k)).foldl
    (fun b w => Buffer.put b (Shape.offset type.shape.strides w.indices) w.value)
    (Array.replicate type.shape.count (Value.zero type.element))

theorem getElem?_foldl_put {type : TensorType} (hk : g.outputs[k]? = some type) (ws : List Write)
    {buffers : Array Buffer} {b : Buffer} (hb : buffers[k]? = some b) :
    (ws.foldl g.put buffers)[k]? = some ((ws.filter (·.output = k)).foldl
      (fun b w => Buffer.put b (Shape.offset type.shape.strides w.indices) w.value) b) := by
  induction ws generalizing buffers b with
  | nil => exact hb
  | cons w rest ih =>
    rw [foldl_cons]
    by_cases hw : w.output = k
    · rw [filter_cons_of_pos (by simpa using hw), foldl_cons]
      refine ih ?_
      rw [put, hw, hk]
      simp [Array.getElem?_modify, hb]
    · rw [filter_cons_of_neg (by simpa using hw)]
      refine ih ?_
      rw [put]
      split
      · rw [Array.getElem?_modify, if_neg hw]
        exact hb
      · exact hb

theorem getElem?_run {type : TensorType} (hk : g.outputs[k]? = some type) (inputs : Array Buffer) :
    (g.run inputs)[k]? = some (g.written inputs k type) := by
  rw [run_eq_writes]
  refine getElem?_foldl_put hk _ ?_
  simp [zeroBuffers, hk]

end Graph

namespace Recording

def outputTensors (r : Recording) : List OutputTensor :=
  r.outputs.mapIdx fun index type => ⟨r.id, index, type⟩

theorem mem_outputTensors {t : OutputTensor} :
    t ∈ r.outputTensors ↔ t.owner = r.id ∧ r.outputs[t.index]? = some t.type := by
  rw [outputTensors, mem_mapIdx]
  constructor
  · rintro ⟨k, hk, rfl⟩
    exact ⟨rfl, getElem?_eq_getElem hk⟩
  · rintro ⟨howner, htype⟩
    obtain ⟨hk, htype⟩ := List.getElem?_eq_some_iff.1 htype
    exact ⟨t.index, hk, by rw [htype, ← howner]⟩

theorem map_index_outputTensors (r : Recording) :
    r.outputTensors.map OutputTensor.index = range r.outputs.length := by
  apply ext_getElem
  · simp [outputTensors]
  · intro k _ _
    simp [outputTensors]

theorem perm_outputTensors_iff (hr : ∀ t ∈ returned, r.OwnsOutput t) :
    returned.Perm r.outputTensors ↔
      (∀ t ∈ returned, t.owner = r.id) ∧ (returned.map OutputTensor.index).Nodup ∧
        ∀ k < r.outputs.length, k ∈ returned.map OutputTensor.index := by
  have hindices : (r.outputTensors.map OutputTensor.index).Nodup := by
    rw [map_index_outputTensors]
    exact nodup_range
  constructor
  · intro hp
    refine ⟨fun t ht => (mem_outputTensors.1 (hp.mem_iff.1 ht)).1, ?_, fun k hk => ?_⟩
    · exact (hp.map _).nodup_iff.2 hindices
    · rw [(hp.map OutputTensor.index).mem_iff, map_index_outputTensors]
      exact mem_range.2 hk
  · rintro ⟨howners, hnodup, hall⟩
    have hmem (t : OutputTensor) (ht : t ∈ returned) : t ∈ r.outputTensors :=
      mem_outputTensors.2 ⟨howners t ht, hr t ht (howners t ht)⟩
    refine (perm_ext_iff_of_nodup (Nodup.of_map _ hnodup)
      (Nodup.of_map _ hindices)).2 fun t => ⟨hmem t, fun ht => ?_⟩
    have htype := (mem_outputTensors.1 ht).2
    obtain ⟨u, hu, hindex⟩ := List.mem_map.1 (hall t.index (List.getElem?_eq_some_iff.1 htype).1)
    exact inj_on_of_nodup_map hindices (hmem u hu) ht hindex ▸ hu

theorem Finished.run_eq {name : String} {g : Graph} (h : r.Finished name returned g)
    (hr : ∀ t ∈ returned, r.OwnsOutput t) (inputs : Array Buffer) :
    g.run inputs = (returned.map fun t =>
      (r.declared name g.domain).written inputs t.index t.type).toArray := by
  have hg : g = (r.declared name g.domain).renumber (returned.map OutputTensor.index)
      (returned.map OutputTensor.type) := h.graph
  have hrun := Graph.run_renumber (g := r.declared name g.domain) (h.renumbers hr) inputs
  rw [← hg] at hrun
  rw [hrun, select, map_map]
  congr 1
  refine map_congr_left fun t ht => ?_
  have htype : (r.declared name g.domain).outputs[t.index]? = some t.type :=
    hr t ht (h.owners t ht)
  rw [Function.comp_apply, Array.getD_eq_getD_getElem?, Graph.getElem?_run htype]
  rfl

end Recording

namespace Draft
open Recording

/-- A draft without errors, outside of all blocks and with positions, finishes exactly with the
handles of all its outputs, in any order. Each result is what was stored through its handle, and
has the type of the handle, wherever the handle stands in the order. -/
theorem finish_iff_perm {id : RecordingId} {types : List TensorType} {s : Draft}
    (h : Reachable id types s) (herr : s.recording.error = none) (hdepth : s.recording.depth = 0)
    {domain : Shape} (hdomain : s.recording.domain = some domain) (name : String)
    {returned : List OutputTensor} (hr : ∀ t ∈ returned, s.KnowsOutput t) :
    ((∃ g, s.recording.finish name returned = .ok g) ↔
        returned ≠ [] ∧ returned.Perm s.recording.outputTensors) ∧
      ∀ g, s.recording.finish name returned = .ok g → ∀ inputs : Array Buffer,
        (g.run inputs).size = returned.length ∧
        ∀ (j : Nat) (t : OutputTensor), returned[j]? = some t → g.outputs[j]? = some t.type ∧
          (g.run inputs)[j]? =
            some ((s.recording.declared name domain).written inputs t.index t.type) ∧
          ∀ returned' g' (k : Nat), returned'.Perm s.recording.outputTensors →
            s.recording.finish name returned' = .ok g' → returned'[k]? = some t →
              (g'.run inputs)[k]? = (g.run inputs)[j]? := by
  have hholds := h.holds (holds_start id types)
  have hown : ∀ t ∈ returned, s.recording.OwnsOutput t := fun t ht => (hr t ht).owns hholds
  have hresult {returned : List OutputTensor} (hown : ∀ t ∈ returned, s.recording.OwnsOutput t)
      {g : Graph} (hg : s.recording.finish name returned = .ok g) (inputs : Array Buffer) :
      g.run inputs = (returned.map fun t =>
        (s.recording.declared name domain).written inputs t.index t.type).toArray := by
    have hfin := finished_of_finish hg
    obtain rfl : domain = g.domain := Option.some.inj (hdomain.symm.trans hfin.domain)
    exact hfin.run_eq hown inputs
  refine ⟨⟨?_, ?_⟩, fun g hg inputs => ⟨?_, fun j t ht => ⟨?_, ?_, ?_⟩⟩⟩
  · rintro ⟨g, hg⟩
    have hfin := finished_of_finish hg
    exact ⟨ne_nil_of_finish hg, (perm_outputTensors_iff hown).2 ⟨hfin.owners, hfin.nodup, hfin.all⟩⟩
  · rintro ⟨hne, hperm⟩
    obtain ⟨howners, hnodup, hall⟩ := (perm_outputTensors_iff hown).1 hperm
    have hsound := (h.typed (holds_start id types) (typed_start id types) herr).1
    have hordered : (s.recording.graph name domain returned).Ordered := hsound.operands
    exact ⟨_, finish_eq_ok herr hdepth hdomain hne howners hnodup hall
      (Graph.cycle?_eq_none hordered)⟩
  · rw [hresult hown hg, List.size_toArray, List.length_map]
  · rw [(finished_of_finish hg).graph]
    simp [Recording.graph, ht]
  · rw [hresult hown hg, List.getElem?_toArray, List.getElem?_map, ht]
    rfl
  · intro returned' g' k hperm hg' hk
    have hown' : ∀ t ∈ returned', s.recording.OwnsOutput t :=
      fun t ht _ => (mem_outputTensors.1 (hperm.mem_iff.1 ht)).2
    rw [hresult hown hg, hresult hown' hg', List.getElem?_toArray, List.getElem?_toArray,
      List.getElem?_map, List.getElem?_map, ht, hk]

/-- Copies the input to one output, and its positive elements to another. -/
def positives : List Call :=
  let vector : TensorType := ⟨⟨[2]⟩, .i64⟩
  let at0 : Operand := .expr ⟨1, 0, .i64⟩
  let x : Expr := ⟨1, 1, .i64⟩
  [.outputLike vector, .outputLike ⟨⟨[2]⟩, .f64⟩, .positionIn ⟨[2]⟩, .element ⟨1, 0, vector⟩ [at0],
    .store ⟨1, 0, vector⟩ [at0] (.expr x), .binary .gt x (.literal (.int 0)), .branch ⟨1, 3, .bool⟩,
    .store ⟨1, 1, ⟨⟨[2]⟩, .f64⟩⟩ [at0] (.expr x), .leave]

theorem finish_iff_perm_positives :
    let vector : TensorType := ⟨⟨[2]⟩, .i64⟩
    let s := (start 1 [vector]).performAll positives
    let all : OutputTensor := ⟨1, 0, vector⟩
    let some : OutputTensor := ⟨1, 1, ⟨⟨[2]⟩, .f64⟩⟩
    (¬∃ g, s.recording.finish "positives" [some, some] = .ok g) ∧
      ∃ g g', s.recording.finish "positives" [all, some] = .ok g ∧
        s.recording.finish "positives" [some, all] = .ok g' ∧
        ∀ inputs, g'.outputs[0]? = .some ⟨⟨[2]⟩, .f64⟩ ∧ (g'.run inputs)[0]? = (g.run inputs)[1]? ∧
          (g'.run inputs)[1]? = (g.run inputs)[0]? := by
  intro vector s all some
  have hs : Reachable 1 [vector] s := leads_performAll (by decide +kernel)
  have herr : s.recording.error = none := by decide +kernel
  have hdomain : s.recording.domain = .some ⟨[2]⟩ := by decide +kernel
  have known (returned : List OutputTensor) (h : ∀ t ∈ returned, t = all ∨ t = some) :
      ∀ t ∈ returned, s.KnowsOutput t := by
    intro t ht
    rcases h t ht with rfl | rfl <;> decide +kernel
  have hfirst := finish_iff_perm hs herr (by decide +kernel) hdomain "positives"
    (known [all, some] (by simp))
  have hsecond := finish_iff_perm hs herr (by decide +kernel) hdomain "positives"
    (known [some, all] (by simp))
  have htwice := finish_iff_perm hs herr (by decide +kernel) hdomain "positives"
    (known [some, some] (by simp))
  have hperm : [all, some].Perm s.recording.outputTensors := by decide +kernel
  obtain ⟨g, hg⟩ := hfirst.1.2 ⟨by simp, hperm⟩
  obtain ⟨g', hg'⟩ := hsecond.1.2 ⟨by simp, by decide +kernel⟩
  refine ⟨fun h => absurd (htwice.1.1 h).2 (by decide +kernel), g, g', hg, hg', fun inputs => ?_⟩
  obtain ⟨htype, -, hsame⟩ := (hsecond.2 g' hg' inputs).2 0 some rfl
  obtain ⟨-, -, hsame'⟩ := (hsecond.2 g' hg' inputs).2 1 all rfl
  exact ⟨htype, (hsame _ g 1 hperm hg rfl).symm, (hsame' _ g 0 hperm hg rfl).symm⟩

end Draft
end TensorKernel

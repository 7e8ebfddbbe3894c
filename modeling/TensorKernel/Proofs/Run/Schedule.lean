import TensorKernel.Proofs.Draft.Typing
import TensorKernel.Proofs.Run.Writes

/-! Positions in any order. If no element is written by two positions, then every schedule that
keeps the writes of each position in order, however it mixes the positions, ends with the same
buffers. -/
namespace TensorKernel

open List

/-- A write and the position that made it. -/
abbrev Tagged := List Nat × Write

variable {order : List (List Nat)} {p : List Nat} {schedule : List Tagged}

namespace Graph

variable {g : Graph} {inputs : Array Buffer}

/-- All writes of a run, those of one position in their order. -/
structure IsSchedule (g : Graph) (inputs : Array Buffer) (schedule : List Tagged) : Prop where
  position : ∀ x ∈ schedule, x.1 ∈ g.domain.positions
  order : ∀ p ∈ g.domain.positions,
    (schedule.filter (·.1 = p)).map Prod.snd = g.writesAt inputs p

/-- No element is written by two positions. -/
def Separate (g : Graph) (inputs : Array Buffer) : Prop :=
  ∀ p ∈ g.domain.positions, ∀ q ∈ g.domain.positions, p ≠ q →
    ∀ v ∈ g.writesAt inputs p, ∀ w ∈ g.writesAt inputs q,
      ¬ (v.output = w.output ∧ v.indices = w.indices)

instance (g : Graph) (inputs : Array Buffer) : Decidable (g.Separate inputs) :=
  inferInstanceAs (Decidable (∀ p ∈ g.domain.positions, ∀ q ∈ g.domain.positions, p ≠ q →
    ∀ v ∈ g.writesAt inputs p, ∀ w ∈ g.writesAt inputs q,
      ¬ (v.output = w.output ∧ v.indices = w.indices)))

/-- One position after the other. -/
def oneByOne (g : Graph) (inputs : Array Buffer) (order : List (List Nat)) : List Tagged :=
  order.flatMap fun p => (g.writesAt inputs p).map (Prod.mk p)

theorem map_oneByOne (order : List (List Nat)) :
    (g.oneByOne inputs order).map Prod.snd = order.flatMap (g.writesAt inputs) := by
  simp [oneByOne, map_flatMap, Function.comp_def]

theorem filter_oneByOne (hn : order.Nodup) (hp : p ∈ order) :
    ((g.oneByOne inputs order).filter (·.1 = p)).map Prod.snd = g.writesAt inputs p := by
  induction order with
  | nil => cases hp
  | cons q rest ih =>
    have hother (hq : p ∉ rest) : (g.oneByOne inputs rest).filter (·.1 = p) = [] := by
      rw [filter_eq_nil_iff]
      intro x hx
      obtain ⟨r, hr, hm⟩ := mem_flatMap.1 hx
      obtain ⟨w, -, rfl⟩ := mem_map.1 hm
      have hne : r ≠ p := fun h => hq (h ▸ hr)
      simpa using hne
    rw [oneByOne, flatMap_cons, filter_append, ← oneByOne, map_append]
    by_cases hq : q = p
    · subst hq
      simp [hother (nodup_cons.1 hn).1, filter_map, Function.comp_def]
    · have hrest : p ∈ rest := (mem_cons.1 hp).resolve_left (Ne.symm hq)
      rw [ih (nodup_cons.1 hn).2 hrest]
      simp [hq, filter_map, Function.comp_def]

theorem isSchedule_oneByOne (h : order.Perm g.domain.positions) :
    g.IsSchedule inputs (g.oneByOne inputs order) := by
  refine ⟨?_, ?_⟩
  · intro x hx
    obtain ⟨p, hp, hm⟩ := mem_flatMap.1 hx
    obtain ⟨w, -, rfl⟩ := mem_map.1 hm
    exact h.mem_iff.1 hp
  · intro p hp
    exact filter_oneByOne (h.nodup_iff.2 g.domain.nodup_positions) (h.mem_iff.2 hp)

theorem IsSchedule.mem_writesAt (h : g.IsSchedule inputs schedule) {x : Tagged} (hx : x ∈ schedule)
    : x.2 ∈ g.writesAt inputs x.1 := by
  rw [← h.order x.1 (h.position x hx)]
  exact mem_map_of_mem (mem_filter.2 ⟨hx, by simp⟩)

/-- The writes to one element all come from one position, in the order of that position. -/
theorem IsSchedule.filter_hits (h : g.IsSchedule inputs schedule) (hs : g.Separate inputs)
    (hp : p ∈ g.domain.positions) {v : Write} (hv : v ∈ g.writesAt inputs p) :
    (schedule.map Prod.snd).filter (·.hits v.output v.indices) =
      (g.writesAt inputs p).filter (·.hits v.output v.indices) := by
  rw [← h.order p hp, filter_map, filter_map, filter_filter]
  congr 1
  apply filter_congr
  intro x hx
  by_cases hsame : x.1 = p
  · simp [hsame]
  · have hmiss : x.2.hits v.output v.indices = false := by
      apply decide_eq_false
      exact hs x.1 (h.position x hx) p hp hsame x.2 (h.mem_writesAt hx) v hv
    simp [hmiss]

theorem IsSchedule.lastWrite_eq {schedule' : List Tagged} (h : g.IsSchedule inputs schedule)
    (h' : g.IsSchedule inputs schedule') (hs : g.Separate inputs) (k : Nat) (indices : List Int) :
    lastWrite (schedule.map Prod.snd) k indices = lastWrite (schedule'.map Prod.snd) k indices := by
  by_cases hany : ∃ p ∈ g.domain.positions, ∃ v ∈ g.writesAt inputs p,
      v.output = k ∧ v.indices = indices
  · obtain ⟨p, hp, v, hv, rfl, rfl⟩ := hany
    rw [lastWrite, lastWrite, h.filter_hits hs hp hv, h'.filter_hits hs hp hv]
  · have hnone {s : List Tagged} (hsched : g.IsSchedule inputs s) :
        (s.map Prod.snd).filter (·.hits k indices) = [] := by
      rw [filter_eq_nil_iff]
      intro w hw hit
      obtain ⟨x, hx, rfl⟩ := mem_map.1 hw
      exact hany ⟨x.1, hsched.position x hx, x.2, hsched.mem_writesAt hx, of_decide_eq_true hit⟩
    rw [lastWrite, lastWrite, hnone h, hnone h']

/-- Any two schedules of separate positions end with the same buffers. -/
theorem IsSchedule.foldl_put_eq {schedule' : List Tagged} (h : g.IsSchedule inputs schedule)
    (h' : g.IsSchedule inputs schedule') (hs : g.Separate inputs)
    (hw : ∀ p ∈ g.domain.positions, ∀ w ∈ g.writesAt inputs p, g.Inside w) :
    (schedule.map Prod.snd).foldl g.put g.zeroBuffers =
      (schedule'.map Prod.snd).foldl g.put g.zeroBuffers := by
  have hinside {s : List Tagged} (hsched : g.IsSchedule inputs s) :
      ∀ w ∈ s.map Prod.snd, g.Inside w := by
    intro w hm
    obtain ⟨x, hx, rfl⟩ := mem_map.1 hm
    exact hw x.1 (hsched.position x hx) x.2 (hsched.mem_writesAt hx)
  apply (fits_zeroBuffers.foldl_put _).ext (fits_zeroBuffers.foldl_put _)
  intro k type hk indices hi
  rw [load_foldl_put fits_zeroBuffers (hinside h) hk hi,
    load_foldl_put fits_zeroBuffers (hinside h') hk hi, h.lastWrite_eq h' hs]

theorem run_eq_oneByOne : g.run inputs =
    ((g.oneByOne inputs g.domain.positions).map Prod.snd).foldl g.put g.zeroBuffers := by
  rw [run_eq_writes, map_oneByOne]
  rfl

end Graph

namespace Draft
open Recording

/-- The results of a finished graph have the declared types, in the order in which they are
returned, and each element holds the last value stored there, or zero. If no element is stored
by two positions then the positions may run in any order, and side by side. -/
theorem finish_run_lastWrite {id : RecordingId} {types : List TensorType} {s : Draft}
    (h : Reachable id types s) {name : String} {returned : List OutputTensor}
    (hr : ∀ t ∈ returned, s.KnowsOutput t) {g : Graph}
    (hg : s.recording.finish name returned = .ok g) {inputs : Array Buffer}
    (hw : ∀ p ∈ g.domain.positions, ∀ w ∈ g.writesAt inputs p, g.Inside w) :
    (g.run inputs).size = returned.length ∧
      (∀ k t, returned[k]? = some t →
        s.recording.outputs[t.index]? = some t.type ∧
        ((g.run inputs).getD k #[]).size = t.type.shape.count ∧
        (t.type.element.isBool = false → ∃ result,
          Tensor.ofValues t.type ((g.run inputs).getD k #[]) = .ok result ∧
            result.type = t.type) ∧
        ∀ indices, Shape.Within t.type.shape.dims indices →
          ((g.run inputs).getD k #[]).load (Shape.offset t.type.shape.strides indices) =
            (lastWrite (g.domain.positions.flatMap (g.writesAt inputs)) k indices).getD
              (Value.zero t.type.element)) ∧
      (g.Separate inputs →
        (∀ order : List (List Nat), order.Perm g.domain.positions →
          order.foldl (g.runAt inputs) g.zeroBuffers = g.run inputs) ∧
        ∀ schedule, g.IsSchedule inputs schedule →
          (schedule.map Prod.snd).foldl g.put g.zeroBuffers = g.run inputs) := by
  have hfin := finished_of_finish hg
  have houtputs : g.outputs = returned.map OutputTensor.type := by rw [hfin.graph]; rfl
  have hholds := h.holds (holds_start id types)
  refine ⟨?_, ?_, ?_⟩
  · rw [(Graph.fits_run inputs).size_eq, houtputs, List.length_map]
  · intro k t ht
    have hmem : t ∈ returned := List.mem_of_getElem? ht
    have hk : g.outputs[k]? = some t.type := by rw [houtputs, List.getElem?_map, ht]; rfl
    have hsize := (Graph.fits_run inputs).size_getD hk
    refine ⟨(hr t hmem).owns hholds (hfin.owners t hmem), hsize, ?_, ?_⟩
    · intro hbool
      have hok : Tensor.ofValues t.type ((g.run inputs).getD k #[]) = .ok ⟨t.type, _, hsize⟩ := by
        rw [Tensor.ofValues, hbool]
        exact dif_pos hsize
      exact ⟨_, hok, rfl⟩
    · intro indices hi
      apply Graph.load_run _ hk hi
      intro w hm
      obtain ⟨p, hp, hwp⟩ := List.mem_flatMap.1 hm
      exact hw p hp w hwp
  · intro hs
    have hrun : g.IsSchedule inputs (g.oneByOne inputs g.domain.positions) :=
      Graph.isSchedule_oneByOne (.refl _)
    refine ⟨?_, ?_⟩
    · intro order horder
      rw [Graph.foldl_runAt, ← Graph.map_oneByOne, Graph.run_eq_oneByOne]
      exact (Graph.isSchedule_oneByOne horder).foldl_put_eq hrun hs hw
    · intro schedule hsched
      rw [Graph.run_eq_oneByOne]
      exact hsched.foldl_put_eq hrun hs hw

/-- Stores the elements from the last to the first, and zero for those that are positive. -/
def mirror : List Call :=
  let vector : TensorType := ⟨⟨[3]⟩, .i64⟩
  let out : OutputTensor := ⟨1, 0, vector⟩
  let position : Expr := ⟨1, 0, .i64⟩
  let across : Operand := .expr ⟨1, 2, .i64⟩
  let x : Expr := ⟨1, 3, .i64⟩
  [.outputLike vector, .positionIn ⟨[3]⟩, .binaryFrom .sub (.int 2) position,
    .element ⟨1, 0, vector⟩ [.expr position], .store out [across] (.expr x),
    .binary .gt x (.literal (.int 0)), .branch ⟨1, 5, .bool⟩,
    .store out [across] (.literal (.int 0)), .leave]

theorem finish_run_lastWrite_mirror :
    let vector : TensorType := ⟨⟨[3]⟩, .i64⟩
    let s := (start 1 [vector]).performAll mirror
    let inputs : Array Buffer := #[#[.int 5, .int (-3), .int (-4)]]
    ∃ g, s.recording.finish "mirror" [⟨1, 0, vector⟩] = .ok g ∧
      (g.run inputs).size = 1 ∧
      ((g.run inputs).getD 0 #[]).load 2 = .int 0 ∧
      [[1], [2], [0]].foldl (g.runAt inputs) g.zeroBuffers = g.run inputs := by
  intro vector s inputs
  have hs : Reachable 1 [vector] s := leads_performAll (by decide +kernel)
  have hall : (s.recording.finish "mirror" [⟨1, 0, vector⟩]).toOption.any (fun g => decide
      (g.domain.positions = [[0], [1], [2]] ∧
        (∀ p ∈ g.domain.positions, ∀ w ∈ g.writesAt inputs p, g.Inside w) ∧ g.Separate inputs ∧
        lastWrite (g.domain.positions.flatMap (g.writesAt inputs)) 0 [2] = some (.int 0))) = true := by
    decide +kernel
  cases hf : s.recording.finish "mirror" [⟨1, 0, vector⟩] with
  | error e =>
    rw [hf] at hall
    cases hall
  | ok g =>
    rw [hf] at hall
    obtain ⟨hpositions, hinside, hseparate, hlast⟩ := of_decide_eq_true hall
    obtain ⟨hsize, hresults, horders⟩ := finish_run_lastWrite hs (by decide +kernel) hf hinside
    refine ⟨g, rfl, hsize, ?_, ?_⟩
    · have hload := (hresults 0 ⟨1, 0, vector⟩ rfl).2.2.2 [2] (by decide)
      rw [hlast] at hload
      exact hload
    · apply (horders hseparate).1
      rw [hpositions]
      decide

end Draft
end TensorKernel

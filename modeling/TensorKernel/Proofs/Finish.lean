import TensorKernel.Capture.Finish

/-! The end of a capture, inverted: what a recording that finished was like, and why
a graph whose operands precede their users has no cycle. -/
namespace TensorKernel

open List

variable {returned : List OutputTensor} {r : Recording} {g : Graph} {name : String}

namespace Graph

/-- Every operand comes before the nodes that use it. -/
def Ordered (g : Graph) : Prop :=
  ∀ (i : NodeId) (node : Node), g.nodes[i]? = some node → ∀ o ∈ node.op.operands, o < i

theorem Ordered.lt (h : g.Ordered) {i o : NodeId} (ho : o ∈ g.operands i) : o < i := by
  unfold operands at ho
  split at ho
  next node hn => exact h i node hn o ho
  · exact absurd ho not_mem_nil

theorem settleOnce_of_ordered (h : g.Ordered) {settled : Array Bool}
    (hs : settled.size = g.nodes.size) :
    (g.settleOnce settled).size = g.nodes.size ∧
      ∀ e < g.nodes.size, (g.settleOnce settled)[e]? = some true := by
  have upTo (k : Nat) (hk : k ≤ g.nodes.size) :
      let marks := (range k).foldl
        (fun settled e =>
          if (g.operands e).all fun operand => settled[operand]?.getD false then
            settled.setIfInBounds e true
          else settled) settled
      marks.size = g.nodes.size ∧ ∀ e < k, marks[e]? = some true := by
    induction k with
    | zero => exact ⟨hs, by simp⟩
    | succ k ih =>
      obtain ⟨hsize, hmarks⟩ := ih (by omega)
      rw [range_succ, foldl_append]
      generalize (range k).foldl _ settled = marks at hsize hmarks
      have hall : ((g.operands k).all fun operand => marks[operand]?.getD false) = true := by
        rw [all_eq_true]
        intro o ho
        rw [hmarks o (h.lt ho)]
        rfl
      simp only [foldl_cons, foldl_nil, hall, if_true, Array.size_setIfInBounds]
      refine ⟨hsize, ?_⟩
      intro e he
      by_cases hek : e = k
      · subst hek
        rw [Array.getElem?_setIfInBounds_self_of_lt (by omega)]
      · rw [Array.getElem?_setIfInBounds_ne (fun h => hek h.symm)]
        exact hmarks e (by omega)
  exact upTo g.nodes.size (Nat.le_refl _)

theorem settle_of_all {marks : Array Bool} (h : ∀ e < marks.size, marks[e]? = some true) (n : Nat) :
    g.settle n marks = marks := by
  have hall : marks.all id = true := by
    rw [Array.all_eq_true]
    intro i hi
    have := h i hi
    rw [Array.getElem?_eq_getElem hi] at this
    exact Option.some.inj this
  cases n with
  | zero => rfl
  | succ n => rw [settle, if_pos hall]

theorem cycle?_eq_none (h : g.Ordered) : g.cycle? = none := by
  unfold cycle?
  rw [find?_eq_none]
  intro e he
  have he : e < g.nodes.size := mem_range.1 he
  obtain ⟨n, hn⟩ : ∃ n, g.nodes.size = n + 1 := ⟨g.nodes.size - 1, by omega⟩
  have hzero : (Array.replicate g.nodes.size false).size = g.nodes.size := Array.size_replicate
  obtain ⟨hsize, hmarks⟩ := settleOnce_of_ordered h hzero
  have hfalse : (Array.replicate g.nodes.size false).all id = false := by
    rw [Array.all_eq_false]
    exact ⟨0, by rw [hzero]; omega, by simp⟩
  have hsettle : g.settle g.nodes.size (Array.replicate g.nodes.size false) =
      g.settleOnce (Array.replicate g.nodes.size false) := by
    conv => lhs; arg 2; rw [hn]
    rw [settle, if_neg (by rw [hfalse]; decide)]
    exact settle_of_all (fun e he => hmarks e (by omega)) n
  rw [hsettle, hmarks e he]
  decide

end Graph

namespace Recording

theorem returnError?_eq_none {seen : List Nat} (h : r.returnError? seen returned = none) :
    (∀ t ∈ returned, t.owner = r.id) ∧ (returned.map OutputTensor.index).Nodup ∧
      ∀ t ∈ returned, t.index ∉ seen := by
  induction returned generalizing seen with
  | nil => simp
  | cons t rest ih =>
    unfold returnError? at h
    split at h
    · cases h
    next hown =>
      split at h
      · cases h
      next hseen =>
        obtain ⟨hr, hnodup, hfresh⟩ := ih h
        have hown : t.owner = r.id := Decidable.of_not_not hown
        have hseen : t.index ∉ seen := by simpa using hseen
        refine ⟨?_, ?_, ?_⟩
        · intro u hu
          rcases mem_cons.1 hu with rfl | hu
          · exact hown
          · exact hr u hu
        · rw [map_cons, nodup_cons]
          refine ⟨fun hm => ?_, hnodup⟩
          obtain ⟨u, hu, he⟩ := mem_map.1 hm
          exact hfresh u hu (by simp [he])
        · intro u hu
          rcases mem_cons.1 hu with rfl | hu
          · exact hseen
          · exact fun hm => hfresh u hu (by simp [hm])

theorem returnError?_of_nodup {seen : List Nat} (howners : ∀ t ∈ returned, t.owner = r.id)
    (hnodup : (returned.map OutputTensor.index).Nodup) (hfresh : ∀ t ∈ returned, t.index ∉ seen) :
    r.returnError? seen returned = none := by
  induction returned generalizing seen with
  | nil => rfl
  | cons t rest ih =>
    rw [map_cons, nodup_cons] at hnodup
    have hown : t.owner = r.id := howners t mem_cons_self
    have hseen : t.index ∉ seen := hfresh t mem_cons_self
    rw [returnError?, if_neg (not_not_intro hown), if_neg (by simpa using hseen)]
    refine ih (fun u hu => howners u (mem_cons_of_mem _ hu)) hnodup.2 fun u hu hm => ?_
    rcases mem_cons.1 hm with he | hm
    · exact hnodup.1 (he ▸ mem_map_of_mem hu)
    · exact hfresh u (mem_cons_of_mem _ hu) hm

/-- A recording that was finished, and the graph that came of it. -/
structure Finished (r : Recording) (name : String) (returned : List OutputTensor) (g : Graph) :
    Prop where
  error : r.error = none
  outer : r.outer = []
  domain : r.domain = some g.domain
  owners : ∀ t ∈ returned, t.owner = r.id
  nodup : (returned.map OutputTensor.index).Nodup
  all : ∀ k < r.outputs.length, k ∈ returned.map OutputTensor.index
  graph : g = r.graph name g.domain returned

theorem Finished.nodes (h : r.Finished name returned g) : g.nodes = r.nodes := by
  rw [h.graph]
  rfl

theorem finished_of_finish (h : r.finish name returned = .ok g) : r.Finished name returned g := by
  unfold finish at h
  split at h
  · cases h
  next herr =>
    split at h
    · cases h
    next hdepth =>
      split at h
      · cases h
      next domain hdom =>
        split at h
        · cases h
        · split at h
          · cases h
          next hret =>
            split at h
            · cases h
            next hmiss =>
              dsimp only at h
              split at h
              · cases h
              · cases h
                obtain ⟨howners, hnodup, -⟩ := returnError?_eq_none hret
                have houter : r.outer.length = 0 := Decidable.of_not_not hdepth
                refine ⟨herr, length_eq_zero_iff.1 houter, hdom, howners, hnodup, ?_, rfl⟩
                intro k hk
                have := find?_eq_none.1 hmiss k (mem_range.2 hk)
                simpa using this

theorem ne_nil_of_finish (h : r.finish name returned = .ok g) : returned ≠ [] := by
  rintro rfl
  unfold finish at h
  split at h
  · cases h
  · split at h
    · cases h
    · split at h <;> cases h

theorem finish_eq_ok {domain : Shape} (herr : r.error = none) (hdepth : r.depth = 0)
    (hdomain : r.domain = some domain) (hne : returned ≠ [])
    (howners : ∀ t ∈ returned, t.owner = r.id) (hnodup : (returned.map OutputTensor.index).Nodup)
    (hall : ∀ k < r.outputs.length, k ∈ returned.map OutputTensor.index)
    (hcycle : (r.graph name domain returned).cycle? = none) :
    r.finish name returned = .ok (r.graph name domain returned) := by
  have hreturn : r.returnError? [] returned = none :=
    returnError?_of_nodup howners hnodup fun _ _ => not_mem_nil
  have hmissing : r.missing? returned = none := by
    refine find?_eq_none.2 fun k hk => ?_
    simpa using hall k (mem_range.1 hk)
  unfold finish
  simp only [herr, hdepth, hdomain, hreturn, hmissing, hcycle]
  simp [hne]

theorem cycle?_of_finish {v : Nat} (h : r.finish name returned = .error (.cycle v))
    (hr : ∀ v, r.error ≠ some (.cycle v)) :
    r.error = none ∧ ∃ domain, (r.graph name domain returned).cycle? = some v := by
  unfold finish at h
  split at h
  next e he =>
    cases h
    exact absurd he (hr v)
  next herr =>
    refine ⟨herr, ?_⟩
    split at h
    · cases h
    · split at h
      · cases h
      next domain hdom =>
        split at h
        · cases h
        · split at h
          next e he =>
            cases h
            have never (seen : List Nat) (ts : List OutputTensor) :
                r.returnError? seen ts ≠ some (.cycle v) := by
              induction ts generalizing seen with
              | nil => simp [returnError?]
              | cons t rest ih =>
                unfold returnError?
                split
                · simp
                · split
                  · simp
                  · exact ih _
            exact absurd he (never [] returned)
          · split at h
            · cases h
            · dsimp only at h
              split at h
              next w hw =>
                cases h
                exact ⟨domain, hw⟩
              · cases h

end Recording
end TensorKernel

import TensorKernel.Proofs.Frame

/-! Outputs in another order. A graph whose outputs are numbered anew writes the same buffers,
each where its number has come to stand. -/
namespace TensorKernel

variable {outputs : Array Buffer} {k : Nat}

def select (order : List Nat) (outputs : Array Buffer) : Array Buffer :=
  (order.map fun k => outputs.getD k #[]).toArray

/-- Outputs with `types` become outputs with `types'`, in the order of their former numbers. -/
structure Renumbers (order : List Nat) (types types' : List TensorType) : Prop where
  nodup : order.Nodup
  length : types'.length = order.length
  outputs : ∀ k, types'[order.idxOf k]? = types[k]?

theorem getElem?_select (order : List Nat) (outputs : Array Buffer) (i : Nat) :
    (select order outputs)[i]? = order[i]?.map fun k => outputs.getD k #[] := by
  rw [select, List.getElem?_toArray, List.getElem?_map]

theorem getD_modify (hk : k < outputs.size) (f : Buffer → Buffer) (j : Nat) :
    (outputs.modify k f).getD j #[] =
      if k = j then f (outputs.getD j #[]) else outputs.getD j #[] := by
  rw [Array.getD_eq_getD_getElem?, Array.getD_eq_getD_getElem?, Array.getElem?_modify]
  split
  next h =>
    subst h
    rw [Array.getElem?_eq_getElem hk]
    rfl
  · rfl

theorem select_modify {order : List Nat} (hn : order.Nodup) (hk : k < outputs.size)
    (f : Buffer → Buffer) :
    select order (outputs.modify k f) = (select order outputs).modify (order.idxOf k) f := by
  refine Array.ext_getElem? fun i => ?_
  rw [Array.getElem?_modify, getElem?_select, getElem?_select]
  cases hi : order[i]? with
  | none => split <;> rfl
  | some j =>
    obtain ⟨hlt, rfl⟩ := List.getElem?_eq_some_iff.1 hi
    have hplace : order.idxOf k = i ↔ k = order[i] := by
      refine ⟨fun h => ?_, fun h => by rw [h, hn.idxOf_getElem i hlt]⟩
      subst h
      exact (List.getElem_idxOf hlt).symm
    simp only [Option.map_some, getD_modify hk, hplace]
    split <;> rfl

namespace Frame

def select (order : List Nat) (f : Frame) : Frame :=
  { f with outputs := TensorKernel.select order f.outputs }

end Frame

namespace Graph

def renumber (g : Graph) (order : List Nat) (types : List TensorType) : Graph :=
  { g with body := mapOutputsBlock order.idxOf g.body, outputs := types }

end Graph

namespace Surroundings

variable (S : Surroundings)

def renumber (order : List Nat) (types : List TensorType) : Surroundings :=
  { S with graph := S.graph.renumber order types }

section
variable {S : Surroundings} {order : List Nat} {types : List TensorType}

theorem store_renumber {f : Frame} (hr : Renumbers order S.graph.outputs types)
    (hf : f.outputs.size = S.graph.outputs.length) (k : Nat) (indices : List NodeId) (x : NodeId) :
    (S.renumber order types).step (f.select order) (.store (order.idxOf k) indices x) =
      (S.step f (.store k indices x)).select order := by
  have hk : (S.renumber order types).graph.outputs[order.idxOf k]? = S.graph.outputs[k]? :=
    hr.outputs k
  rw [step, step, hk]
  cases ht : S.graph.outputs[k]? with
  | none => rfl
  | some type =>
    have hlt : k < f.outputs.size := by
      rw [hf]
      exact (List.getElem?_eq_some_iff.1 ht).1
    dsimp only [Frame.select]
    rw [select_modify hr.nodup hlt]
    rfl

mutual

theorem step_renumber {f : Frame} (hr : Renumbers order S.graph.outputs types)
    (hf : f.outputs.size = S.graph.outputs.length) (s : Stmt) :
    (S.renumber order types).step (f.select order) (s.mapOutputs order.idxOf) =
      (S.step f s).select order := by
  match s with
  | .bind e =>
    have hnodes : (S.renumber order types).graph.nodes = S.graph.nodes := rfl
    rw [Stmt.mapOutputs, step, step, hnodes]
    cases S.graph.nodes[e]? <;> rfl
  | .declare v x | .assign v x =>
    rw [Stmt.mapOutputs, step, step]
    rfl
  | .store k indices x =>
    rw [Stmt.mapOutputs]
    exact store_renumber hr hf k indices x
  | .cond branches =>
    rw [Stmt.mapOutputs, step, step]
    exact stepBranches_renumber hr hf branches

theorem stepBlock_renumber {f : Frame} (hr : Renumbers order S.graph.outputs types)
    (hf : f.outputs.size = S.graph.outputs.length)
    (body : List Stmt) :
    (S.renumber order types).stepBlock (f.select order) (mapOutputsBlock order.idxOf body) =
      (S.stepBlock f body).select order := by
  match body with
  | [] => rw [mapOutputsBlock, stepBlock, stepBlock]
  | s :: rest =>
    rw [mapOutputsBlock, stepBlock, stepBlock, step_renumber hr hf s]
    exact stepBlock_renumber hr ((S.sized_step f s).outputs.trans hf) rest

theorem stepBranches_renumber {f : Frame} (hr : Renumbers order S.graph.outputs types)
    (hf : f.outputs.size = S.graph.outputs.length)
    (branches : List Branch) :
    (S.renumber order types).stepBranches (f.select order)
      (mapOutputsBranches order.idxOf branches) = (S.stepBranches f branches).select order := by
  match branches with
  | [] => rw [mapOutputsBranches, stepBranches, stepBranches]
  | .mk none body :: rest =>
    rw [mapOutputsBranches, stepBranches, stepBranches]
    exact stepBlock_renumber hr hf body
  | .mk (some guard) body :: rest =>
    have hguard : (S.renumber order types).valueAs (f.select order) guard .bool =
      S.valueAs f guard .bool := rfl
    rw [mapOutputsBranches, stepBranches, stepBranches, hguard]
    split
    · exact stepBlock_renumber hr hf body
    · exact stepBranches_renumber hr hf rest

end

end

end Surroundings

namespace Graph

variable {g : Graph} {order : List Nat} {types : List TensorType}

theorem runAt_renumber (hr : Renumbers order g.outputs types) (inputs : Array Buffer)
    (hs : outputs.size = g.outputs.length) (position : List Nat) :
    (g.renumber order types).runAt inputs (select order outputs) position =
      select order (g.runAt inputs outputs position) :=
  congrArg Frame.outputs (Surroundings.stepBlock_renumber (S := ⟨g, inputs, position⟩)
    (f := ⟨Array.replicate g.nodes.size default, Array.replicate g.slots.length default, outputs⟩)
    hr hs g.body)

theorem size_runAt (inputs outputs : Array Buffer) (position : List Nat) :
    (g.runAt inputs outputs position).size = outputs.size :=
  (Surroundings.sized_stepBlock ⟨g, inputs, position⟩ _ g.body).outputs

theorem zeroBuffers_renumber (hr : Renumbers order g.outputs types) :
    (g.renumber order types).zeroBuffers = select order g.zeroBuffers := by
  refine Array.ext_getElem? fun i => ?_
  rw [getElem?_select, zeroBuffers, zeroBuffers, List.getElem?_toArray, List.getElem?_map]
  cases hi : order[i]? with
  | none =>
    have hle : types.length ≤ i := hr.length ▸ List.getElem?_eq_none_iff.1 hi
    rw [show (g.renumber order types).outputs[i]? = none from List.getElem?_eq_none hle]
    rfl
  | some k =>
    obtain ⟨hlt, rfl⟩ := List.getElem?_eq_some_iff.1 hi
    have hlt' : i < types.length := hr.length ▸ hlt
    have hsome : types[i]? = some types[i] := List.getElem?_eq_getElem hlt'
    have htype : g.outputs[order[i]]? = some types[i] := by
      rw [← hr.outputs, hr.nodup.idxOf_getElem i hlt, hsome]
    rw [show (g.renumber order types).outputs[i]? = some types[i] from hsome, Option.map_some,
      Option.map_some, Array.getD_eq_getD_getElem?, List.getElem?_toArray, List.getElem?_map, htype]
    rfl

theorem run_renumber (hr : Renumbers order g.outputs types) (inputs : Array Buffer) :
    (g.renumber order types).run inputs = select order (g.run inputs) := by
  rw [run_eq_foldl, run_eq_foldl, zeroBuffers_renumber hr]
  have hrun (positions : List (List Nat)) (outputs : Array Buffer)
      (hs : outputs.size = g.outputs.length) :
      positions.foldl ((g.renumber order types).runAt inputs) (select order outputs) =
        select order (positions.foldl (g.runAt inputs) outputs) := by
    induction positions generalizing outputs with
    | nil => rfl
    | cons position rest ih =>
      rw [List.foldl_cons, List.foldl_cons, runAt_renumber hr inputs hs]
      exact ih _ ((size_runAt inputs outputs position).trans hs)
  exact hrun g.domain.positions g.zeroBuffers (by simp [zeroBuffers])

end Graph
end TensorKernel

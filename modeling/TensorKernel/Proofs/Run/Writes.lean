import Mathlib.Data.List.Induction
import TensorKernel.Graph.Eval
import TensorKernel.Proofs.Shape.RowMajor

/-! Runs as lists of writes. What the body of a position writes does not depend on what the
outputs hold, so a run is one list of writes, carried out in order on zero buffers, and each
element holds the last value that was written to it. -/
namespace TensorKernel

open Array

variable {buffers : Array Buffer} {k : Nat} {b : Buffer} {type : TensorType} {indices : List Int}

structure Write where
  output : Nat
  indices : List Int
  value : Value

def Write.hits (w : Write) (output : Nat) (indices : List Int) : Bool :=
  w.output = output ∧ w.indices = indices

/-- The value of the last write to an element. -/
def lastWrite (ws : List Write) (output : Nat) (indices : List Int) : Option Value :=
  (ws.filter (·.hits output indices)).getLast?.map Write.value

theorem lastWrite_concat (ws : List Write) (w : Write) (output : Nat) (indices : List Int) :
    lastWrite (ws ++ [w]) output indices =
      if w.hits output indices then some w.value else lastWrite ws output indices := by
  rw [lastWrite, lastWrite, List.filter_append]
  split
  next h => simp [h]
  next h => simp [h]

namespace Surroundings

variable (S : Surroundings)

mutual

/-- The stores that a statement carries out, in order. -/
def writes (f : Frame) : Stmt → List Write
  | .bind _ | .declare _ _ | .assign _ _ => []
  | .store output indices value =>
    match S.graph.outputs[output]? with
    | some type =>
      [⟨output, indices.map fun i => (S.valueAs f i .i64).toInt, S.valueAs f value type.element⟩]
    | none => []
  | .cond branches => writesOfBranches f branches

def writesOfBlock (f : Frame) : List Stmt → List Write
  | [] => []
  | stmt :: rest => writes f stmt ++ writesOfBlock (S.step f stmt) rest

def writesOfBranches (f : Frame) : List Branch → List Write
  | [] => []
  | .mk none body :: _ => writesOfBlock f body
  | .mk (some guard) body :: rest =>
    if (S.valueAs f guard .bool).isTrue then writesOfBlock f body else writesOfBranches f rest

end

end Surroundings

namespace Graph

variable (g : Graph)

def put (buffers : Array Buffer) (w : Write) : Array Buffer :=
  match g.outputs[w.output]? with
  | some type => buffers.modify w.output fun b =>
      Buffer.put b (Shape.offset type.shape.strides w.indices) w.value
  | none => buffers

def writesAt (inputs : Array Buffer) (position : List Nat) : List Write :=
  Surroundings.writesOfBlock ⟨g, inputs, position⟩
    { values := Array.replicate g.nodes.size default
      slots := Array.replicate g.slots.length default
      outputs := #[] } g.body

/-- All writes of a run, in row-major order of their positions. -/
def allWrites (inputs : Array Buffer) : List Write :=
  g.domain.positions.flatMap (g.writesAt inputs)

end Graph

namespace Surroundings

variable (S : Surroundings)

/-! A statement run on other outputs computes the same values and makes the same writes. -/

mutual

theorem step_outputs (f : Frame) (buffers : Array Buffer) (stmt : Stmt) :
    S.step { f with outputs := buffers } stmt =
      { S.step f stmt with outputs := (S.writes f stmt).foldl S.graph.put buffers } := by
  match stmt with
  | .bind e =>
    rw [step, step, writes]
    cases S.graph.nodes[e]? <;> rfl
  | .declare v x | .assign v x =>
    rw [step, step, writes]
    rfl
  | .store k indices x =>
    rw [step, step, writes]
    cases hk : S.graph.outputs[k]? with
    | none => rfl
    | some type =>
      simp only [List.foldl_cons, List.foldl_nil, Graph.put, hk]
      rfl
  | .cond branches =>
    rw [step, step, writes]
    exact stepBranches_outputs f buffers branches

theorem stepBlock_outputs (f : Frame) (buffers : Array Buffer) (body : List Stmt) :
    S.stepBlock { f with outputs := buffers } body =
      { S.stepBlock f body with outputs := (S.writesOfBlock f body).foldl S.graph.put buffers } := by
  match body with
  | [] =>
    rw [stepBlock, stepBlock, writesOfBlock]
    rfl
  | stmt :: rest =>
    rw [stepBlock, stepBlock, writesOfBlock, List.foldl_append, step_outputs]
    exact stepBlock_outputs (S.step f stmt) _ rest

theorem stepBranches_outputs (f : Frame) (buffers : Array Buffer) (branches : List Branch) :
    S.stepBranches { f with outputs := buffers } branches =
      { S.stepBranches f branches with
        outputs := (S.writesOfBranches f branches).foldl S.graph.put buffers } := by
  match branches with
  | [] =>
    rw [stepBranches, stepBranches, writesOfBranches]
    rfl
  | .mk none body :: rest =>
    rw [stepBranches, stepBranches, writesOfBranches]
    exact stepBlock_outputs f buffers body
  | .mk (some guard) body :: rest =>
    rw [stepBranches, stepBranches, writesOfBranches]
    change (if (S.valueAs f guard .bool).isTrue then _ else _) = _
    split
    · exact stepBlock_outputs f buffers body
    · exact stepBranches_outputs f buffers rest

end

end Surroundings

namespace Buffer

theorem load_of_lt {z : Int} (h : 0 ≤ z) : b.load z = b.getD z.toNat default :=
  if_neg (Int.not_lt.2 h)

theorem load_put {y z : Int} (hy : 0 ≤ y ∧ y < b.size) (hz : 0 ≤ z) (v : Value) :
    (b.put y v).load z = if y = z then v else b.load z := by
  have hlt : y.toNat < b.size := by omega
  have hsame : y.toNat = z.toNat ↔ y = z := by omega
  rw [put, if_neg (Int.not_lt.2 hy.1), load_of_lt hz, load_of_lt hz]
  simp only [getD_eq_getD_getElem?, getElem?_setIfInBounds, hsame]
  split <;> rfl

end Buffer

namespace Graph

variable {g : Graph}

/-- There is one buffer for each output, and it has the size of that output. -/
def Fits (g : Graph) (buffers : Array Buffer) : Prop :=
  ∀ k : Nat, buffers[k]?.map Array.size = g.outputs[k]?.map fun type : TensorType => type.shape.count

theorem Fits.size_eq (h : g.Fits buffers) : buffers.size = g.outputs.length := by
  apply Nat.le_antisymm
  · apply Nat.le_of_not_lt
    intro hlt
    have := h g.outputs.length
    simp [hlt] at this
  · apply Nat.le_of_not_lt
    intro hlt
    have := h buffers.size
    simp [hlt] at this

theorem Fits.size_getD (h : g.Fits buffers) (hk : g.outputs[k]? = some type) :
    (buffers.getD k #[]).size = type.shape.count := by
  have hsize := h k
  rw [hk] at hsize
  obtain ⟨b, hb, hcount⟩ := Option.map_eq_some_iff.1 hsize
  rw [getD_eq_getD_getElem?, hb]
  exact hcount

theorem fits_zeroBuffers : g.Fits g.zeroBuffers := by
  intro k
  simp [zeroBuffers, Function.comp_def]

theorem Fits.put (h : g.Fits buffers) (w : Write) : g.Fits (g.put buffers w) := by
  intro k
  rw [← h k, Graph.put]
  split
  · rw [getElem?_modify]
    split
    · cases buffers[k]? <;> simp
    · rfl
  · rfl

theorem Fits.foldl_put (h : g.Fits buffers) (ws : List Write) :
    g.Fits (ws.foldl g.put buffers) := by
  induction ws generalizing buffers with
  | nil => exact h
  | cons w ws ih => exact ih (h.put w)

/-- The write goes to an element of an output. -/
def Inside (g : Graph) (w : Write) : Prop :=
  ∃ type ∈ g.outputs[w.output]?, Shape.Within type.shape.dims w.indices

instance (g : Graph) (w : Write) : Decidable (g.Inside w) :=
  inferInstanceAs (Decidable (∃ type ∈ g.outputs[w.output]?, Shape.Within type.shape.dims w.indices))

theorem load_put (hb : g.Fits buffers) {w : Write} (hw : g.Inside w)
    (hk : g.outputs[k]? = some type) (hi : Shape.Within type.shape.dims indices) :
    ((g.put buffers w).getD k #[]).load (Shape.offset type.shape.strides indices) =
      if w.hits k indices then w.value
      else (buffers.getD k #[]).load (Shape.offset type.shape.strides indices) := by
  obtain ⟨type', (hk' : g.outputs[w.output]? = some type'), hi'⟩ := hw
  have hlt : w.output < buffers.size := by
    rw [hb.size_eq]
    exact (List.getElem?_eq_some_iff.1 hk').1
  simp only [put, hk', getD_eq_getD_getElem?, getElem?_modify, Write.hits,
    decide_eq_true_eq]
  by_cases hsame : w.output = k
  · subst hsame
    obtain rfl : type' = type := Option.some.inj (hk'.symm.trans hk)
    have hsize := hb.size_getD hk
    rw [getD_eq_getD_getElem?, getElem?_eq_getElem hlt] at hsize
    have hplace := type'.shape.bijOn_offset.mapsTo hi
    have hplace' := type'.shape.bijOn_offset.mapsTo hi'
    have hinj := type'.shape.bijOn_offset.injOn.eq_iff hi' hi
    rw [if_pos rfl, getElem?_eq_getElem hlt, Option.map_some, Option.getD_some,
      Option.getD_some, Buffer.load_put ⟨hplace'.1, hsize.symm ▸ hplace'.2⟩ hplace.1]
    simp only [hinj, true_and]
  · rw [if_neg hsame, if_neg fun h => hsame h.1]

theorem load_foldl_put (hb : g.Fits buffers) {ws : List Write} (hw : ∀ w ∈ ws, g.Inside w)
    (hk : g.outputs[k]? = some type) (hi : Shape.Within type.shape.dims indices) :
    ((ws.foldl g.put buffers).getD k #[]).load (Shape.offset type.shape.strides indices) =
      (lastWrite ws k indices).getD
        ((buffers.getD k #[]).load (Shape.offset type.shape.strides indices)) := by
  induction ws using List.reverseRecOn with
  | nil => rfl
  | append_singleton ws w ih =>
    have hlast : g.Inside w := hw w (by simp)
    have hfirst : ∀ v ∈ ws, g.Inside v := fun v hv => hw v (by simp [hv])
    rw [List.foldl_append, List.foldl_cons, List.foldl_nil, load_put (hb.foldl_put ws) hlast hk hi,
      ih hfirst, lastWrite_concat]
    split <;> rfl

theorem load_zeroBuffers (hk : g.outputs[k]? = some type)
    (hi : Shape.Within type.shape.dims indices) :
    (g.zeroBuffers.getD k #[]).load (Shape.offset type.shape.strides indices) =
      Value.zero type.element := by
  have hplace := type.shape.bijOn_offset.mapsTo hi
  have hlt : (Shape.offset type.shape.strides indices).toNat < type.shape.count := by
    obtain ⟨hlow, hhigh⟩ := hplace
    omega
  rw [Buffer.load_of_lt hplace.1]
  simp [zeroBuffers, getD_eq_getD_getElem?, hk, hlt]

theorem Fits.ext {a b : Array Buffer} (ha : g.Fits a) (hb : g.Fits b)
    (h : ∀ k type, g.outputs[k]? = some type → ∀ indices, Shape.Within type.shape.dims indices →
      (a.getD k #[]).load (Shape.offset type.shape.strides indices) =
        (b.getD k #[]).load (Shape.offset type.shape.strides indices)) : a = b := by
  have hsize : a.size = b.size := ha.size_eq.trans hb.size_eq.symm
  apply Array.ext hsize
  intro k hka hkb
  have hlt : k < g.outputs.length := ha.size_eq ▸ hka
  have hk : g.outputs[k]? = some g.outputs[k] := List.getElem?_eq_getElem hlt
  have hsa := ha.size_getD hk
  have hsb := hb.size_getD hk
  have hload := h k _ hk
  simp only [getD_eq_getD_getElem?, getElem?_eq_getElem hka,
    getElem?_eq_getElem hkb, Option.getD_some] at hsa hsb hload
  apply Array.ext (hsa.trans hsb.symm)
  intro j hja hjb
  have hj : j < Shape.product g.outputs[k].shape.dims := by
    change j < g.outputs[k].shape.count
    omega
  have hat := hload _ (Shape.within_coordinates hj)
  rw [Shape.strides, Shape.offset_coordinates hj, Buffer.load_of_lt (Int.natCast_nonneg j),
    Buffer.load_of_lt (Int.natCast_nonneg j)] at hat
  simpa [getD_eq_getD_getElem?, hja, hjb] using hat

/-! Whole runs. -/

theorem runAt_eq (inputs buffers : Array Buffer) (position : List Nat) :
    g.runAt inputs buffers position = (g.writesAt inputs position).foldl g.put buffers :=
  congrArg Frame.outputs (Surroundings.stepBlock_outputs ⟨g, inputs, position⟩
    ⟨Array.replicate g.nodes.size default, Array.replicate g.slots.length default, #[]⟩
    buffers g.body)

theorem foldl_runAt (inputs buffers : Array Buffer) (positions : List (List Nat)) :
    positions.foldl (g.runAt inputs) buffers =
      (positions.flatMap (g.writesAt inputs)).foldl g.put buffers := by
  induction positions generalizing buffers with
  | nil => rfl
  | cons p rest ih => rw [List.foldl_cons, ih, runAt_eq, List.flatMap_cons, List.foldl_append]

theorem run_eq_writes (inputs : Array Buffer) :
    g.run inputs = (g.allWrites inputs).foldl g.put g.zeroBuffers := by
  rw [run_eq_foldl, foldl_runAt]
  rfl

theorem fits_run (inputs : Array Buffer) : g.Fits (g.run inputs) := by
  rw [run_eq_writes]
  exact fits_zeroBuffers.foldl_put _

theorem load_run {inputs : Array Buffer} (hw : ∀ w ∈ g.allWrites inputs, g.Inside w)
    (hk : g.outputs[k]? = some type) (hi : Shape.Within type.shape.dims indices) :
    ((g.run inputs).getD k #[]).load (Shape.offset type.shape.strides indices) =
      (lastWrite (g.allWrites inputs) k indices).getD (Value.zero type.element) := by
  rw [run_eq_writes, load_foldl_put fits_zeroBuffers hw hk hi, load_zeroBuffers hk hi]

end Graph
end TensorKernel

import TensorKernel.Proofs.Host.Workbench

/-! Requests. Whatever is asked of an instance can be asked with a diary, and with any builder. -/
namespace TensorKernel

inductive Demand where
  | ask (query : Query)
  | gradGraph
  | source (backend : Backend)
  | gradSource (backend : Backend)
  | libraryOp
  /-- A call of the instance on a tape. -/
  | place (t : HostTape) (inputs : List Nat) (backend : Backend)

namespace Demand

def Reply : Demand → Type
  | ask _ => List Tensor
  | gradGraph => Graph
  | source _ | gradSource _ => Source
  | libraryOp => LibraryOp
  | place _ _ _ => List Nat × HostTape

def run : (q : Demand) → InstanceM q.Reply
  | ask query => query.run
  | gradGraph => Instance.gradGraph
  | source backend => do return (← InstanceM.self).forward.source backend
  | gradSource backend => do return (← Instance.gradGraph).source backend
  | libraryOp => Instance.libraryOp
  | place t inputs backend => t.callInstance inputs backend

/-- The request with a diary, and with any builder. -/
def record (maker : Maker) : (q : Demand) → DiaryM q.Reply
  | ask (.evaluate backend) => do DiaryM.run maker .forward backend (← DiaryM.self).inputs
  | ask (.evaluateWith backend inputs) => DiaryM.run maker .forward backend inputs
  | ask (.evaluateGrad backend outputGrads) => do
    DiaryM.run maker .grad backend ((← DiaryM.self).inputs ++ outputGrads)
  | gradGraph => DiaryM.gradGraph
  | source backend => do return (← DiaryM.self).forward.source backend
  | gradSource backend => do return (← DiaryM.gradGraph).source backend
  | libraryOp => DiaryM.libraryOp maker
  | place t inputs backend => do
    let device ← DiaryM.ofExcept (Session.device backend)
    let op ← DiaryM.libraryOp maker
    DiaryM.onSession (t.call HostTape.rules ⟨op, device⟩ inputs)

def OnCuda : Demand → Prop
  | ask (.evaluate backend) | ask (.evaluateWith backend _) | ask (.evaluateGrad backend _)
  | place _ _ backend => backend = .cuda
  | gradGraph | source _ | gradSource _ | libraryOp => False

open DiaryM

/-- With the session's own builder the diary is all that is added. -/
theorem erases_record (q : Demand) : Erases (q.record Session.maker) q.run := by
  match q with
  | ask (.evaluate backend) => exact erases_self.bind fun i => erases_run .forward backend i.inputs
  | ask (.evaluateWith backend inputs) => exact erases_run .forward backend inputs
  | ask (.evaluateGrad backend outputGrads) =>
    exact erases_self.bind fun i => erases_run .grad backend (i.inputs ++ outputGrads)
  | gradGraph => exact erases_gradGraph
  | source backend => exact erases_self.bind fun i => erases_pure (i.forward.source backend)
  | gradSource backend => exact erases_gradGraph.bind fun g => erases_pure (g.source backend)
  | libraryOp => exact erases_libraryOp
  | place t inputs backend =>
    exact (erases_ofExcept _).bind fun device => erases_libraryOp.bind fun op =>
      erases_onSession (t.call HostTape.rules ⟨op, device⟩ inputs)

variable {maker : Maker}

theorem moves_self : Moves Diary.Steps DiaryM.self := fun _ => .refl

theorem moves_record (q : Demand) : Moves Diary.Steps (q.record maker) := by
  have hgrad : Moves Diary.Steps DiaryM.gradGraph := fun s =>
    Diary.steps_of_works (@runs_gradGraph maker s trivial).1
  have hop : Moves Diary.Steps (DiaryM.libraryOp maker) := fun s =>
    Diary.steps_of_works (runs_libraryOp s trivial).1
  match q with
  | ask (.evaluate backend) => exact moves_self.bind fun i => moves_run .forward backend i.inputs
  | ask (.evaluateWith backend inputs) => exact moves_run .forward backend inputs
  | ask (.evaluateGrad backend outputGrads) =>
    exact moves_self.bind fun i => moves_run .grad backend (i.inputs ++ outputGrads)
  | gradGraph => exact hgrad
  | source backend => exact moves_self.bind fun _ => moves_pure _
  | gradSource backend => exact hgrad.bind fun _ => moves_pure _
  | libraryOp => exact hop
  | place t inputs backend =>
    exact (moves_ofExcept _).bind fun device => hop.bind fun op =>
      moves_onSession (HostTape.moves_call t ⟨op, device⟩ inputs)

theorem record_of_onCuda {q : Demand} (h : q.OnCuda) (s : Diary) :
    q.record maker s = (.error (.failed .cudaUnavailable), s) := by
  match q, h with
  | ask (.evaluate _), rfl => rfl
  | ask (.evaluateWith _ _), rfl => rfl
  | ask (.evaluateGrad _ _), rfl => rfl
  | place _ _ _, rfl => rfl

end Demand
end TensorKernel

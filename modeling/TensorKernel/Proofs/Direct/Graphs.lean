import TensorKernel.Proofs.Direct.Desk
import TensorKernel.Proofs.Text.Identifier
import TensorKernel.Script.Capture

/-! The graphs of an operator, whatever its scripts and the guest do: their names are
identifiers, and their inputs are those that the capture was started with. -/
namespace TensorKernel

open Run

variable {forward : Graph} {types : List TensorType}

/-- The running recording stays the one that it was. -/
def Desk.Headed (d d' : Desk) : Prop := d'.home.header = d.home.header

instance : Steady Desk.Headed where
  refl _ := rfl
  trans _ _ _ h h' := h'.trans h
  home _ _ h := h
  guest _ _ := rfl
  registers _ _ := rfl
  chains _ _ := rfl
  log _ _ := rfl

theorem finishHome_ok {name : String} {returned : List OutputTensor} {g : Graph} {d d' : Desk} :
    finishHome name returned d = (.ok g, d') ↔ d.home.finish name returned = .ok g ∧ d = d' := by
  rw [finishHome, bind_ok]
  simp only [get_ok, lift_ok]
  grind

theorem graph_of_run {script : Script} {id : RecordingId} {count : Nat} {guest : Option Guest}
    {name : String} {outputs : List OutputTensor} {g : Graph} {d d' : Desk}
    (hrun : script.run id (Desk.start id types count guest) = (.ok outputs, d))
    (hfinish : finishHome name outputs d = (.ok g, d')) : g.name = name ∧ g.inputs = types := by
  obtain ⟨hfinish, -⟩ := finishHome_ok.1 hfinish
  have hheader : d.home.header = (Recording.start id types).header := by
    have hmoves := @moves_script Desk.Headed _ script id (Desk.start id types count guest)
    rw [hrun] at hmoves
    exact hmoves
  have hinputs : d.home.inputs = types := congrArg Prod.snd hheader
  rw [(Recording.finished_of_finish hfinish).graph]
  exact ⟨rfl, hinputs⟩

theorem result_captureOn {desk : Desk} {x : Run Graph} {g : Graph}
    (h : (captureOn desk x).result = .ok g) : ∃ d, x desk = (.ok g, d) := by
  unfold captureOn at h
  revert h
  rcases x desk with ⟨result, d⟩
  rintro rfl
  exact ⟨d, rfl⟩

namespace Operator

variable {op : Operator} {guest : Option Guest} {g : Graph}

theorem parts_of_forwardGraph (h : (op.forwardGraph types guest).result = .ok g) :
    g.name = Text.identifier op.name ∧ g.inputs = types := by
  obtain ⟨d, h⟩ := result_captureOn h
  obtain ⟨outputs, d₁, hrun, hfinish⟩ := bind_ok.1 h
  exact graph_of_run hrun hfinish

theorem forwardGraph_ok (h : (op.forwardGraph types guest).result = .ok g) :
    Text.IsIdentifier g.name ∧ g.inputs = types := by
  obtain ⟨hname, hinputs⟩ := parts_of_forwardGraph h
  exact ⟨hname ▸ Text.isIdentifier_identifier op.name, hinputs⟩

theorem gradientGraph_none (h : op.gradient = none) :
    (op.gradientGraph forward guest).result = .error (.failed (.noGradient op.name)) := by
  rw [gradientGraph, h]

theorem parts_of_gradientGraph (h : (op.gradientGraph forward guest).result = .ok g) :
    g.name = forward.name ++ "_grad" ∧ g.inputs = forward.inputs ++ forward.outputs ∧
      g.outputs = forward.inputs := by
  unfold gradientGraph at h
  cases hscript : op.gradient with
  | none =>
    rw [hscript] at h
    cases h
  | some script =>
    rw [hscript] at h
    obtain ⟨d, h⟩ := result_captureOn h
    obtain ⟨outputs, d₁, hrun, h⟩ := bind_ok.1 h
    obtain ⟨grad, d₂, hfinish, h⟩ := bind_ok.1 h
    obtain ⟨hname, hinputs⟩ := graph_of_run hrun hfinish
    obtain ⟨hcheck, -⟩ := lift_ok.1 h
    unfold checkGradient at hcheck
    split at hcheck
    next houtputs =>
      cases hcheck
      exact ⟨hname, hinputs, houtputs⟩
    · cases hcheck

theorem gradientGraph_ok (hf : Text.IsIdentifier forward.name)
    (h : (op.gradientGraph forward guest).result = .ok g) :
    Text.IsIdentifier g.name ∧ g.inputs = forward.inputs ++ forward.outputs ∧
      g.outputs = forward.inputs := by
  obtain ⟨hname, hparts⟩ := parts_of_gradientGraph h
  refine ⟨?_, hparts⟩
  rw [hname]
  exact hf.append (by simp [Text.isLetterOrDigit])

end Operator
end TensorKernel

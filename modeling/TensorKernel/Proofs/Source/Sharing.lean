import TensorKernel.Proofs.Source.Header
import TensorKernel.Proofs.Source.Simulation

/-! Libraries may be shared by source text. Captured graphs with the same text have the same name
and types and compute the same values: evaluation depends on nothing that the text leaves out. -/
namespace TensorKernel

variable {g : Graph}

namespace Graph

theorem IsCaptured.isAnchored (h : g.IsCaptured) : g.IsAnchored := by
  obtain ⟨id, types, s, name, returned, hs, -, hg⟩ := h
  exact Draft.finish_isAnchored hs hg

end Graph

/-- Every element can be held where the element type is expected. -/
def Tensor.IsTyped (t : Tensor) : Prop := ∀ v ∈ t.data, v.Suits t.element

theorem Value.suits_ofDoubleBits (t : ElementType) (bits : UInt64) :
    (Value.ofDoubleBits t bits).Suits t := by
  cases t with
  | bool | f32 | f64 => exact rfl
  | i8 | i16 | i32 | i64 => exact nofun
  | u8 | u16 | u32 | u64 => exact fun _ => (Binary.saturate_inRange _ _).1

theorem Tensor.isTyped_ofDoubleBits {type : TensorType} {values : Array UInt64} {t : Tensor}
    (h : Tensor.ofDoubleBits type values = .ok t) : t.IsTyped := by
  obtain ⟨htype, hdata⟩ := Tensor.type_of_ofValues h
  intro v hv
  rw [hdata, Array.mem_map] at hv
  obtain ⟨bits, -, rfl⟩ := hv
  rw [Tensor.element, htype]
  exact Value.suits_ofDoubleBits type.element bits

namespace Graph

theorem inputsSuit {tensors : List Tensor} (ht : Tensor.types tensors = g.inputs)
    (hv : ∀ t ∈ tensors, t.IsTyped) (position : List Nat) :
    Surroundings.InputsSuit ⟨g, (tensors.map Tensor.data).toArray, position⟩ := by
  intro k type hk
  have hk : (Tensor.types tensors)[k]? = some type := ht ▸ hk
  rw [Tensor.types, List.getElem?_map, Option.map_eq_some_iff] at hk
  obtain ⟨t, hget, rfl⟩ := hk
  have hdata : (tensors.map Tensor.data).toArray.getD k #[] = t.data := by
    simp [Array.getD_eq_getD_getElem?, hget]
  rw [hdata]
  exact hv t (List.mem_of_getElem? hget)

/-- The sequential source of a captured graph determines what it computes. -/
theorem source_determines_run {g h : Graph} (hg : g.IsCaptured) (hh : h.IsCaptured)
    (hgn : Text.IsIdentifier g.name) (hhn : Text.IsIdentifier h.name)
    (heq : (g.source .cpu).text = (h.source .cpu).text) :
    (g.source .cpu).name = (h.source .cpu).name ∧ (g.source .cpu).entry = (h.source .cpu).entry ∧
      g.inputs = h.inputs ∧ g.outputs = h.outputs ∧ g.domain = h.domain ∧
      ∀ tensors : List Tensor, Tensor.types tensors = g.inputs → (∀ t ∈ tensors, t.IsTyped) →
        g.run (tensors.map Tensor.data).toArray = h.run (tensors.map Tensor.data).toArray := by
  obtain ⟨hname, hinputs, houtputs, hdomain, hstatements⟩ := source_inj hgn hhn heq
  refine ⟨?_, ?_, hinputs, houtputs, hdomain, ?_⟩
  · exact congrArg Text.identifier hname
  · exact congrArg (fun name => Code.entryName (Text.identifier name) .cpu) hname
  · intro tensors ht hv
    have hat : g.runAt (tensors.map Tensor.data).toArray
        = h.runAt (tensors.map Tensor.data).toArray := by
      funext outputs position
      rw [runAt_eq_runAt hg.wellTyped hg.isAnchored (inputsSuit ht hv position),
        runAt_eq_runAt hh.wellTyped hh.isAnchored (inputsSuit (ht.trans hinputs) hv position),
        hstatements]
    rw [run, run, hat, hdomain, zeroBuffers, zeroBuffers, houtputs]

/-- Every element is doubled. -/
def doubling : List Call :=
  let vector : TensorType := ⟨⟨[2]⟩, .i64⟩
  let position : Operand := .expr ⟨1, 0, .i64⟩
  [.outputLike vector, .positionIn ⟨[2]⟩, .element ⟨1, 0, vector⟩ [position],
    .binary .mul ⟨1, 1, .i64⟩ (.literal (.int 2)),
    .store ⟨1, 0, vector⟩ [position] (.expr ⟨1, 3, .i64⟩)]

/-- A negation that nothing uses does not show in the text. -/
theorem source_determines_run_doubling :
    let vector : TensorType := ⟨⟨[2]⟩, .i64⟩
    let s := (Draft.start 1 [vector]).performAll doubling
    let t := (Draft.start 1 [vector]).performAll (doubling ++ [.unary .neg ⟨1, 1, .i64⟩])
    ∃ g h, s.recording.finish "doubling" [⟨1, 0, vector⟩] = .ok g ∧
      t.recording.finish "doubling" [⟨1, 0, vector⟩] = .ok h ∧ g.nodes.size < h.nodes.size ∧
      g.run #[#[.int 5, .int (-3)]] = h.run #[#[.int 5, .int (-3)]] := by
  intro vector s t
  have hs : Draft.Reachable 1 [vector] s := Draft.leads_performAll (by decide +kernel)
  have ht : Draft.Reachable 1 [vector] t := Draft.leads_performAll (by decide +kernel)
  have hall : (s.recording.finish "doubling" [⟨1, 0, vector⟩]).toOption.any (fun g =>
      (t.recording.finish "doubling" [⟨1, 0, vector⟩]).toOption.any fun h => decide
        (g.nodes.size < h.nodes.size ∧ (g.source .cpu).text = (h.source .cpu).text ∧
          g.inputs = [vector] ∧ g.name = "doubling" ∧ h.name = "doubling")) = true := by
    decide +kernel
  cases hg : s.recording.finish "doubling" [⟨1, 0, vector⟩] with
  | error e =>
    rw [hg] at hall
    cases hall
  | ok g =>
    cases hh : t.recording.finish "doubling" [⟨1, 0, vector⟩] with
    | error e =>
      rw [hg, hh] at hall
      cases hall
    | ok h =>
      rw [hg, hh] at hall
      obtain ⟨hsize, htext, hinputs, hgn, hhn⟩ := of_decide_eq_true hall
      have hname : Text.IsIdentifier "doubling" := by
        unfold Text.IsIdentifier
        decide +kernel
      have hgc : g.IsCaptured := ⟨1, _, s, _, _, hs, by decide +kernel, hg⟩
      have hhc : h.IsCaptured := ⟨1, _, t, _, _, ht, by decide +kernel, hh⟩
      obtain ⟨-, -, -, -, -, hrun⟩ :=
        source_determines_run hgc hhc (hgn ▸ hname) (hhn ▸ hname) htext
      refine ⟨g, h, rfl, rfl, hsize, ?_⟩
      have hdata : #[0x4014000000000000, 0xC008000000000000].map (Value.ofDoubleBits .i64)
          = #[.int 5, .int (-3)] := by decide +kernel
      have htensor : Tensor.ofDoubleBits vector #[0x4014000000000000, 0xC008000000000000]
          = .ok ⟨vector, #[.int 5, .int (-3)], rfl⟩ := by
        unfold Tensor.ofDoubleBits
        rw [hdata]
        rfl
      apply hrun [⟨vector, #[.int 5, .int (-3)], rfl⟩] hinputs.symm
      intro t ht
      rw [List.mem_singleton.1 ht]
      exact Tensor.isTyped_ofDoubleBits htensor

end Graph
end TensorKernel

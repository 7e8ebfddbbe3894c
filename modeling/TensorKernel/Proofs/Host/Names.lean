import TensorKernel.Proofs.Direct.Capture
import TensorKernel.Proofs.Direct.Graphs
import TensorKernel.Proofs.Host.Session
import TensorKernel.Proofs.Source.Program
import TensorKernel.Proofs.Text.DefaultName

/-! Names of operators. They are made identifiers when a graph is captured; from there on the
graph, its source files, what these export and the libraries built from them share one name. -/
namespace TensorKernel

open Text Code List

/-- Letters, digits and underscores, of which no digit is the first. -/
structure Text.IsName (name : String) : Prop where
  nonempty : name ≠ ""
  chars : ∀ c ∈ name.toList, c.isAlpha = true ∨ c.isDigit = true ∨ c = '_'
  first : ∀ c, name.toList.head? = some c → c.isDigit = false

theorem Text.isIdentifier_iff {name : String} : IsIdentifier name ↔ IsName name := by
  have hchar (c : Char) : isLetterOrDigit c = true ∨ c = '_' ↔
      c.isAlpha = true ∨ c.isDigit = true ∨ c = '_' := by
    rw [isLetterOrDigit, Bool.or_eq_true, or_assoc]
  constructor
  · intro h
    refine ⟨?_, fun c hc => (hchar c).1 (h.char hc), fun c => h.isDigit_head⟩
    rintro rfl
    exact h.toList_ne_nil rfl
  · intro h
    refine isIdentifier_of_chars ?_ (fun c hc => (hchar c).2 (h.chars c hc)) h.first
    exact fun hnil => h.nonempty (String.toList_eq_nil_iff.1 hnil)

namespace Graph

variable {g : Graph}

/-- The name stands wherever the graph, its sources and their libraries are named. -/
structure GoesBy (g : Graph) (name : String) : Prop where
  valid : IsName name
  graph : g.name = name
  source : ∀ backend, (g.source backend).name = name
  entry : ∀ backend, (g.source backend).entry = name ++ "_" ++ backend.name
  validEntry : ∀ backend, IsName (g.source backend).entry
  /-- The text has a function of that name. -/
  exported : ∀ backend, ∃ front rest, (g.source backend).text =
    front ++ ("extern \"C\" OPVEC_EXPORT int32_t " ++ (g.source backend).entry ++ "(") ++ rest
  built : ∀ (s : Store) (c : Compiler) force files a,
    (s.getOrBuild c (g.source c.backend) force files).result = .ok a →
      a.entry = (g.source c.backend).entry ∧
        a.path = Path.join s.root (Fingerprint.libraryName name a.fingerprint c.backend)

theorem exports (front rest : List Line) (entry extra : String) :
    ∃ before after, printLines (front ++ entryLines entry extra ++ rest) =
      before ++ ("extern \"C\" OPVEC_EXPORT int32_t " ++ entry ++ "(") ++ after := by
  refine ⟨printLines front, "const void* const* inputs, void* const* outputs,\n" ++
    printLines ((entryLines entry extra).tail ++ rest), ?_⟩
  rw [append_assoc, printLines_append]
  apply String.toList_injective
  simp [entryLines, toList_printLines_cons, indent]

theorem exported_source (g : Graph) (backend : Backend) : ∃ front rest, (g.source backend).text =
    front ++ ("extern \"C\" OPVEC_EXPORT int32_t " ++ (g.source backend).entry ++ "(") ++ rest := by
  cases backend with
  | cpu =>
    have hexports := exports (g.bannerLines .cpu ++ [⟨0, ""⟩])
    simp only [source, sequentialLines, append_assoc] at hexports ⊢
    exact hexports _ _ _
  | cuda =>
    have hexports := exports (g.bannerLines .cuda ++ ([⟨0, "#include <cuda_runtime.h>"⟩, ⟨0, ""⟩]
      ++ (g.kernelLines (identifier g.name ++ "_kernel") ++ [⟨0, ""⟩])))
    simp only [source, threadedLines, launcherLines, append_assoc] at hexports ⊢
    exact hexports _ _ _

theorem goesBy (h : IsIdentifier g.name) : g.GoesBy g.name where
  valid := isIdentifier_iff.1 h
  graph := rfl
  source _ := h
  entry backend := congrArg (entryName · backend) h
  validEntry backend := by
    have hentry : (g.source backend).entry = g.name ++ ("_" ++ backend.name) :=
      (congrArg (entryName · backend) h).trans String.append_assoc
    rw [hentry]
    exact isIdentifier_iff.1 (h.append (by cases backend <;> simp [Backend.name, isLetterOrDigit]))
  exported := g.exported_source
  built s c force files a ha := by
    let r : Request := ⟨c, g.source c.backend, force⟩
    cases hi : c.identity with
    | error e =>
      rw [Store.getOrBuild, Store.fingerprint, hi] at ha
      cases ha
    | ok identity =>
      obtain rfl := @Session.artifact_of_answer a r s files identity hi ha
      have hname : r.source.name = g.name := h
      refine ⟨rfl, ?_⟩
      rw [Request.path_artifact, Request.library, hname]
      rfl

end Graph

/-- Identifiers are valid names, and valid names stay as they are; so both graphs of an operator,
their sources and their libraries go by the name that the capture gives. A default name has no
capitals and is its own default name; but for underscores it is the last segment of the type's
name in small letters; and where it has two underscores in a row, so has the segment. -/
theorem names_valid_and_stable :
    (∀ name, IsName (identifier name) ∧ (IsName name → identifier name = name) ∧
      identifier (identifier name) = identifier name) ∧
    (∀ (op : Operator) types guest g, (op.forwardGraph types guest).result = .ok g →
      g.GoesBy (identifier op.name) ∧ ∀ guest' grad, (op.gradientGraph g guest').result = .ok grad →
        grad.GoesBy (identifier op.name ++ "_grad")) ∧
    ∀ typeName, ∃ segment, (∀ other, IsLastSegment typeName other ↔ other = segment) ∧
      (∀ c ∈ (snakeCase typeName).toList, c.isUpper = false) ∧
      snakeCase (snakeCase typeName) = snakeCase typeName ∧
      (snakeCase typeName).toList.filter (· != '_') =
        (segment.toList.map Char.toLower).filter (· != '_') ∧
      ∀ x y, snakeCase typeName = x ++ "__" ++ y → ∃ front rest,
        segment = front ++ "__" ++ rest ∧ snakeCase front = x ∧ snakeCase rest = y := by
  refine ⟨?_, ?_, ?_⟩
  · intro name
    have hname := isIdentifier_identifier name
    exact ⟨isIdentifier_iff.1 hname, isIdentifier_iff.2, hname⟩
  · intro op types guest g hg
    have hid := (Operator.forwardGraph_ok hg).1
    rw [← (Operator.parts_of_forwardGraph hg).1]
    refine ⟨Graph.goesBy hid, ?_⟩
    intro guest' grad hgrad
    rw [← (Operator.parts_of_gradientGraph hgrad).1]
    exact Graph.goesBy (Operator.gradientGraph_ok hid hgrad).1
  · intro typeName
    refine ⟨String.ofList (lastSegment typeName.toList), fun _ => isLastSegment_iff, ?_,
      snakeCase_snakeCase typeName, ?_, fun x y => eq_append_of_snakeCase⟩
    · intro c hc
      exact isUpper_of_mem_snakeChars (toList_snakeCase typeName ▸ hc)
    · rw [toList_snakeCase, String.toList_ofList, filter_snakeChars]

theorem names_valid_and_stable_sign :
    let op : Operator := { signThroughVariable with name := "2-sign" }
    let typeName := "ops::LSTM__Cell2D<ops::Sum>"
    ∃ g grad, (op.forwardGraph [⟨⟨[3]⟩, .i64⟩] none).result = .ok g ∧
      (g.source .cpu).entry = "_2_sign_cpu" ∧
      (op.gradientGraph g none).result = .ok grad ∧
      (grad.source .cuda).entry = "_2_sign_grad_cuda" ∧
      snakeCase typeName = "lstm__cell2_d" ∧
      ∃ front rest, IsLastSegment typeName (front ++ "__" ++ rest) ∧
        snakeCase front = "lstm" ∧ snakeCase rest = "cell2_d" := by
  intro op typeName
  have hname : identifier op.name = "_2_sign" := by decide +kernel
  have hsnake : snakeCase typeName = "lstm__cell2_d" := by decide +kernel
  have hback : (op.forwardGraph [⟨⟨[3]⟩, .i64⟩] none).result.toOption.any
      (fun g => (op.gradientGraph g none).result.isOk) = true := by
    decide +kernel
  obtain ⟨g, hg⟩ := exists_ok_of_isOk
    (show (op.forwardGraph [⟨⟨[3]⟩, .i64⟩] none).result.isOk = true by decide +kernel)
  rw [hg] at hback
  obtain ⟨grad, hgrad⟩ := exists_ok_of_isOk hback
  obtain ⟨-, hgraphs, hdefault⟩ := names_valid_and_stable
  obtain ⟨hforward, hgradient⟩ := hgraphs op _ none g hg
  obtain ⟨segment, hsegment, -, -, -, hcut⟩ := hdefault typeName
  obtain ⟨front, rest, hfront, hx, hy⟩ := hcut "lstm" "cell2_d" hsnake
  refine ⟨g, grad, hg, ?_, hgrad, ?_, hsnake, front, rest, (hsegment _).2 hfront.symm, hx, hy⟩
  · rw [hforward.entry, hname]
    rfl
  · rw [(hgradient none grad hgrad).entry, hname]
    rfl

end TensorKernel

import TensorKernel.Proofs.Store.Sight
import TensorKernel.Store.Toolchain

/-! Builds in two steps, compiling and linking. The object between them takes its path from the
output and is removed at the end, so the files that a build keeps are those which the path of the
object does not lead to. -/
namespace TensorKernel

open FileTree

variable {q : Location}

/-- How a call of the compiler ends. -/
inductive Ending where
  /-- The program could not be started. -/
  | refused (fault : FileFault)
  | exited (response : Response)

namespace Ending

def passed : Ending → Bool
  | .refused _ => false
  | .exited r => r.status = some 0

def error (t : Toolchain) : Ending → Error
  | .refused f => .toolchain t.program f.message
  | .exited r => .compile t.backend r.status (Text.decode r.stderr)

def result (t : Toolchain) (e : Ending) : Except Error Unit :=
  if e.passed then .ok () else .error (e.error t)

def written : Ending → Option Content
  | .refused _ => none
  | .exited r => r.written

def logged (args : List String) : Ending → List Invocation
  | .refused _ => []
  | .exited _ => [.compile args]

theorem result_eq_ok {t : Toolchain} {e : Ending} : e.result t = .ok () ↔ e.passed = true := by
  rw [result]
  split
  next h => simp [h]
  next h => simp [h]

theorem result_of_failed {t : Toolchain} {e : Ending} (h : e.passed = false) :
    e.result t = .error (e.error t) := by
  rw [result, h]
  rfl

end Ending

namespace FileTree

def receive (t : FileTree) (p : String) : Option Content → FileTree
  | none => t
  | some c => t.put p c

variable {t : FileTree} {p p' : String}

theorem distinct_receive (hd : t.Distinct) (p : String) (w : Option Content) :
    (t.receive p w).Distinct := by
  cases w with
  | none => exact hd
  | some c => exact distinct_put hd p c

theorem sameDirectories_receive (hd : t.Distinct) (p : String) (w : Option Content) :
    t.SameDirectories (t.receive p w) := by
  cases w with
  | none => exact fun _ => Iff.rfl
  | some c => exact (replaced_put hd p c).sameDirectories

theorem content?_receive_of_apart (hd : t.Distinct) (h : t.Apart p' p) (w : Option Content) :
    (t.receive p w).content? p' = t.content? p' := by
  cases w with
  | none => rfl
  | some c => exact (replaced_put hd p c).content?_of_apart h

theorem Apart.congr {t' : FileTree} (h : t.Apart p p') (hs : t.SameDirectories t') :
    t'.Apart p p' := by
  intro q
  rw [hs.place?_eq, hs.place?_eq]
  exact h q

end FileTree

namespace Machine

def ending (m : Machine) (args : List String) (r : Response) : Ending :=
  match m.startFault? args with
  | some f => .refused f
  | none => .exited r

def first (m : Machine) : Response := m.responses.headD exhausted

def second (m : Machine) : Response := m.responses.tail.headD exhausted

/-- The machine after a call that was told to write `path`. -/
def after (m : Machine) (args : List String) (path : String) : Ending → Machine
  | .refused _ => m
  | .exited r => { m with
      responses := m.responses.tail
      files := m.files.receive path r.written
      calls := .compile args :: m.calls }

variable (m : Machine) (args : List String) (path : String) (e : Ending)

theorem ending_of_starts {m : Machine} {args : List String} (h : m.startFault? args = none)
    (r : Response) : m.ending args r = .exited r := by
  rw [ending, h]

theorem files_after : (m.after args path e).files = m.files.receive path e.written := by
  cases e <;> rfl

theorem calls_after : (m.after args path e).calls = e.logged args ++ m.calls := by
  cases e <;> rfl

theorem ending_after (args' : List String) (r : Response) :
    (m.after args path e).ending args' r = m.ending args' r := by
  cases e <;> rfl

theorem call_eq (t : Toolchain) : m.call t.backend t.program args path
    = ((m.ending args m.first).result t, m.after args path (m.ending args m.first)) := by
  unfold call ending first
  cases m.startFault? args with
  | some f => rfl
  | none =>
    generalize m.responses.headD exhausted = r
    obtain ⟨status, stderr, written⟩ := r
    by_cases hs : status = some 0
    · have hp : (Ending.exited ⟨status, stderr, written⟩).passed = true := decide_eq_true hs
      rw [Ending.result_eq_ok.2 hp]
      cases written <;> exact if_pos hs
    · have hp : (Ending.exited ⟨status, stderr, written⟩).passed = false := decide_eq_false hs
      rw [Ending.result_of_failed hp]
      cases written <;> exact if_neg hs

theorem files_removeFile : (m.removeFile path).files = m.files.drop path := by
  unfold removeFile FileTree.drop
  cases m.files.remove path <;> rfl

theorem calls_removeFile : (m.removeFile path).calls = m.calls := by
  unfold removeFile
  cases m.files.remove path <;> rfl

end Machine

namespace Toolchain

def objectOf (output : String) : String := Path.withExtension output "o"

variable (t : Toolchain) (source output : String) (m : Machine)

def compiling : Ending := m.ending (t.objectArgs source (objectOf output)) m.first

def linking : Ending := m.ending (linkArgs (objectOf output) output) m.second

/-- The machine after the compile step. -/
def between : Machine :=
  m.after (t.objectArgs source (objectOf output)) (objectOf output) (t.compiling source output m)

variable {t source output m}

theorem call_object : m.call t.backend t.program (t.objectArgs source (Path.withExtension output "o"))
    (Path.withExtension output "o")
      = ((t.compiling source output m).result t, t.between source output m) :=
  m.call_eq _ _ t

theorem build_of_failed (ht : t.backend = .cuda) (h : (t.compiling source output m).passed = false) :
    t.build source output m
      = (.error ((t.compiling source output m).error t), t.between source output m) := by
  rw [build, ht]
  dsimp only
  unfold buildInSteps
  dsimp only
  rw [call_object, Ending.result_of_failed h]

theorem second_eq_first_between (h : (t.compiling source output m).passed = true) :
    (t.between source output m).first = m.second := by
  rw [between]
  cases hc : t.compiling source output m with
  | refused f =>
    rw [hc] at h
    cases h
  | exited r => rfl

theorem build_of_passed (ht : t.backend = .cuda) (h : (t.compiling source output m).passed = true) :
    t.build source output m = ((linking output m).result t,
      ((t.between source output m).after (linkArgs (objectOf output) output) output
        (linking output m)).removeFile (objectOf output)) := by
  have hlink : (t.between source output m).ending (linkArgs (objectOf output) output)
      (t.between source output m).first = linking output m := by
    rw [second_eq_first_between h, between, Machine.ending_after]
    rfl
  rw [build, ht]
  dsimp only
  unfold buildInSteps
  dsimp only
  rw [call_object, Ending.result_eq_ok.2 h]
  dsimp only
  rw [Machine.call_eq]
  dsimp only
  rw [← hlink]
  rfl

/-! ### What a build answers -/

theorem calls_build (ht : t.backend = .cuda) : (t.build source output m).2.calls
    = (if (t.compiling source output m).passed
        then (linking output m).logged (linkArgs (objectOf output) output) else [])
      ++ ((t.compiling source output m).logged (t.objectArgs source (objectOf output))
        ++ m.calls) := by
  cases h : (t.compiling source output m).passed with
  | false =>
    rw [build_of_failed ht h, between, Machine.calls_after]
    rfl
  | true =>
    rw [build_of_passed ht h, Machine.calls_removeFile, Machine.calls_after, between,
      Machine.calls_after]
    rfl

theorem build_eq_ok (ht : t.backend = .cuda) : (t.build source output m).1 = .ok () ↔
    (t.compiling source output m).passed = true ∧ (linking output m).passed = true := by
  cases h : (t.compiling source output m).passed with
  | false =>
    rw [build_of_failed ht h]
    simp
  | true =>
    rw [build_of_passed ht h, Ending.result_eq_ok]
    simp

/-! ### What a build leaves -/

theorem files_between : (t.between source output m).files
    = m.files.receive (objectOf output) (t.compiling source output m).written := m.files_after ..

theorem files_build_of_passed (ht : t.backend = .cuda)
    (h : (t.compiling source output m).passed = true) : (t.build source output m).2.files
      = ((t.between source output m).files.receive output (linking output m).written).drop
          (objectOf output) := by
  rw [build_of_passed ht h, Machine.files_removeFile, Machine.files_after]

section
variable (hd : m.files.Distinct)
include hd

variable (t source output) in
theorem distinct_between : (t.between source output m).files.Distinct := by
  rw [files_between]
  exact distinct_receive hd _ _

variable (t source output) in
theorem sameDirectories_between : m.files.SameDirectories (t.between source output m).files := by
  rw [files_between]
  exact sameDirectories_receive hd _ _

variable (t source output) in
theorem distinct_linked : ((t.between source output m).files.receive output
    (linking output m).written).Distinct :=
  distinct_receive (distinct_between t source output hd) _ _

variable (t source output) in
theorem sameDirectories_linked : m.files.SameDirectories
    ((t.between source output m).files.receive output (linking output m).written) := by
  intro q
  rw [sameDirectories_between t source output hd q]
  exact sameDirectories_receive (distinct_between t source output hd) _ _ q

theorem content?_build_of_apart (ht : t.backend = .cuda) {kept : String}
    (ho : m.files.Apart kept (objectOf output)) (hout : m.files.Apart kept output) :
    (t.build source output m).2.files.content? kept = m.files.content? kept := by
  have hcompiled : (t.between source output m).files.content? kept = m.files.content? kept := by
    rw [files_between]
    exact content?_receive_of_apart hd ho _
  cases h : (t.compiling source output m).passed with
  | false =>
    rw [build_of_failed ht h]
    exact hcompiled
  | true =>
    have hlinked := content?_receive_of_apart (distinct_between t source output hd)
      (hout.congr (sameDirectories_between t source output hd)) (linking output m).written
    have hdropped := (replaced_drop (distinct_linked t source output hd)
      (objectOf output)).content?_of_apart (ho.congr (sameDirectories_linked t source output hd))
    rw [files_build_of_passed ht h, hdropped, hlinked, hcompiled]

theorem content?_build_of_place (ht : t.backend = .cuda)
    (h : (t.compiling source output m).passed = true) {p : String}
    (ho : m.files.place? (objectOf output) = some q) (hp : m.files.place? p = some q) :
    (t.build source output m).2.files.content? p = none := by
  have hsame := sameDirectories_linked t source output hd
  rw [files_build_of_passed ht h]
  exact (replaced_drop (distinct_linked t source output hd)
    (objectOf output)).content?_of_place (hsame.place? ho) (hsame.place? hp)

theorem content?_build_object (ht : t.backend = .cuda)
    (h : (t.compiling source output m).passed = true) :
    (t.build source output m).2.files.content? (objectOf output) = none := by
  cases ho : m.files.place? (objectOf output) with
  | some q => exact content?_build_of_place hd ht h ho ho
  | none =>
    have hsame := (replaced_drop (distinct_linked t source output hd)
      (objectOf output)).sameDirectories
    rw [files_build_of_passed ht h, content?_eq_bind, hsame.place?_eq,
      (sameDirectories_linked t source output hd).place?_eq, ho]
    rfl

theorem content?_build_output (ht : t.backend = .cuda)
    (h : (t.compiling source output m).passed = true) {c : Content}
    (hq : m.files.place? output = some q) (ha : m.files.place? (objectOf output) ≠ some q)
    (hw : (linking output m).written = some c) {p : String} (hp : m.files.place? p = some q) :
    (t.build source output m).2.files.content? p = some c := by
  have hsame := sameDirectories_between t source output hd
  have hlinked : ((t.between source output m).files.receive output
      (linking output m).written).content? p = some c := by
    rw [hw]
    exact (replaced_put (distinct_between t source output hd) output c).content?_of_place
      (hsame.place? hq) (hsame.place? hp)
  have hapart : m.files.Apart p (objectOf output) := by
    intro q' hq'
    rw [hp] at hq'
    exact Option.some.inj hq' ▸ ha
  have hdropped := (replaced_drop (distinct_linked t source output hd)
    (objectOf output)).content?_of_apart (hapart.congr (sameDirectories_linked t source output hd))
  rw [files_build_of_passed ht h, hdropped, hlinked]

/-! ### All behaviours of the compiler -/

omit hd in
theorem compiling_of_starts (hc : m.startFault? (t.objectArgs source (objectOf output)) = none)
    (responses : List Response) : t.compiling source output { m with responses }
      = .exited (responses.headD Machine.exhausted) :=
  Machine.ending_of_starts (m := { m with responses }) hc _

omit hd in
theorem linking_of_starts (hl : m.startFault? (linkArgs (objectOf output) output) = none)
    (responses : List Response) : linking output { m with responses }
      = .exited (responses.tail.headD Machine.exhausted) :=
  Machine.ending_of_starts (m := { m with responses }) hl _

theorem content?_kept_iff (ht : t.backend = .cuda)
    (hc : m.startFault? (t.objectArgs source (objectOf output)) = none)
    (hl : m.startFault? (linkArgs (objectOf output) output) = none) (kept : String) :
    (∀ responses, (t.build source output { m with responses }).2.files.content? kept
        = m.files.content? kept) ↔
      m.files.Apart kept (objectOf output) ∧ m.files.Apart kept output := by
  constructor
  · intro hkept
    have hobject : m.files.Apart kept (objectOf output) := by
      by_contra hnot
      obtain ⟨q, hq, ho⟩ := not_apart.1 hnot
      have hpassed : (t.compiling source output
          { m with responses := [⟨some 0, [], none⟩] }).passed = true := by
        rw [compiling_of_starts hc]
        rfl
      have hnone := content?_build_of_place (m := { m with responses := [_] }) hd ht hpassed ho hq
      have hfailed : (t.compiling source output
          { m with responses := [⟨some 1, [], some (.text "")⟩] }).passed = false := by
        rw [compiling_of_starts hc]
        rfl
      have hsome : (t.build source output
          { m with responses := [⟨some 1, [], some (.text "")⟩] }).2.files.content? kept
            = some (.text "") := by
        rw [build_of_failed ht hfailed, files_between, compiling_of_starts hc]
        exact (replaced_put hd (objectOf output) (.text "")).content?_of_place ho hq
      rw [hkept] at hnone hsome
      rw [hnone] at hsome
      cases hsome
    refine ⟨hobject, ?_⟩
    intro q hq hout
    have hwritten (text : String) : (t.build source output
        { m with responses := [⟨some 0, [], none⟩, ⟨some 0, [], some (.text text)⟩] }).2.files.content?
          kept = some (.text text) := by
      refine content?_build_output (m := { m with responses := [_, _] }) hd ht ?_ hout
        (hobject q hq) ?_ hq
      · rw [compiling_of_starts hc]
        rfl
      · rw [linking_of_starts hl]
        rfl
    have hempty := hwritten ""
    have hother := hwritten "x"
    rw [hkept] at hempty hother
    simp [hempty] at hother
  · rintro ⟨ho, hout⟩ responses
    exact content?_build_of_apart (m := { m with responses }) hd ht ho hout

theorem content?_output_iff (ht : t.backend = .cuda)
    (hc : m.startFault? (t.objectArgs source (objectOf output)) = none)
    (hl : m.startFault? (linkArgs (objectOf output) output) = none)
    (hout : (m.files.place? output).isSome) :
    (∀ first second c, first.status = some 0 → second.status = some 0 → second.written = some c →
      (t.build source output { m with responses := [first, second] }).2.files.content? output
        = some c) ↔ m.files.Apart output (objectOf output) := by
  obtain ⟨q, hq⟩ := Option.isSome_iff_exists.1 hout
  have hpassed {first second : Response} (h : first.status = some 0) :
      (t.compiling source output { m with responses := [first, second] }).passed = true := by
    rw [compiling_of_starts hc]
    exact decide_eq_true h
  constructor
  · intro hleft
    by_contra hnot
    obtain ⟨q', hq', ho⟩ := not_apart.1 hnot
    have hsome := hleft ⟨some 0, [], none⟩ ⟨some 0, [], some (.text "")⟩ (.text "") rfl rfl rfl
    rw [content?_build_of_place (m := { m with responses := [_, _] }) hd ht (hpassed rfl) ho hq']
      at hsome
    cases hsome
  · intro ha first second c hfirst _ hw
    refine content?_build_output (m := { m with responses := [first, second] }) hd ht
      (hpassed hfirst) hq (ha q hq) ?_ hq
    rw [linking_of_starts hl]
    exact hw

end

/-- A build in two steps, for every way in which its two calls can end. The link step runs exactly
if the compile step exited with 0, the build succeeds exactly if both did, and otherwise its error is
that of the call which failed. After a success the object is gone, and the output is what the link
step wrote, where the two are different files. Files other than the object and the output are
unchanged in all cases, and for no others is that true whatever the compiler does. -/
theorem two_step_build (t : Toolchain) (ht : t.backend = .cuda) (source output : String)
    (m : Machine) (hd : m.files.Distinct) :
    let object := objectOf output
    let compile := t.compiling source output m
    let link := linking output m
    let build := t.build source output m
    build.2.calls = (if compile.passed then link.logged (linkArgs object output) else [])
      ++ (compile.logged (t.objectArgs source object) ++ m.calls) ∧
    (build.1 = .ok () ↔ compile.passed = true ∧ link.passed = true) ∧
    (compile.passed = false → build.1 = .error (compile.error t)) ∧
    (compile.passed = true → link.passed = false → build.1 = .error (link.error t)) ∧
    (build.1 = .ok () → build.2.files.content? object = none ∧
      (m.files.Apart output object → (m.files.place? output).isSome →
        ∀ c, link.written = some c → build.2.files.content? output = some c)) ∧
    (∀ kept, m.files.Apart kept object → m.files.Apart kept output →
      build.2.files.content? kept = m.files.content? kept) ∧
    (m.startFault? (t.objectArgs source object) = none →
      m.startFault? (linkArgs object output) = none →
      ((∀ responses, (t.build source output { m with responses }).2.files.content? source
        = m.files.content? source) ↔ m.files.Apart source object ∧ m.files.Apart source output) ∧
      ((m.files.place? output).isSome →
        ((∀ first second c, first.status = some 0 → second.status = some 0 →
          second.written = some c → (t.build source output
            { m with responses := [first, second] }).2.files.content? output = some c) ↔
          m.files.Apart output object))) := by
  refine ⟨calls_build ht, build_eq_ok ht, ?_, ?_, ?_, ?_, ?_⟩
  · intro h
    rw [build_of_failed ht h]
  · intro h hlink
    rw [build_of_passed ht h]
    exact Ending.result_of_failed hlink
  · intro hok
    obtain ⟨hcompile, -⟩ := (build_eq_ok ht).1 hok
    refine ⟨content?_build_object hd ht hcompile, ?_⟩
    intro ha hout c hw
    obtain ⟨q, hq⟩ := Option.isSome_iff_exists.1 hout
    exact content?_build_output hd ht hcompile hq (ha q hq) hw hq
  · intro kept ho hout
    exact content?_build_of_apart hd ht ho hout
  · intro hc hl
    exact ⟨content?_kept_iff hd ht hc hl source, content?_output_iff hd ht hc hl⟩

/-! ### Builds of one directory -/

def cudaCompiler : Toolchain := ⟨.cuda, "nvcc", "include", none⟩

def desk (responses : List Response) : Machine :=
  ⟨true, "", responses, ⟨[("k.cu", .file (.text "body")), ("k.o", .file (.text "data"))]⟩, []⟩

def working : List Response :=
  [⟨some 0, [], some (.text "object")⟩, ⟨some 0, [], some (.text "library")⟩]

theorem distinct_desk (responses : List Response) : (desk responses).files.Distinct := by
  refine Folder.distinct_of_below (by simp [desk]) ?_
  intro name sub h
  simp only [desk, List.lookup_cons, List.lookup_nil] at h
  split at h
  · cases h
  · split at h <;> cases h

theorem place?_desk : (desk working).files.place? "lib.k.so" = some ["lib.k.so"] ∧
    (desk working).files.place? (objectOf "lib.k.so") = some ["lib.k.o"] ∧
    (desk working).files.place? "k.cu" = some ["k.cu"] := by
  decide

theorem two_step_build_library : (desk working).files.Distinct ∧
    (cudaCompiler.build "k.cu" "lib.k.so" (desk working)).1 = .ok () ∧
    (cudaCompiler.build "k.cu" "lib.k.so" (desk working)).2.files.content? "lib.k.so"
      = some (.text "library") ∧
    (cudaCompiler.build "k.cu" "lib.k.so" (desk working)).2.files.content? (objectOf "lib.k.so")
      = none ∧
    ∀ responses, (cudaCompiler.build "k.cu" "lib.k.so" (desk responses)).2.files.content? "k.cu"
      = some (.text "body") := by
  obtain ⟨-, hok, -, -, hleft, -, hexact⟩ :=
    two_step_build cudaCompiler rfl "k.cu" "lib.k.so" (desk working) (distinct_desk working)
  obtain ⟨houtput, hobject, hsource⟩ := place?_desk
  have hresult := hok.2 ⟨by decide, by decide⟩
  obtain ⟨hgone, hlibrary⟩ := hleft hresult
  have happart : (desk working).files.Apart "k.cu" (objectOf "lib.k.so") ∧
      (desk working).files.Apart "k.cu" "lib.k.so" := by
    simp [FileTree.Apart, hsource, hobject, houtput]
  refine ⟨distinct_desk working, hresult, ?_, hgone, ?_⟩
  · exact hlibrary (by simp [FileTree.Apart, hobject, houtput]) (by rw [houtput]; rfl) _ rfl
  · intro responses
    have hbefore : (desk working).files.content? "k.cu" = some (.text "body") := by
      rw [content?_eq_bind, hsource]
      rfl
    rw [← hbefore]
    exact (hexact (by decide) (by decide)).1.2 happart responses

/-- A source that has the name of the object is lost when the link step fails, and an output that
has it is lost when both steps succeed. -/
theorem two_step_build_destroys : "k.o" ≠ "k.so" ∧ "k.cu" ≠ "k.o" ∧
    (desk [⟨some 0, [], none⟩, ⟨some 1, [], none⟩]).files.content? "k.o" = some (.text "data") ∧
    (cudaCompiler.build "k.o" "k.so" (desk [⟨some 0, [], none⟩, ⟨some 1, [], none⟩])).2.files.content?
      "k.o" = none ∧
    (cudaCompiler.build "k.cu" "k.o" (desk working)).1 = .ok () ∧
    (linking "k.o" (desk working)).written = some (.text "library") ∧
    (cudaCompiler.build "k.cu" "k.o" (desk working)).2.files.content? "k.o" = none := by
  have hsource : (desk [⟨some 0, [], none⟩, ⟨some 1, [], none⟩]).files.place? (objectOf "k.so")
      = some ["k.o"] ∧ (desk [⟨some 0, [], none⟩, ⟨some 1, [], none⟩]).files.place? "k.o"
      = some ["k.o"] := by decide
  have houtput : (desk working).files.place? (objectOf "k.o") = some ["k.o"] ∧
      (desk working).files.place? "k.o" = some ["k.o"] := by decide
  refine ⟨by decide, by decide, ?_, ?_, (build_eq_ok rfl).2 ⟨by decide, by decide⟩, rfl, ?_⟩
  · rw [content?_eq_bind, hsource.2]
    rfl
  · exact content?_build_of_place (distinct_desk _) rfl (by decide) hsource.1 hsource.2
  · exact content?_build_of_place (distinct_desk _) rfl (by decide) houtput.1 houtput.2

end Toolchain
end TensorKernel

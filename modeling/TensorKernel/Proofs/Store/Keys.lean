import TensorKernel.Proofs.Store.Opening

/-! Keys of libraries. A library's file tells for which name, backend, identity and text it was
built. Its name is read from the end, where fingerprint and backend have known lengths, so what
the name of the kernel looks like does not matter. -/
namespace TensorKernel

open List

/-! ### Files of one directory -/

namespace Path

theorem IsEntry.not_isIdle {n : String} (h : IsEntry n) : isIdle n.toList = false := by
  have hdot : n.toList ≠ ['.'] := fun he => h.plain.1 (String.toList_inj.1 he)
  simp [isIdle, h.name.nonempty, hdot]

theorem components_join {base n : String} (h : IsEntry n) :
    ∃ front, components (join base n) = front ++ [n] := by
  obtain ⟨above, habove⟩ := @pieces_join base n h.name
  have hidle : isIdle n.toList = false := h.not_isIdle
  have hnamed : (named (join base n)).map String.ofList
      = (above.filter (!isIdle ·)).map String.ofList ++ [n] := by
    simp [named, habove, hidle]
  unfold components
  rw [hnamed]
  split
  · exact ⟨"/" :: _, rfl⟩
  · split
    · exact ⟨"." :: _, rfl⟩
    · exact ⟨_, rfl⟩

theorem components_join_inj {base n m : String} (hn : IsEntry n) (hm : IsEntry m)
    (h : components (join base n) = components (join base m)) : n = m := by
  obtain ⟨front, hfront⟩ := @components_join base n hn
  obtain ⟨front', hfront'⟩ := @components_join base m hm
  rw [hfront, hfront'] at h
  exact singleton_inj.1 (append_inj' h rfl).2

theorem fileName_join {base n : String} (h : IsEntry n) : fileName (join base n) = n := by
  obtain ⟨above, habove⟩ := @pieces_join base n h.name
  have hidle : isIdle n.toList = false := h.not_isIdle
  have hup : (n.toList == ['.', '.']) = false :=
    beq_false_of_ne fun he => h.plain.2 (String.toList_inj.1 he)
  have hlast : (trimEnd (pieces (join base n))).getLast? = some n.toList := by
    rw [habove]
    cases above with
    | nil => rfl
    | cons first rest =>
      have htrim : trimEnd (first :: rest ++ [n.toList]) = first :: rest ++ [n.toList] := by
        simp [trimEnd, dropIdleEnd, hidle]
      rw [htrim, getLast?_append, getLast?_singleton]
      rfl
  unfold fileName fileName?
  rw [hlast]
  simp [hidle, hup]

end Path

/-! ### Printed fingerprints -/

namespace Sha256

def hexDigits : List Char := "0123456789abcdef".toList

theorem mem_hexDigits : ∀ n < 16, hexDigit n ∈ hexDigits := by decide

theorem mem_hexDigits_of_mem_hex {bytes : List UInt8} {c : Char} (h : c ∈ (hex bytes).toList) :
    c ∈ hexDigits := by
  rw [hex, String.toList_ofList] at h
  obtain ⟨b, -, hb⟩ := mem_flatMap.1 h
  have hlt := b.toNat_lt
  simp only [mem_cons, not_mem_nil, or_false] at hb
  rcases hb with rfl | rfl
  · exact mem_hexDigits _ (by omega)
  · exact mem_hexDigits _ (by omega)

end Sha256

namespace Fingerprint

def printedLength : Nat := 64

theorem length_of (backend : Backend) (identity text : String) :
    (of backend identity text).length = printedLength := by
  rw [of, Sha256.length_hex, Sha256.length_digest]
  rfl

/-! ### Reading file names -/

def beginning : List Char := "lib".toList

def ending (b : Backend) : List Char := '_' :: b.name.toList ++ libraryExtension.toList

/-- Name and fingerprint by what comes before the ending. -/
def readFront (front : List Char) : String × String :=
  let digits := front.length - printedLength
  (String.ofList ((front.take (digits - 1)).drop beginning.length),
    String.ofList (front.drop digits))

/-- Name, fingerprint and backend of a library by its file name, if that ends like one. -/
def readName (file : String) : Option ((String × String) × Backend) :=
  [Backend.cpu, Backend.cuda].findSome? fun b =>
    if (ending b).isSuffixOf file.toList then
      some (readFront (file.toList.take (file.toList.length - (ending b).length)), b)
    else none

theorem isSuffixOf_ending (front : List Char) (b b' : Backend) :
    (ending b').isSuffixOf (front ++ ending b) = decide (b' = b) := by
  rw [Bool.eq_iff_iff, isSuffixOf_iff_suffix, decide_eq_true_eq]
  constructor
  · rintro ⟨before, hbefore⟩
    have hend := congrArg (fun cs => cs.reverse.take 4) hbefore
    revert hend
    cases b <;> cases b' <;> simp [ending, Backend.name, libraryExtension]
  · rintro rfl
    exact suffix_append front (ending b')

theorem readFront_append {fingerprint : String} (h : fingerprint.length = printedLength)
    (name : String) :
    readFront ((beginning ++ name.toList ++ ['_']) ++ fingerprint.toList) = (name, fingerprint) := by
  have hdigits : ((beginning ++ name.toList ++ ['_']) ++ fingerprint.toList).length - printedLength
      = (beginning ++ name.toList ++ ['_']).length := by
    rw [length_append, String.length_toList, h, Nat.add_sub_cancel]
  have hname : (beginning ++ name.toList ++ ['_']).length - 1 = (beginning ++ name.toList).length := by
    rw [length_append, length_singleton, Nat.add_sub_cancel]
  unfold readFront
  dsimp only
  rw [hdigits, hname, drop_left, append_assoc (beginning ++ name.toList), take_left,
    drop_left, String.ofList_toList, String.ofList_toList]

/-- Whatever the name is, it can be told from the fingerprint and the backend after it. -/
theorem readName_libraryName {fingerprint : String} (h : fingerprint.length = printedLength)
    (name : String) (b : Backend) :
    readName (libraryName name fingerprint b) = some ((name, fingerprint), b) := by
  have hfile : (libraryName name fingerprint b).toList
      = ((beginning ++ name.toList ++ ['_']) ++ fingerprint.toList) ++ ending b :=
    toList_libraryName name fingerprint b
  have hsuffix (b' : Backend) :
      (ending b').isSuffixOf (libraryName name fingerprint b).toList = decide (b' = b) := by
    rw [hfile]
    exact isSuffixOf_ending _ b b'
  have hread : readFront ((libraryName name fingerprint b).toList.take
      ((libraryName name fingerprint b).toList.length - (ending b).length)) = (name, fingerprint) := by
    rw [hfile, length_append, Nat.add_sub_cancel, take_left, readFront_append h]
  unfold readName
  cases b <;> simp [hsuffix, hread]

end Fingerprint

/-! ### Keys -/

namespace Request

variable {r r' : Request} {identity identity' fp fp' : String}

theorem fingerprint_eq (hi : r.compiler.identity = .ok identity)
    (hfp : Store.fingerprint r.compiler r.source.text = .ok fp) :
    fp = Fingerprint.of r.compiler.backend identity r.source.text := by
  rw [Store.fingerprint, hi] at hfp
  exact (Except.ok.inj hfp).symm

theorem origin_of_same (s : Store) (hn : Text.IsIdentifier r.source.name)
    (hn' : Text.IsIdentifier r'.source.name) (hs : (r.origin identity).Short)
    (hs' : (r'.origin identity').Short)
    (hd : Sha256.digest (r.origin identity).message = Sha256.digest (r'.origin identity').message →
      (r.origin identity).message = (r'.origin identity').message)
    (h : Path.same (Path.join s.root (r.library identity)) (Path.join s.root (r'.library identity'))
      = true) :
    r.source.name = r'.source.name ∧ r.origin identity = r'.origin identity' := by
  have hentry : Path.IsEntry (r.library identity) := Store.isEntry_nameOf hn _
  have hentry' : Path.IsEntry (r'.library identity') := Store.isEntry_nameOf hn' _
  have hfile := Path.components_join_inj hentry hentry' (of_decide_eq_true h)
  exact Fingerprint.nameOf_inj hs hs' hd hfile

/-- Consider two requests for kernels whose names are identifiers, and assume that the hash does
not map the two messages to the same digest unless they are equal. Fingerprints are printed as 64
digits; the message keeps apart what it is made of; name, fingerprint and backend can be read
from the name of the file; and requests that share their file agree in name, backend, identity
and text. -/
theorem file_determines_key (s : Store) (hn : Text.IsIdentifier r.source.name)
    (hn' : Text.IsIdentifier r'.source.name) (hi : r.compiler.identity = .ok identity)
    (hi' : r'.compiler.identity = .ok identity')
    (hs : (Text.encode identity).length < UInt64.size)
    (hs' : (Text.encode identity').length < UInt64.size)
    (hd : Sha256.digest (r.origin identity).message = Sha256.digest (r'.origin identity').message →
      (r.origin identity).message = (r'.origin identity').message)
    (hfp : Store.fingerprint r.compiler r.source.text = .ok fp)
    (hfp' : Store.fingerprint r'.compiler r'.source.text = .ok fp') :
    let path := s.artifactPath r.source.name fp r.compiler.backend
    let path' := s.artifactPath r'.source.name fp' r'.compiler.backend
    (fp.length = 64 ∧ ∀ c ∈ fp.toList, c ∈ Sha256.hexDigits) ∧
      ((r.origin identity).message = (r'.origin identity').message →
        r.origin identity = r'.origin identity') ∧
      Fingerprint.readName (Path.fileName path)
        = some ((r.source.name, fp), r.compiler.backend) ∧
      (Path.same path path' = true →
        r.source.name = r'.source.name ∧ r.compiler.backend = r'.compiler.backend ∧
          identity = identity' ∧ r.source.text = r'.source.text) := by
  obtain rfl := fingerprint_eq hi hfp
  obtain rfl := fingerprint_eq hi' hfp'
  have hlength := Fingerprint.length_of r.compiler.backend identity r.source.text
  refine ⟨⟨hlength, fun c hc => Sha256.mem_hexDigits_of_mem_hex hc⟩,
    Fingerprint.message_inj hs hs', ?_, ?_⟩
  · have hentry : Path.IsEntry (r.library identity) := Store.isEntry_nameOf hn _
    have hfile : Path.fileName (Path.join s.root (r.library identity)) = r.library identity :=
      Path.fileName_join hentry
    exact (congrArg Fingerprint.readName hfile).trans (Fingerprint.readName_libraryName hlength _ _)
  · intro hsame
    obtain ⟨hname, horigin⟩ := origin_of_same s hn hn' hs hs' hd hsame
    exact ⟨hname, congrArg Fingerprint.Origin.backend horigin,
      congrArg Fingerprint.Origin.identity horigin, congrArg Fingerprint.Origin.text horigin⟩

/-- A kernel whose name looks like the end of a library's. -/
def deceptiveSource : Source := ⟨.cpu, "scale_00ff_cuda", "scale_00ff_cuda_cpu", "body"⟩

/-- Two requests for the same library, of which one is forced and fails. -/
theorem file_determines_key_deceptive :
    let r : Request := ⟨⟨.cpu, .ok "c++ 13", fun text => .ok (some (.text text))⟩,
      deceptiveSource, false⟩
    let r' : Request := ⟨⟨.cpu, .ok "c++ 13", fun _ => .error .boolElements⟩,
      deceptiveSource, true⟩
    let s : Store := ⟨"cache", 0, 0⟩
    Store.fingerprint r.compiler "body" = Store.fingerprint r'.compiler "body" ∧
      ∃ fp, Store.fingerprint r.compiler "body" = .ok fp ∧ fp.length = 64 ∧
        Fingerprint.readName (Path.fileName (s.artifactPath "scale_00ff_cuda" fp .cpu))
          = some (("scale_00ff_cuda", fp), .cpu) ∧
        r.source.text = r'.source.text := by
  intro r r' s
  have hname : Text.identifier "scale_00ff_cuda" = "scale_00ff_cuda" := by decide
  obtain ⟨hprinted, -, hread, hkey⟩ := @file_determines_key r r' "c++ 13" "c++ 13" _ _ s hname hname
    rfl rfl (by decide) (by decide) (fun _ => rfl) rfl rfl
  exact ⟨rfl, _, rfl, hprinted.1, hread, (hkey (decide_eq_true rfl)).2.2.2⟩

end Request
end TensorKernel

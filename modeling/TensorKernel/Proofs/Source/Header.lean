import TensorKernel.Proofs.Source.Program
import TensorKernel.Proofs.Store.Build

/-! What a source file says around its block. Every line of the banner ends at its newline and
shows a type or the domain in full. The lines up to the loops say nothing else, and the loops
differ in nothing but the block inside of them. -/
namespace TensorKernel

open List Text

variable {what : String} {w : List Char} {c : Char}

namespace Shape

def furtherChars (dims : List Nat) : List Char :=
  dims.flatMap fun d => ',' :: ' ' :: Nat.toDigits 10 d

theorem toList_text_nil : (text ⟨[]⟩).toList = ['[', ']'] := by decide

theorem toList_text_cons (d : Nat) (rest : List Nat) :
    (text ⟨d :: rest⟩).toList = '[' :: (Nat.toDigits 10 d ++ (furtherChars rest ++ [']'])) := by
  simp [text, Dump.list, String.toList_intercalate, Code.intercalate_cons, furtherChars,
    flatMap_map]

theorem stops_furtherChars (dims : List Nat) :
    Text.Stops Char.isDigit (furtherChars dims ++ [']']) := by
  cases dims with
  | nil => exact stops_cons.2 rfl
  | cons d rest => exact stops_cons.2 rfl

theorem furtherChars_inj {xs ys : List Nat}
    (h : furtherChars xs ++ [']'] = furtherChars ys ++ [']']) : xs = ys := by
  induction xs generalizing ys with
  | nil =>
    cases ys with
    | nil => rfl
    | cons d ys => cases (List.cons.inj h).1
  | cons d xs ih =>
    cases ys with
    | nil => cases (List.cons.inj h).1
    | cons e ys =>
      simp only [furtherChars, flatMap_cons, cons_append, List.cons.injEq, true_and,
        append_assoc] at h
      obtain ⟨rfl, hrest⟩ := toDigits_append_inj (stops_furtherChars xs)
        (stops_furtherChars ys) h
      rw [ih hrest]

theorem text_inj {s t : Shape} (h : s.text.toList = t.text.toList) : s = t := by
  obtain ⟨xs⟩ := s
  obtain ⟨ys⟩ := t
  have hsome (d : Nat) (rest : List Nat) : (text ⟨d :: rest⟩).toList ≠ (text ⟨[]⟩).toList := by
    rw [toList_text_nil, toList_text_cons]
    intro h
    have hstop : Text.Stops Char.isDigit [']'] := stops_cons.2 rfl
    obtain ⟨hdigits, -⟩ := append_inj_of_stops (b := [])
      (fun _ hx => isDigit_of_mem_toDigits hx) nofun (stops_furtherChars rest) hstop
      (List.cons.inj h).2
    exact Nat.toDigits_ne_nil hdigits
  cases xs with
  | nil =>
    cases ys with
    | nil => rfl
    | cons d ys => exact absurd h.symm (hsome d ys)
  | cons d xs =>
    cases ys with
    | nil => exact absurd h (hsome d xs)
    | cons e ys =>
      rw [toList_text_cons, toList_text_cons] at h
      obtain ⟨rfl, hrest⟩ := toDigits_append_inj (stops_furtherChars xs)
        (stops_furtherChars ys) (List.cons.inj h).2
      rw [furtherChars_inj hrest]

theorem newline_not_mem_text (s : Shape) : '\n' ∉ s.text.toList := by
  obtain ⟨dims⟩ := s
  have hdigits (d : Nat) : '\n' ∉ Nat.toDigits 10 d := not_mem_toDigits rfl d
  cases dims with
  | nil => decide
  | cons d rest => simp [toList_text_cons, furtherChars, hdigits]

theorem exists_text (s : Shape) : ∃ rest, s.text.toList = '[' :: rest :=
  ⟨_, by simp [text, Dump.list]; rfl⟩

end Shape

theorem ElementType.name_inj {t u : ElementType} (h : t.name = u.name) : t = u := by
  have hnodup : (all.map name).Nodup := by decide +kernel
  exact inj_on_of_nodup_map hnodup (mem_all t) (mem_all u) h

theorem ElementType.not_mem_name (t : ElementType) :
    '[' ∉ t.name.toList ∧ '\n' ∉ t.name.toList := by
  cases t <;> decide

namespace TensorType

theorem text_inj {t u : TensorType} (h : t.text.toList = u.text.toList) : t = u := by
  obtain ⟨shape, element⟩ := t
  obtain ⟨shape', element'⟩ := u
  obtain ⟨rest, hrest⟩ := shape.exists_text
  obtain ⟨rest', hrest'⟩ := shape'.exists_text
  simp only [text, String.toList_append, hrest, hrest'] at h
  obtain ⟨hname, hsame⟩ := append_cons_inj element.not_mem_name.1 element'.not_mem_name.1 h
  rw [ElementType.name_inj (String.toList_inj.1 hname),
    Shape.text_inj (hrest.trans (hsame ▸ hrest'.symm))]

theorem newline_not_mem_text (t : TensorType) : '\n' ∉ t.text.toList := by
  rw [text, String.toList_append, mem_append, not_or]
  exact ⟨t.element.not_mem_name.2, t.shape.newline_not_mem_text⟩

end TensorType

namespace Code

def noteText (what : String) (k : Nat) (t : TensorType) : String :=
  "//   " ++ what ++ toString k ++ ": " ++ t.text

theorem toList_noteText (what : String) (k : Nat) (t : TensorType) :
    (noteText what k t).toList = '/' :: '/' :: ' ' :: ' ' :: ' ' ::
      (what.toList ++ (Nat.toDigits 10 k ++ ':' :: ' ' :: t.text.toList)) := by
  simp [noteText]

theorem noteText_inj {k : Nat} {t u : TensorType}
    (h : (noteText what k t).toList = (noteText what k u).toList) : t = u := by
  rw [toList_noteText, toList_noteText] at h
  simp only [List.cons.injEq, true_and, append_cancel_left_eq] at h
  exact TensorType.text_inj h

theorem newline_not_mem_noteText (hw : '\n' ∉ what.toList) (k : Nat) (t : TensorType) :
    '\n' ∉ (noteText what k t).toList := by
  have hdigits : '\n' ∉ Nat.toDigits 10 k := not_mem_toDigits rfl k
  simp [toList_noteText, hw, hdigits, t.newline_not_mem_text]

/-- The text goes on with a remark that starts with the character. -/
def Remarks (c : Char) (rest : List Char) : Prop :=
  ∃ t, rest = '/' :: '/' :: ' ' :: ' ' :: ' ' :: c :: t

theorem Remarks.eq {d : Char} {rest : List Char} (hc : Remarks c rest) (hd : Remarks d rest) :
    c = d := by
  obtain ⟨t, rfl⟩ := hc
  obtain ⟨u, hu⟩ := hd
  simp only [List.cons.injEq, true_and] at hu
  exact hu.1

theorem remarks_noteText (hw : what.toList = c :: w) (k : Nat) (t : TensorType) (rest : List Char) :
    Remarks c ((noteText what k t).toList ++ rest) := by
  rw [toList_noteText, hw]
  exact ⟨_, rfl⟩

theorem remarks_notes (hw : what.toList = c :: w) {line : Nat → TensorType → Line}
    (hl : ∀ k, ∃ n, line k = fun t => ⟨0, noteText what n t⟩) (x : TensorType)
    (xs : List TensorType) (rest : List Char) :
    Remarks c ((printLines ((x :: xs).mapIdx line)).toList ++ rest) := by
  obtain ⟨n, hn⟩ := hl 0
  rw [mapIdx_cons, hn, toList_printLines_cons, append_assoc, append_assoc]
  exact remarks_noteText hw n x _

theorem notes_append_inj (hw : what.toList = c :: w) (hline : '\n' ∉ what.toList) {r s : List Char}
    (hr : ¬Remarks c r) (hs : ¬Remarks c s) {line : Nat → TensorType → Line}
    (hl : ∀ k, ∃ n, line k = fun t => ⟨0, noteText what n t⟩) {xs ys : List TensorType}
    (h : (printLines (xs.mapIdx line)).toList ++ r = (printLines (ys.mapIdx line)).toList ++ s) :
    xs = ys ∧ r = s := by
  induction xs generalizing ys line with
  | nil =>
    cases ys with
    | nil => exact ⟨rfl, h⟩
    | cons y ys =>
      have hremark := remarks_notes hw hl y ys s
      rw [← h] at hremark
      exact absurd hremark hr
  | cons x xs ih =>
    cases ys with
    | nil =>
      have hremark := remarks_notes hw hl x xs r
      rw [h] at hremark
      exact absurd hremark hs
    | cons y ys =>
      obtain ⟨n, hn⟩ := hl 0
      simp only [mapIdx_cons, hn, toList_printLines_cons, append_assoc,
        append_cancel_left_eq, cons_append] at h
      obtain ⟨hnote, hrest⟩ := append_cons_inj (newline_not_mem_noteText hline n x)
        (newline_not_mem_noteText hline n y) h
      obtain ⟨rfl, hr⟩ := ih (fun k => hl (k + 1)) hrest
      exact ⟨by rw [noteText_inj hnote], hr⟩

end Code

namespace Graph
open Code

def titleText (g : Graph) : String :=
  "// " ++ g.name ++ " (" ++ Backend.cpu.name ++ "): generated by opvec " ++ version

theorem toList_titleText (g : Graph) :
    g.titleText.toList
      = "// ".toList ++ (g.name.toList ++ " (cpu): generated by opvec 0.3.4".toList) := by
  simp [titleText, Backend.name, version]

theorem newline_not_mem_titleText {g : Graph} (h : Text.IsIdentifier g.name) :
    '\n' ∉ g.titleText.toList := by
  have hname : '\n' ∉ g.name.toList := by
    intro hn
    rcases h.char hn with h | h <;> cases h
  simp [toList_titleText, hname]

def positionsText (g : Graph) : String := "//   positions: " ++ g.domain.text

def openingLines (g : Graph) (entry : String) : List Line :=
  [⟨0, "#include \"" ++ headerName ++ "\""⟩, ⟨0, ""⟩] ++ entryLines entry "" ++ g.domainCheck
    ++ g.parameters.flatMap (fun p =>
        [⟨1, p.type ++ " " ++ p.name ++ " = " ++ p.pass ++ ";"⟩, ⟨1, ignore p.name⟩])
    ++ g.unusedInputs

def headLines (g : Graph) (entry : String) : List Line :=
  ⟨0, g.titleText⟩ :: (g.inputs.mapIdx (fun k t => ⟨0, noteText "in" k t⟩)
    ++ (g.outputs.mapIdx (fun k t => ⟨0, noteText "out" k t⟩)
    ++ (⟨0, g.positionsText⟩ :: g.openingLines entry)))

theorem sequentialLines_eq (g : Graph) (entry : String) :
    g.sequentialLines entry = g.headLines entry
      ++ (loopLines g.code 1 0 g.domain.dims ++ [⟨1, "return 0;"⟩, ⟨0, "\x7d"⟩]) := by
  unfold sequentialLines bannerLines headLines openingLines
  simp only [append_assoc, cons_append, nil_append]
  rfl

theorem toList_positionsText (g : Graph) :
    g.positionsText.toList = "//   positions: ".toList ++ g.domain.text.toList :=
  String.toList_append

theorem remarks_positionsText (g : Graph) (rest : List Char) :
    Remarks 'p' (g.positionsText.toList ++ rest) := by
  rw [toList_positionsText]
  exact ⟨_, rfl⟩

theorem newline_not_mem_positionsText (g : Graph) : '\n' ∉ g.positionsText.toList := by
  rw [toList_positionsText, mem_append, not_or]
  exact ⟨by decide, g.domain.newline_not_mem_text⟩

theorem not_remarks_outputs (g : Graph) (rest : List Char) : ¬Remarks 'i' ((printLines
    (g.outputs.mapIdx fun k t => ⟨0, noteText "out" k t⟩)).toList
      ++ (g.positionsText.toList ++ rest)) := by
  intro hi
  cases ho : g.outputs with
  | nil =>
    rw [ho] at hi
    exact absurd (hi.eq (g.remarks_positionsText rest)) (by decide)
  | cons x xs =>
    rw [ho] at hi
    have hnote : "out".toList = 'o' :: ['u', 't'] := by decide
    exact absurd (hi.eq (remarks_notes hnote (fun k => ⟨k, rfl⟩) x xs _)) (by decide)

/-- The name, the types and the domain are read off the first lines. -/
theorem headLines_inj {g h : Graph} (hg : Text.IsIdentifier g.name) (hh : Text.IsIdentifier h.name)
    {entry entry' : String} {r s : List Line}
    (heq : (printLines (g.headLines entry ++ r)).toList
      = (printLines (h.headLines entry' ++ s)).toList) :
    g.name = h.name ∧ g.inputs = h.inputs ∧ g.outputs = h.outputs ∧ g.domain = h.domain := by
  have hindent : indent 0 = [] := rfl
  have hin : "in".toList = 'i' :: ['n'] := by decide
  have hout : "out".toList = 'o' :: ['u', 't'] := by decide
  have hpositions (g : Graph) (rest : List Char) : ¬Remarks 'o' (g.positionsText.toList ++ rest) :=
    fun ho => absurd (ho.eq (g.remarks_positionsText rest)) (by decide)
  simp only [headLines, cons_append, append_assoc, toList_printLines_cons,
    printLines_append, String.toList_append, hindent, nil_append] at heq
  obtain ⟨htitle, hnotes⟩ := append_cons_inj (newline_not_mem_titleText hg)
    (newline_not_mem_titleText hh) heq
  obtain ⟨hinputs, hothers⟩ := notes_append_inj hin (by decide) (g.not_remarks_outputs _)
    (h.not_remarks_outputs _) (fun k => ⟨k, rfl⟩) hnotes
  obtain ⟨houtputs, hrest⟩ := notes_append_inj hout (by decide) (hpositions g _) (hpositions h _)
    (fun k => ⟨k, rfl⟩) hothers
  obtain ⟨hdomain, -⟩ := append_cons_inj g.newline_not_mem_positionsText
    h.newline_not_mem_positionsText hrest
  rw [toList_titleText, toList_titleText] at htitle
  rw [toList_positionsText, toList_positionsText] at hdomain
  exact ⟨String.toList_inj.1 (append_cancel_right (append_cancel_left htitle)), hinputs,
    houtputs, Shape.text_inj (append_cancel_left hdomain)⟩

theorem headLines_congr {g h : Graph} (hname : g.name = h.name) (hinputs : g.inputs = h.inputs)
    (houtputs : g.outputs = h.outputs) (hdomain : g.domain = h.domain) (entry : String) :
    g.headLines entry = h.headLines entry := by
  unfold headLines titleText positionsText openingLines domainCheck parameters unusedInputs
  rw [hname, hinputs, houtputs, hdomain]

theorem loopLines_inj {a b : List Command} {depth axis : Nat} {dims : List Nat}
    (h : (printLines (loopLines a depth axis dims)).toList
      = (printLines (loopLines b depth axis dims)).toList) :
    (printLines (blockLines (depth + dims.length) a)).toList
      = (printLines (blockLines (depth + dims.length) b)).toList := by
  induction dims generalizing depth axis with
  | nil => exact h
  | cons dim rest ih =>
    rw [loopLines, loopLines, cons_append, cons_append, toList_printLines_cons,
      toList_printLines_cons] at h
    have hbody := (List.cons.inj (append_cancel_left (append_cancel_left h))).2
    rw [printLines_append, printLines_append, String.toList_append, String.toList_append] at hbody
    have hinner := ih (append_cancel_right hbody)
    rwa [Nat.add_assoc, Nat.add_comm 1] at hinner

theorem ends_nil (depth : Nat) : Code.Ends (depth + 1) [] := by
  intro s t h
  rw [indent_succ] at h
  simp at h

theorem text_source (g : Graph) : (g.source .cpu).text
    = printLines (g.sequentialLines (entryName (Text.identifier g.name) .cpu)) := rfl

/-- The whole text shows all that the evaluation depends on. -/
theorem source_inj {g h : Graph} (hg : Text.IsIdentifier g.name) (hh : Text.IsIdentifier h.name)
    (heq : (g.source .cpu).text = (h.source .cpu).text) :
    g.name = h.name ∧ g.inputs = h.inputs ∧ g.outputs = h.outputs ∧ g.domain = h.domain ∧
      g.statements g.live g.body = h.statements h.live h.body := by
  have hchars := congrArg String.toList heq
  rw [text_source, text_source, sequentialLines_eq, sequentialLines_eq] at hchars
  obtain ⟨hname, hinputs, houtputs, hdomain⟩ := headLines_inj hg hh hchars
  refine ⟨hname, hinputs, houtputs, hdomain, ?_⟩
  rw [headLines_congr hname hinputs houtputs hdomain, hname, hdomain, printLines_append,
    printLines_append (h.headLines _), String.toList_append, String.toList_append] at hchars
  have hloops := append_cancel_left hchars
  rw [printLines_append, printLines_append, String.toList_append, String.toList_append] at hloops
  have hblock := loopLines_inj (append_cancel_right hloops)
  rw [code, code, toList_commands, toList_commands, Nat.add_comm 1] at hblock
  have hends := ends_nil h.domain.dims.length
  exact (blockChars_append_inj hends hends (by rw [hblock])).1

end Graph
end TensorKernel

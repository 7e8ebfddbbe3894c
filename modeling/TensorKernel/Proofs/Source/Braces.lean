import TensorKernel.Code.Source
import TensorKernel.Proofs.Source.Program

/-! Braces and depths of generated blocks. A block is written from its own depth back to it, its
braces match, and at another depth it has the same lines with another indentation; so both
kinds of source file hold the same lines. -/
namespace TensorKernel

open List

variable {base : Nat}

namespace Code

variable {cs : List Char} {c : Char}

def Braceless (cs : List Char) : Prop := ∀ c ∈ cs, c ≠ '\x7b' ∧ c ≠ '\x7d'

instance (cs : List Char) : Decidable (Braceless cs) := decidableBAll _ cs

@[simp] theorem braceless_nil : Braceless [] := fun _ h => absurd h not_mem_nil

@[simp] theorem braceless_cons : Braceless (c :: cs) ↔ (c ≠ '\x7b' ∧ c ≠ '\x7d') ∧ Braceless cs :=
  forall_mem_cons

@[simp] theorem braceless_append {a b : List Char} :
    Braceless (a ++ b) ↔ Braceless a ∧ Braceless b := forall_mem_append

theorem IsWord.braceless (h : IsWord cs) : Braceless cs := by
  intro c hc
  refine ⟨?_, ?_⟩ <;>
  · rintro rfl
    cases h _ hc

@[simp] theorem braceless_toDigits (n : Nat) : Braceless (Nat.toDigits 10 n) :=
  (isWord_toDigits n).braceless

@[simp] theorem braceless_spelling (t : ElementType) : Braceless t.spelling.toList :=
  (isWord_spelling t).braceless

@[simp] theorem Phrase.braceless (x : Phrase) : Braceless x.chars := by
  induction x with
  | word w => exact w.isWord_chars.braceless
  | apply h x ih => simp [chars, h.isWord_chars.braceless, ih]
  | pair h x y ihx ihy => simp [chars, h.isWord_chars.braceless, ihx, ihy]
  | joined h op x y ihx ihy =>
    simp [chars, h.isWord_chars.braceless, (isWord_mark op).braceless, ihx, ihy]

theorem Summand.braceless (s : Summand) : Braceless s.chars := by
  obtain ⟨index, step⟩ := s
  cases step <;> simp [chars, stepChars]

@[simp] theorem Offset.braceless (o : Offset) : Braceless o.chars := by
  refine braceless_append.2 ⟨o.first.braceless, ?_⟩
  intro c hc
  obtain ⟨s, -, hc⟩ := mem_flatMap.1 hc
  exact braceless_append.2 ⟨show Braceless [' ', '+', ' '] by decide, s.braceless⟩ c hc

@[simp] theorem Expression.braceless (x : Expression) : Braceless x.chars := by
  cases x with
  | load k offset => simp [chars]
  | phrase x => exact x.braceless

theorem printLines_cons (l : Line) (rest : List Line) :
    printLines (l :: rest) = l.print ++ printLines rest := by
  simp [printLines]

/-- Lines as they are written one by one, from one depth to another. A line that starts with a
closing brace first goes back, but not below `base`; what follows an opening brace at its end
stands deeper. -/
inductive Written (base : Nat) : Nat → List Line → Nat → Prop where
  | nil {d : Nat} : Written base d [] d
  | line {d e : Nat} {text : String} {rest : List Line} (closes opens : Bool) {inner : List Char} :
      base ≤ d → Braceless inner →
      text.toList = replicate closes.toNat '\x7d' ++ inner ++ replicate opens.toNat '\x7b' →
      Written base (d + opens.toNat) rest e → Written base (d + closes.toNat) (⟨d, text⟩ :: rest) e

namespace Written

variable {base d e : Nat} {ls : List Line}

theorem append {f : Nat} {ls' : List Line} (h : Written base d ls e) (h' : Written base e ls' f) :
    Written base d (ls ++ ls') f := by
  induction h with
  | nil => exact h'
  | line closes opens hd hi ht _ ih => exact .line closes opens hd hi ht (ih h')

theorem single {text : String} (hd : base ≤ d) (ht : Braceless text.toList) :
    Written base d [⟨d, text⟩] d :=
  .line false false hd ht (by simp) .nil

theorem opening {rest : List Line} (first : Bool) (guard : Option Reference) (hd : base ≤ d)
    (h : Written base (d + 1) rest e) :
    Written base (d + (!first).toNat) (⟨d, openingText first guard⟩ :: rest) e := by
  obtain ⟨inner, hi, ht⟩ : ∃ inner, Braceless inner ∧ (openingText first guard).toList
      = replicate (!first).toNat '\x7d' ++ inner ++ ['\x7b'] := by
    refine ⟨(if first then [] else [' ', 'e', 'l', 's', 'e', ' '])
      ++ (match guard with
        | some x => ['i', 'f', ' ', '('] ++ x.phrase.chars ++ [')', ' ']
        | none => if first then "if (true) ".toList else []), ?_, ?_⟩
    all_goals cases first <;> cases guard <;> simp [openingText, Reference.toList_text]
  exact .line (!first) true hd hi ht h

theorem closing (hd : base ≤ d) : Written base (d + 1) [⟨d, "\x7d"⟩] d :=
  .line true false hd braceless_nil rfl .nil

theorem count_print {text : String} {closes opens : Bool} {inner : List Char}
    (hi : Braceless inner)
    (ht : text.toList
      = replicate closes.toNat '\x7d' ++ inner ++ replicate opens.toNat '\x7b') :
    (Line.mk d text).print.toList.count '\x7d' = closes.toNat ∧
      (Line.mk d text).print.toList.count '\x7b' = opens.toNat := by
  have hclose : inner.count '\x7d' = 0 := count_eq_zero.2 fun h => (hi _ h).2 rfl
  have hopen : inner.count '\x7b' = 0 := count_eq_zero.2 fun h => (hi _ h).1 rfl
  rw [toList_print, ht]
  simp [indent, count_replicate, hclose, hopen]

theorem count_eq (h : Written base d ls e) :
    e + (printLines ls).toList.count '\x7d' = d + (printLines ls).toList.count '\x7b' := by
  induction h with
  | nil => rfl
  | @line d e text rest closes opens _ _ hi ht _ ih =>
    obtain ⟨hclose, hopen⟩ := @count_print d text closes opens _ hi ht
    rw [printLines_cons, String.toList_append, count_append, count_append, hclose, hopen]
    omega

theorem count_le_of_prefix (h : Written base d ls e) (hb : base ≤ d) {p : List Char}
    (hp : p <+: (printLines ls).toList) : base + p.count '\x7d' ≤ d + p.count '\x7b' := by
  induction h generalizing p with
  | nil =>
    obtain rfl := prefix_nil.1 hp
    exact hb
  | @line d e text rest closes opens _ hd hi ht _ ih =>
    obtain ⟨hclose, hopen⟩ := @count_print d text closes opens _ hi ht
    rw [printLines_cons, String.toList_append] at hp
    rcases prefix_or_prefix_of_prefix hp (prefix_append _ _) with hline | ⟨q, rfl⟩
    · have hle := hline.sublist.count_le '\x7d'
      omega
    · have hq := ih (Nat.le_add_right_of_le hd) ((prefix_append_right_inj _).1 hp)
      rw [count_append, count_append, hclose, hopen]
      omega

end Written

def Line.shift (k : Nat) (l : Line) : Line := ⟨l.depth + k, l.text⟩

theorem toList_print_shift (k : Nat) (l : Line) :
    (l.shift k).print.toList = replicate (4 * k) ' ' ++ l.print.toList := by
  simp only [Line.shift, toList_print, indent]
  rw [Nat.mul_add, Nat.add_comm, ← replicate_append_replicate, append_assoc]

mutual

theorem lines_shift (d k : Nat) (c : Command) :
    c.lines (d + k) = (c.lines d).map (Line.shift k) := by
  match c with
  | .define .. | .declare .. | .assign .. | .store .. | .cond [] => simp [Command.lines, Line.shift]
  | .cond (arm :: rest) => simp [Command.lines, armLines_shift d k true (arm :: rest), Line.shift]

theorem blockLines_shift (d k : Nat) (cs : List Command) :
    blockLines (d + k) cs = (blockLines d cs).map (Line.shift k) := by
  match cs with
  | [] => rfl
  | c :: rest => rw [blockLines, blockLines, map_append, lines_shift, blockLines_shift]

theorem armLines_shift (d k : Nat) (first : Bool) (branches : List Arm) :
    armLines (d + k) first branches = (armLines d first branches).map (Line.shift k) := by
  match branches with
  | [] => rfl
  | .mk guard body :: rest =>
    rw [armLines, armLines, Nat.add_right_comm, blockLines_shift (d + 1) k body,
      armLines_shift d k false rest]
    simp [Line.shift]

end

theorem blockLines_infix_loopLines (code : List Command) (dims : List Nat) (d axis : Nat) :
    (blockLines d code).map (Line.shift dims.length) <:+: Graph.loopLines code d axis dims := by
  induction dims generalizing d axis with
  | nil =>
    rw [← blockLines_shift]
    exact infix_rfl
  | cons dim rest ih =>
    have hinner := ih (d + 1) (axis + 1)
    rw [← blockLines_shift] at hinner ⊢
    rw [length_cons, Nat.add_comm rest.length, ← Nat.add_assoc]
    exact (hinner.trans (suffix_cons _ _).isInfix).trans (prefix_append _ _).isInfix

end Code

namespace Graph
open Code

mutual

theorem written_command (g : Graph) (live : Array Bool) {d : Nat} (hb : base ≤ d) (s : Stmt) :
    Written base d (blockLines d (g.command live s)) d := by
  match s with
  | .bind e =>
    rw [command, definition]
    cases g.nodes[e]? with
    | none => exact .nil
    | some node =>
      dsimp only
      split
      · exact .single hb (by simp [toList_term])
      · exact .nil
  | .declare slot init =>
    rw [command]
    exact .single hb (by simp [Reference.toList_text])
  | .assign slot value =>
    rw [command]
    exact .single hb (by simp [Reference.toList_text])
  | .store output indices value =>
    rw [command]
    cases g.outputs[output]? with
    | none => exact .nil
    | some type => exact .single hb (by simp [Reference.toList_text, toList_offsetText])
  | .cond [] => exact .nil
  | .cond (.mk guard body :: rest) =>
    rw [command, arms, blockLines, blockLines, append_nil, Command.lines, armLines]
    · have hbody := g.written_commands live (Nat.le_succ_of_le hb) body
      have hrest := g.written_arms live hb rest
      exact .opening true _ hb ((hbody.append hrest).append (.closing hb))
    · exact cons_ne_nil _ _

theorem written_commands (g : Graph) (live : Array Bool) {d : Nat} (hb : base ≤ d)
    (body : List Stmt) : Written base d (blockLines d (g.commands live body)) d := by
  match body with
  | [] => exact .nil
  | s :: rest =>
    rw [commands, blockLines_append]
    exact (g.written_command live hb s).append (g.written_commands live hb rest)

theorem written_arms (g : Graph) (live : Array Bool) {d : Nat} (hb : base ≤ d)
    (branches : List Branch) :
    Written base (d + 1) (armLines d false (g.arms live branches)) (d + 1) := by
  match branches with
  | [] => exact .nil
  | .mk guard body :: rest =>
    rw [arms, armLines]
    have hbody := g.written_commands live (Nat.le_succ_of_le hb) body
    exact .opening false _ hb (hbody.append (g.written_arms live hb rest))

end

theorem exists_sequentialLines_eq (g : Graph) (entry : String) :
    ∃ front head tail, g.sequentialLines entry = front ++ entryLines entry "" ++ head ++
      (blockLines 1 g.code).map (Line.shift g.domain.dims.length) ++ tail ++
        [⟨1, "return 0;"⟩, ⟨0, "\x7d"⟩] := by
  obtain ⟨before, after, hloops⟩ := blockLines_infix_loopLines g.code g.domain.dims 1 0
  refine ⟨g.bannerLines .cpu ++ [⟨0, ""⟩], g.domainCheck ++ g.parameters.flatMap (fun p =>
    [⟨1, p.type ++ " " ++ p.name ++ " = " ++ p.pass ++ ";"⟩, ⟨1, ignore p.name⟩]) ++
      g.unusedInputs ++ before, after, ?_⟩
  rw [sequentialLines, ← hloops]
  simp only [append_assoc]

/-- A block is written from its depth back to that depth and never from above it. Its braces match,
it has the same lines at every depth, and so the function of the one source file and the kernel of
the other have them. -/
theorem lowering_balanced (g : Graph) (live : Array Bool) (body : List Stmt) (d : Nat) :
    let cs := g.commands live body
    let text := (printLines (blockLines d cs)).toList
    Written d d (blockLines d cs) d ∧
      text.count '\x7b' = text.count '\x7d' ∧
      (∀ p, p <+: text → p.count '\x7d' ≤ p.count '\x7b') ∧
      (∀ k, blockLines (d + k) cs = (blockLines d cs).map (Line.shift k) ∧
        ∀ l : Line, (l.shift k).print.toList = List.replicate (4 * k) ' ' ++ l.print.toList) ∧
      (∃ front head tail, (g.source .cpu).text = printLines (front ++
        entryLines (g.source .cpu).entry "" ++ head ++
          (blockLines 1 g.code).map (Line.shift g.domain.dims.length) ++ tail ++
            [⟨1, "return 0;"⟩, ⟨0, "\x7d"⟩])) ∧
      ∃ front head rest, let kernel := g.kernelLines ((g.source .cuda).name ++ "_kernel")
        (g.source .cuda).text = printLines (front ++ kernel ++ rest) ∧
          kernel = head ++ blockLines 1 g.code ++ [⟨0, "\x7d"⟩] := by
  intro cs text
  have hw : Written d d (blockLines d cs) d := g.written_commands live (Nat.le_refl d) body
  refine ⟨hw, ?_, fun p hp => ?_, fun k => ⟨blockLines_shift d k cs, toList_print_shift k⟩, ?_, ?_⟩
  · exact (Nat.add_left_cancel hw.count_eq).symm
  · exact Nat.le_of_add_le_add_left (hw.count_le_of_prefix (Nat.le_refl d) hp)
  · obtain ⟨front, head, tail, hlines⟩ := g.exists_sequentialLines_eq (g.source .cpu).entry
    exact ⟨front, head, tail, congrArg printLines hlines⟩
  · exact ⟨_, _, _, congrArg printLines (append_assoc _ _ _), rfl⟩

/-- A chain inside the first branch of another one. -/
theorem lowering_balanced_nested :
    let inner : Stmt := .cond [.mk (some 1) [.assign 0 2], .mk (some 3) []]
    let body : List Stmt := [.cond [.mk (some 0) [.assign 0 1, inner], .mk none [.assign 0 4]]]
    let lines := blockLines 2 ((⟨"step", #[], body, [], [], [], ⟨[4]⟩⟩ : Graph).commands #[] body)
    lines.map Line.print
        = ["        if (e0) \x7b\n", "            v0 = e1;\n", "            if (e1) \x7b\n",
          "                v0 = e2;\n", "            \x7d else if (e3) \x7b\n", "            \x7d\n",
          "        \x7d else \x7b\n", "            v0 = e4;\n", "        \x7d\n"] ∧
      Written 2 2 lines 2 :=
  ⟨by decide +kernel, (lowering_balanced _ _ _ _).1⟩

end Graph
end TensorKernel

import TensorKernel.Code.Block
import TensorKernel.Proofs.Source.Statement

/-! The statements that the code of a graph stands for. Its text is theirs; what the text of a
literal, an operation or a block does not show, they do not show either. -/
namespace TensorKernel

open List

variable {op : BinaryOp} {f symbol : String} {h : Code.Head}

namespace Code

def integerPhrase (z : Int) : Phrase :=
  if z = ElementType.i64.minValue then
    .joined .plain .sub (.word (.signed (-9223372036854775807))) (.word (.plain 1))
  else .word (.signed z)

def floatPhrase (t : ElementType) (x : Float) : Phrase :=
  match h : decodeDouble x with
  | .nan => .apply (.cast t) (.word .nan)
  | .infinite negative => .apply (if negative then .minusCast t else .cast t) (.word .infinity)
  | .finite s m q =>
    if t = .f32 then .word (.single x.toFloat32) else .word (.double x ⟨s, m, q, h⟩)

def literalPhrase (v : Literal) (t : ElementType) : Phrase :=
  match v.cast t with
  | .bool b => .word (.truth b)
  | .int z => .apply (.cast t) (integerPhrase z.toInt)
  | .uint n => .apply (.cast t) (.word (.unsigned n.toNat))
  | .float x => floatPhrase t x

theorem toList_cast (t : ElementType) {tail : String} {inside : List Char}
    (h : tail.toList = '>' :: '(' :: (inside ++ [')'])) :
    ("static_cast<" ++ t.spelling ++ tail).toList
      = (Head.cast t).chars ++ '(' :: (inside ++ [')']) := by
  change _ = "static_cast<".toList ++ t.spelling.toList ++ ['>'] ++ '(' :: (inside ++ [')'])
  simp only [String.toList_append, h, append_assoc, cons_append, nil_append]

theorem toList_castText (t : ElementType) (inside : String) :
    (castText t.spelling inside).toList = (Head.cast t).chars ++ '(' :: (inside.toList ++ [')']) := by
  have hopen : ">(".toList = ['>', '('] := by decide
  have hclose : ")".toList = [')'] := by decide
  unfold castText
  rw [String.append_assoc, String.append_assoc]
  apply toList_cast
  simp only [String.toList_append, hopen, hclose, cons_append, nil_append]

theorem toList_least : "(-9223372036854775807LL - 1)".toList = Phrase.chars
    (.joined .plain .sub (.word (.signed (-9223372036854775807))) (.word (.plain 1))) := by
  simp only [Phrase.chars, Word.chars, Text.toList_toString_int]
  decide +kernel

theorem toList_signedDigits (z : Int) : (Literal.signedDigits z).toList = (integerPhrase z).chars := by
  by_cases h : z = ElementType.i64.minValue
  · rw [Literal.signedDigits, integerPhrase, if_pos h, if_pos h]
    exact toList_least
  · rw [Literal.signedDigits, integerPhrase, if_neg h, if_neg h]
    exact Word.toList_text (.signed z)

theorem toList_floatSpelling (t : ElementType) (x : Float) :
    (Literal.floatSpelling t x).toList = (floatPhrase t x).chars := by
  unfold floatPhrase
  split
  next h =>
    rw [Literal.floatSpelling, h]
    exact toList_cast t (by decide)
  next negative h =>
    have hinfinity : ("static_cast<" ++ t.spelling ++ ">(INFINITY)").toList
        = Phrase.chars (.apply (.cast t) (.word .infinity)) := toList_cast t (by decide)
    rw [Literal.floatSpelling, h]
    dsimp only
    rw [String.append_assoc, String.append_assoc, ← @String.append_assoc "static_cast<",
      String.toList_append, hinfinity]
    cases negative <;> rfl
  next s m q h =>
    have hspelling : Literal.floatSpelling t x
        = if t = .f32 then singleText x.toFloat32 ++ "f" else doubleText x := by
      rw [Literal.floatSpelling, h]
    rw [hspelling]
    split
    · exact Word.toList_text (.single x.toFloat32)
    · exact Word.toList_text (.double x ⟨s, m, q, h⟩)

theorem toList_spelling (v : Literal) (t : ElementType) :
    (v.spelling t).toList = (literalPhrase v t).chars := by
  unfold Literal.spelling literalPhrase
  cases v.cast t with
  | bool b => exact Word.toList_text (.truth b)
  | int z =>
    rw [Phrase.chars, ← toList_signedDigits]
    exact toList_castText t (Literal.signedDigits z.toInt)
  | uint n =>
    have hopen : ">(".toList = ['>', '('] := by decide
    have hclose : "ULL)".toList = ['U', 'L', 'L', ')'] := by decide
    dsimp only
    rw [String.append_assoc, String.append_assoc, Phrase.chars]
    apply toList_cast
    simp [Phrase.chars, Word.chars, hopen, hclose]
  | float x => exact toList_floatSpelling t x

def Atom.phrase : Atom → Phrase
  | literal v t => literalPhrase v t
  | position axis => .word (.position axis)
  | node e => .word (.node e)

theorem Atom.toList_text (a : Atom) : a.text.toList = a.phrase.chars := by
  cases a with
  | literal v t => exact toList_spelling v t
  | position axis => exact Word.toList_text (.position axis)
  | node e => exact Word.toList_text (.node e)

def Reference.phrase (r : Reference) : Phrase :=
  match r.conversion with
  | none => r.atom.phrase
  | some t => .apply (.cast t) r.atom.phrase

theorem Reference.toList_text (r : Reference) : r.text.toList = r.phrase.chars := by
  obtain ⟨conversion, a⟩ := r
  cases conversion with
  | none => exact a.toList_text
  | some t =>
    change (castText t.spelling a.text).toList = _
    rw [toList_castText, a.toList_text]
    rfl

def Stride.summand (s : Stride) : Summand :=
  ⟨s.index.phrase, if s.step = 1 then none else some s.step⟩

theorem Stride.toList_text (s : Stride) : s.text.toList = s.summand.chars := by
  unfold Stride.text Stride.summand Summand.chars
  split
  · simp [s.index.toList_text, Summand.stepChars]
  · simp [s.index.toList_text, Summand.stepChars]

/-- The sum of no strides is a zero. -/
def offsetOf : List Stride → Offset
  | [] => ⟨⟨.word (.plain 0), none⟩, []⟩
  | s :: rest => ⟨s.summand, rest.map Stride.summand⟩

theorem intercalate_cons (between first : List Char) (rest : List (List Char)) :
    between.intercalate (first :: rest) = first ++ rest.flatMap (between ++ ·) := by
  induction rest generalizing first with
  | nil => simp
  | cons second rest ih =>
    rw [intercalate_cons_cons, ih]
    simp

theorem toList_offsetText (strides : List Stride) :
    (offsetText strides).toList = (offsetOf strides).chars := by
  cases strides with
  | nil => decide
  | cons s rest =>
    unfold offsetText offsetOf Offset.chars
    rw [String.toList_intercalate, map_cons, map_cons, intercalate_cons]
    simp [flatMap_map, Stride.toList_text]

section
variable (a b : Reference)

theorem toList_call (hf : f.toList = h.chars) :
    (Term.call f [a]).text.toList = (Phrase.apply h a.phrase).chars := by
  simp [Term.text, Phrase.chars, hf, a.toList_text]

theorem toList_callTwo (hf : f.toList = h.chars) :
    (Term.call f [a, b]).text.toList = (Phrase.pair h a.phrase b.phrase).chars := by
  simp [Term.text, Phrase.chars, hf, a.toList_text, b.toList_text]

theorem toList_between (lhs rhs : String) (hop : symbol.toList = mark op) :
    (between lhs symbol rhs).toList = lhs.toList ++ ' ' :: (mark op ++ ' ' :: rhs.toList) := by
  simp [between, hop]

theorem toList_grouped (hop : symbol.toList = mark op) :
    (Term.grouped symbol a b).text.toList = (Phrase.joined .plain op a.phrase b.phrase).chars := by
  have hplain : Head.chars .plain = [] := rfl
  simp [Term.text, Phrase.chars, toList_between _ _ hop, hplain, a.toList_text, b.toList_text]

theorem toList_converted (t : ElementType) (hop : symbol.toList = mark op) :
    (Term.converted symbol t a b).text.toList
      = (Phrase.joined (.cast t) op a.phrase b.phrase).chars := by
  rw [Term.text, toList_castText, toList_between _ _ hop, a.toList_text, b.toList_text]
  simp [Phrase.chars]

theorem toList_wrapped (carrier t : ElementType) (hop : symbol.toList = mark op) :
    (Term.wrapped symbol carrier t a b).text.toList
      = (Phrase.joined (.cast t) op (.apply (.cast carrier) a.phrase)
          (.apply (.cast carrier) b.phrase)).chars := by
  rw [Term.text, toList_castText, toList_between _ _ hop, toList_castText, toList_castText,
    a.toList_text, b.toList_text]
  simp [Phrase.chars]

end

theorem toList_precise (f : Function) (t : ElementType) :
    (precise f.name t).toList = f.chars (decide (t = .f32)) := by
  unfold precise Function.chars
  by_cases h : t = .f32 <;> simp [h]

theorem toList_symbol (h : op.symbol?.isSome) : (op.symbol?.getD "").toList = mark op := by
  rw [mark]
  cases hs : op.symbol? with
  | none =>
    rw [hs] at h
    cases h
  | some symbol => rfl

end Code

namespace Graph
open Code

def unaryPhrase (g : Graph) (op : UnaryOp) (arg : NodeId) (type : ElementType) : Phrase :=
  let a := (g.atom arg).phrase
  match op with
  | .neg =>
    if type.isFloat then .apply .minus a
    else .joined (.cast type) .sub (.apply (.cast type.carrier) (.word (.plain 0)))
      (.apply (.cast type.carrier) a)
  | .not => .apply .not (g.reference arg .bool).phrase
  | .abs =>
    if type.isFloat then .apply (.function (.unary .abs) (decide (type = .f32))) a
    else if type.isSigned then .apply (.library .abs) a
    else a
  | .floor | .ceil =>
    if type.isFloat then .apply (.function (.unary op) (decide (type = .f32))) a else a
  | .isInf | .isNan | .isFinite =>
    if (g.nodeType arg).isFloat then .apply (.library op) a else .word (.truth (op = .isFinite))
  | _ => .apply (.function (.unary op) (decide (type = .f32))) (g.reference arg type).phrase

def binaryPhrase (g : Graph) (op : BinaryOp) (lhs rhs : NodeId) (type : ElementType) : Phrase :=
  let operand := op.operandType (g.nodeType lhs) (g.nodeType rhs)
  let a := (g.reference lhs operand).phrase
  let b := (g.reference rhs operand).phrase
  match op with
  | .add | .sub | .mul =>
    if operand.isIntegral then
      .joined (.cast type) op (.apply (.cast operand.carrier) a) (.apply (.cast operand.carrier) b)
    else .joined .plain op a b
  | .div => if operand.isIntegral then .joined (.cast type) op a b else .joined .plain op a b
  | .mod =>
    if operand.isFloat then .pair (.function .remainder (decide (operand = .f32))) a b
    else .joined (.cast type) op a b
  | .min => .pair (.choice false operand) a b
  | .max => .pair (.choice true operand) a b
  | .pow => .pair (.function .power (decide (operand = .f32))) a b
  | .atan2 => .pair (.function .arctangent (decide (operand = .f32))) a b
  | _ => .joined .plain op a b

def expression (g : Graph) (node : Node) : Expression :=
  match node.op with
  | .input k indices => .load k (offsetOf (match g.inputs[k]? with
    | some type => g.offset type indices
    | none => []))
  | .constant v => .phrase (literalPhrase v node.type)
  | .position axis => .phrase (.word (.position axis))
  | .unary op arg => .phrase (g.unaryPhrase op arg node.type)
  | .binary op lhs rhs => .phrase (g.binaryPhrase op lhs rhs node.type)
  | .cast arg => .phrase (.apply (.cast node.type) (g.atom arg).phrase)
  | .read slot => .phrase (.word (.slot slot))

theorem unaryTerm_of_isTranscendental (g : Graph) {op : UnaryOp} (h : op.isTranscendental = true)
    (arg : NodeId) (type : ElementType) :
    g.unaryTerm op arg type = .call (precise (Function.unary op).name type) [g.reference arg type] := by
  cases op <;> cases h <;> rfl

theorem unaryPhrase_of_isTranscendental (g : Graph) {op : UnaryOp} (h : op.isTranscendental = true)
    (arg : NodeId) (type : ElementType) : g.unaryPhrase op arg type
      = .apply (.function (.unary op) (decide (type = .f32))) (g.reference arg type).phrase := by
  cases op <;> cases h <;> rfl

theorem toList_unaryTerm (g : Graph) (op : UnaryOp) (arg : NodeId) (type : ElementType) :
    (g.unaryTerm op arg type).text.toList = (g.unaryPhrase op arg type).chars := by
  have hatom : (Term.atom (g.atom arg)).text.toList = (g.atom arg).phrase.chars :=
    (g.atom arg).toList_text
  have hprecise (f : Function) (r : Reference) : (Term.call (precise f.name type) [r]).text.toList
      = Phrase.chars (.apply (.function f (decide (type = .f32))) r.phrase) :=
    toList_call r (toList_precise f type)
  have hlibrary (op : UnaryOp) : (Term.call ("opvec_" ++ op.name) [⟨none, g.atom arg⟩]).text.toList
      = Phrase.chars (.apply (.library op) (g.atom arg).phrase) :=
    toList_call ⟨none, g.atom arg⟩ String.toList_append
  have hclass (op : UnaryOp) (b : Bool) :
      (if (g.nodeType arg).isFloat then Term.call ("opvec_" ++ op.name) [⟨none, g.atom arg⟩]
        else .truth b).text.toList
      = (if (g.nodeType arg).isFloat then Phrase.apply (.library op) (g.atom arg).phrase
        else .word (.truth b)).chars := by
    split
    · exact hlibrary op
    · exact Word.toList_text (.truth b)
  have hround (op : UnaryOp) :
      (if type.isFloat then Term.call (precise (Function.unary op).name type) [⟨none, g.atom arg⟩]
        else .atom (g.atom arg)).text.toList
      = (if type.isFloat then Phrase.apply (.function (.unary op) (decide (type = .f32)))
          (g.atom arg).phrase else (g.atom arg).phrase).chars := by
    split
    · exact hprecise (.unary op) ⟨none, g.atom arg⟩
    · exact hatom
  by_cases h : op.isTranscendental = true
  · rw [g.unaryTerm_of_isTranscendental h, g.unaryPhrase_of_isTranscendental h]
    exact hprecise (.unary op) (g.reference arg type)
  cases op
  case neg =>
    unfold unaryTerm unaryPhrase
    dsimp only
    split
    · simp [Term.text, Phrase.chars, Atom.toList_text]
      rfl
    · have hminus : "-".toList = mark .sub := by decide
      rw [Term.text, toList_castText, toList_between _ _ hminus, toList_castText, toList_castText,
        Atom.toList_text]
      simp [Phrase.chars, Word.chars]
  case not =>
    unfold unaryTerm unaryPhrase
    rw [Term.text]
    simp [Phrase.chars, Reference.toList_text]
    rfl
  case abs =>
    unfold unaryTerm unaryPhrase
    dsimp only
    split
    · exact hprecise (.unary .abs) ⟨none, g.atom arg⟩
    · split
      · exact hlibrary .abs
      · exact hatom
  case floor => exact hround .floor
  case ceil => exact hround .ceil
  case isInf => exact hclass .isInf _
  case isNan => exact hclass .isNan _
  case isFinite => exact hclass .isFinite _
  all_goals exact absurd rfl h

theorem toList_binaryTerm (g : Graph) (op : BinaryOp) (lhs rhs : NodeId) (type : ElementType) :
    (g.binaryTerm op lhs rhs type).text.toList = (g.binaryPhrase op lhs rhs type).chars := by
  have hwrapped (op : BinaryOp) (hop : op.symbol?.isSome) (operand : ElementType) (a b : Reference) :
      (if operand.isIntegral then .wrapped (op.symbol?.getD "") operand.carrier type a b
        else .grouped (op.symbol?.getD "") a b : Term).text.toList
      = (if operand.isIntegral then Phrase.joined (.cast type) op
          (.apply (.cast operand.carrier) a.phrase) (.apply (.cast operand.carrier) b.phrase)
        else .joined .plain op a.phrase b.phrase).chars := by
    split
    · exact toList_wrapped a b _ _ (toList_symbol hop)
    · exact toList_grouped a b (toList_symbol hop)
  have hprecise (f : Function) (t : ElementType) (a b : Reference) :
      (Term.call (precise f.name t) [a, b]).text.toList
      = Phrase.chars (.pair (.function f (decide (t = .f32))) a.phrase b.phrase) :=
    toList_callTwo a b (toList_precise f t)
  cases op
  case add => exact hwrapped .add rfl _ _ _
  case sub => exact hwrapped .sub rfl _ _ _
  case mul => exact hwrapped .mul rfl _ _ _
  case div =>
    unfold binaryTerm binaryPhrase
    dsimp only
    split
    · exact toList_converted _ _ _ (by decide)
    · exact toList_grouped _ _ (by decide)
  case mod =>
    unfold binaryTerm binaryPhrase
    dsimp only
    split
    · exact hprecise .remainder _ _ _
    · exact toList_converted _ _ _ (by decide)
  case min =>
    exact toList_callTwo _ _ (by simp only [String.toList_append]; rfl)
  case max =>
    exact toList_callTwo _ _ (by simp only [String.toList_append]; rfl)
  case pow => exact hprecise .power _ _ _
  case atan2 => exact hprecise .arctangent _ _ _
  all_goals exact toList_grouped _ _ (by decide)

theorem toList_term (g : Graph) (node : Node) :
    (g.term node).text.toList = (g.expression node).chars := by
  unfold term expression
  cases node.op with
  | input k indices =>
    dsimp only
    cases g.inputs[k]? <;> simp [Term.text, Expression.chars, toList_offsetText]
  | constant v => exact toList_spelling v node.type
  | position axis => exact Word.toList_text (.position axis)
  | unary op arg => exact g.toList_unaryTerm op arg node.type
  | binary op lhs rhs => exact g.toList_binaryTerm op lhs rhs node.type
  | cast arg =>
    rw [Term.text, toList_castText, Atom.toList_text]
    rfl
  | read slot => exact Word.toList_text (.slot slot)

/-! The statements of a body. -/

def definitionStatements (g : Graph) (live : Array Bool) (e : NodeId) : List Statement :=
  match g.nodes[e]? with
  | some node =>
    if live[e]?.getD false && !node.op.isInline then [.define node.type e (g.expression node)] else []
  | none => []

mutual

def statement (g : Graph) (live : Array Bool) : Stmt → List Statement
  | .bind e => g.definitionStatements live e
  | .declare slot init =>
    let type := g.slots[slot]?.getD .bool
    [.declare type slot (g.reference init type).phrase]
  | .assign slot value => [.assign slot (g.reference value (g.slots[slot]?.getD .bool)).phrase]
  | .store output indices value =>
    match g.outputs[output]? with
    | some type =>
      [.store output (offsetOf (g.offset type indices)) (g.reference value type.element).phrase]
    | none => []
  | .cond [] => []
  | .cond (.mk guard body :: rest) =>
    [.choose ((guard.map fun e => (g.reference e .bool).phrase).getD (.word (.truth true)))
      (g.statements live body) (g.alternatives live rest)]

def statements (g : Graph) (live : Array Bool) : List Stmt → List Statement
  | [] => []
  | s :: rest => g.statement live s ++ g.statements live rest

def alternatives (g : Graph) (live : Array Bool) : List Branch → List Alternative
  | [] => []
  | .mk guard body :: rest =>
    .mk (guard.map fun e => (g.reference e .bool).phrase) (g.statements live body)
      :: g.alternatives live rest

end

end Graph

namespace Code

theorem toList_pushn (c : Char) (n : Nat) (s : String) :
    (s.pushn c n).toList = s.toList ++ replicate n c := by
  induction n with
  | zero => simp [String.pushn, Nat.repeat]
  | succ n ih =>
    change ((s.pushn c n).push c).toList = _
    rw [String.toList_push, ih, append_assoc, replicate_succ']

theorem toList_print (l : Line) : l.print.toList = indent l.depth ++ (l.text.toList ++ ['\n']) := by
  simp [Line.print, toList_pushn, indent]

theorem printLines_append (a b : List Line) : printLines (a ++ b) = printLines a ++ printLines b := by
  simp [printLines]

theorem toList_printLines_cons (l : Line) (rest : List Line) :
    (printLines (l :: rest)).toList
      = indent l.depth ++ (l.text.toList ++ '\n' :: (printLines rest).toList) := by
  change (printLines ([l] ++ rest)).toList = _
  rw [printLines_append, String.toList_append]
  simp [printLines, toList_print]

theorem blockLines_append (depth : Nat) (a b : List Command) :
    blockLines depth (a ++ b) = blockLines depth a ++ blockLines depth b := by
  induction a with
  | nil => rfl
  | cons c rest ih => simp [blockLines, ih]

theorem blockChars_append (depth : Nat) (a b : List Statement) :
    blockChars depth (a ++ b) = blockChars depth a ++ blockChars depth b := by
  induction a with
  | nil => rfl
  | cons s rest ih => simp [blockChars, ih]

theorem blockChars_choose (depth : Nat) (guard : Phrase) (body : List Statement)
    (others : List Alternative) : blockChars depth [.choose guard body others]
      = indent depth ++ (opening guard ++ (blockChars (depth + 1) body
          ++ (othersChars depth others ++ (indent depth ++ ['\x7d', '\n'])))) := by
  simp [blockChars, Statement.lead, Statement.rest, opening]

theorem toList_openingText_true (guard : Option Reference) (r : List Char) :
    (openingText true guard).toList ++ '\n' :: r
      = opening ((guard.map Reference.phrase).getD (.word (.truth true))) ++ r := by
  cases guard <;> simp [openingText, opening, Reference.toList_text, Phrase.chars, Word.chars]

theorem toList_openingText_false (guard : Option Reference) (r : List Char) :
    (openingText false guard).toList ++ '\n' :: r = '\x7d' :: ' ' :: 'e' :: 'l' :: 's' :: 'e' :: ' '
      :: (Alternative.opening (guard.map Reference.phrase) ++ r) := by
  cases guard <;> simp [openingText, opening, Alternative.opening, Reference.toList_text]

theorem toList_printLines_single {depth : Nat} {text : String} {s : Statement}
    (h : text.toList ++ ['\n'] = s.lead ++ s.rest depth) :
    (printLines [⟨depth, text⟩]).toList = blockChars depth [s] := by
  rw [toList_printLines_cons]
  simp only [blockChars, append_nil]
  rw [← h]
  rfl

end Code

namespace Graph
open Code

theorem toList_definition (g : Graph) (live : Array Bool) (depth : Nat) (e : NodeId) :
    (printLines (blockLines depth (g.definition live e))).toList
      = blockChars depth (g.definitionStatements live e) := by
  unfold definition definitionStatements
  cases g.nodes[e]? with
  | none => rfl
  | some node =>
    dsimp only
    split
    · apply toList_printLines_single
      simp [Statement.lead, Statement.rest, toList_term, assigned]
    · rfl

mutual

theorem toList_command (g : Graph) (live : Array Bool) (depth : Nat) (s : Stmt) :
    (printLines (blockLines depth (g.command live s))).toList
      = blockChars depth (g.statement live s) := by
  match s with
  | .bind e =>
    rw [command, statement]
    exact g.toList_definition live depth e
  | .declare slot init =>
    rw [command, statement]
    apply toList_printLines_single
    simp [Statement.lead, Statement.rest, Reference.toList_text, assigned]
  | .assign slot value =>
    rw [command, statement]
    apply toList_printLines_single
    simp [Statement.lead, Statement.rest, Reference.toList_text, assigned]
  | .store output indices value =>
    rw [command, statement]
    cases g.outputs[output]? with
    | none => rfl
    | some type =>
      apply toList_printLines_single
      simp [Statement.lead, Statement.rest, Reference.toList_text, toList_offsetText, assigned]
  | .cond [] => simp [command, arms, statement, blockLines, Command.lines, printLines, blockChars]
  | .cond (.mk guard body :: rest) =>
    rw [command, statement, arms, blockLines, blockLines, append_nil, Command.lines, armLines]
    · have hclose : "\x7d".toList ++ '\n' :: (printLines []).toList = ['\x7d', '\n'] := by decide
      simp only [cons_append, append_assoc, toList_printLines_cons, printLines_append,
        String.toList_append, toList_openingText_true, Option.map_map,
        g.toList_commands live (depth + 1) body, g.toList_arms live depth rest, hclose,
        blockChars_choose]
      rfl
    · exact cons_ne_nil _ _

theorem toList_commands (g : Graph) (live : Array Bool) (depth : Nat) (body : List Stmt) :
    (printLines (blockLines depth (g.commands live body))).toList
      = blockChars depth (g.statements live body) := by
  match body with
  | [] =>
    rw [commands, statements]
    rfl
  | s :: rest =>
    rw [commands, statements, blockLines_append, printLines_append, String.toList_append,
      blockChars_append, g.toList_command live depth s, g.toList_commands live depth rest]

theorem toList_arms (g : Graph) (live : Array Bool) (depth : Nat) (branches : List Branch) :
    (printLines (armLines depth false (g.arms live branches))).toList
      = othersChars depth (g.alternatives live branches) := by
  match branches with
  | [] =>
    rw [arms, alternatives]
    rfl
  | .mk guard body :: rest =>
    rw [arms, alternatives, armLines, othersChars, cons_append, toList_printLines_cons,
      toList_openingText_false, printLines_append, String.toList_append, Option.map_map,
      g.toList_commands live (depth + 1) body, g.toList_arms live depth rest]
    rfl

end

end Graph
end TensorKernel

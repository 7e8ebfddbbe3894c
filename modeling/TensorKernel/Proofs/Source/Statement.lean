import TensorKernel.Proofs.Source.Phrase

/-! Statements of generated code. Each starts with a word of its own kind, and a block ends
where no statement of its depth starts; so statements can be told from their text. -/
namespace TensorKernel.Code

open List Text

variable {r : List Char}

/-- One index of an element, and the elements it steps over unless it is one. -/
structure Summand where
  index : Phrase
  step : Option Nat

namespace Summand

def stepChars : Option Nat → List Char
  | none => []
  | some n => ' ' :: '*' :: ' ' :: (Nat.toDigits 10 n ++ ['L', 'L'])

def chars (s : Summand) : List Char := s.index.chars ++ stepChars s.step

/-- What may follow a summand. -/
def Ends (rest : List Char) : Prop := (∃ t, rest = ']' :: t) ∨ ∃ t, rest = ' ' :: '+' :: t

theorem ends_stepChars {step : Option Nat} (hr : Ends r) : Phrase.Ends (stepChars step ++ r) := by
  cases step with
  | some n => exact Phrase.ends_space
  | none =>
    rcases hr with ⟨t, rfl⟩ | ⟨t, rfl⟩
    · exact Phrase.ends_bracket
    · exact Phrase.ends_space

theorem stepChars_append_inj {a b : Option Nat} {s : List Char} (hr : Ends r) (hs : Ends s)
    (h : stepChars a ++ r = stepChars b ++ s) : a = b ∧ r = s := by
  cases a with
  | none =>
    cases b with
    | none => exact ⟨rfl, h⟩
    | some n => rcases hr with ⟨t, rfl⟩ | ⟨t, rfl⟩ <;> simp [stepChars] at h
  | some m =>
    cases b with
    | none => rcases hs with ⟨t, rfl⟩ | ⟨t, rfl⟩ <;> simp [stepChars] at h
    | some n =>
      simp only [stepChars, cons_append, append_assoc, List.cons.injEq, true_and] at h
      obtain ⟨rfl, hrest⟩ := toDigits_append_inj (stops_cons.2 rfl) (stops_cons.2 rfl) h
      simp only [nil_append, List.cons.injEq, true_and] at hrest
      exact ⟨rfl, hrest⟩

theorem append_inj {x y : Summand} {r s : List Char} (hr : Ends r) (hs : Ends s)
    (h : x.chars ++ r = y.chars ++ s) : x = y ∧ r = s := by
  rw [chars, chars, append_assoc, append_assoc] at h
  obtain ⟨hindex, hsteps⟩ := Phrase.append_inj (ends_stepChars hr) (ends_stepChars hs) h
  obtain ⟨hstep, hrest⟩ := stepChars_append_inj hr hs hsteps
  cases x
  cases y
  exact ⟨by rw [mk.injEq]; exact ⟨hindex, hstep⟩, hrest⟩

end Summand

structure Offset where
  first : Summand
  others : List Summand

namespace Offset

def chars (o : Offset) : List Char :=
  o.first.chars ++ o.others.flatMap fun s => ' ' :: '+' :: ' ' :: s.chars

theorem ends_others (others : List Summand) (r : List Char) :
    Summand.Ends ((others.flatMap fun s => ' ' :: '+' :: ' ' :: s.chars) ++ ']' :: r) := by
  cases others with
  | nil => exact .inl ⟨r, rfl⟩
  | cons s rest => exact .inr ⟨_, rfl⟩

theorem others_append_inj {a b : List Summand} {r s : List Char}
    (h : (a.flatMap fun s => ' ' :: '+' :: ' ' :: s.chars) ++ ']' :: r =
      (b.flatMap fun s => ' ' :: '+' :: ' ' :: s.chars) ++ ']' :: s) : a = b ∧ r = s := by
  induction a generalizing b with
  | nil =>
    cases b with
    | nil => exact ⟨rfl, (List.cons.inj h).2⟩
    | cons y b => cases h
  | cons x a ih =>
    cases b with
    | nil => cases h
    | cons y b =>
      simp only [flatMap_cons, cons_append, append_assoc, List.cons.injEq,
        true_and] at h
      obtain ⟨rfl, hmore⟩ := Summand.append_inj (ends_others a r) (ends_others b s) h
      obtain ⟨rfl, hrest⟩ := ih hmore
      exact ⟨rfl, hrest⟩

theorem append_inj {a b : Offset} {r s : List Char}
    (h : a.chars ++ ']' :: r = b.chars ++ ']' :: s) : a = b ∧ r = s := by
  rw [chars, chars, append_assoc, append_assoc] at h
  obtain ⟨hfirst, hmore⟩ := Summand.append_inj (ends_others _ r) (ends_others _ s) h
  obtain ⟨hothers, hrest⟩ := others_append_inj hmore
  cases a
  cases b
  exact ⟨by rw [mk.injEq]; exact ⟨hfirst, hothers⟩, hrest⟩

end Offset

inductive Expression where
  | load (k : Nat) (offset : Offset)
  | phrase (x : Phrase)

namespace Expression

def chars : Expression → List Char
  | load k offset => 'i' :: 'n' :: (Nat.toDigits 10 k ++ '[' :: (offset.chars ++ [']']))
  | phrase x => x.chars

theorem load_ne_phrase {k : Nat} {o : Offset} {x : Phrase} {s : List Char} :
    (phrase x).chars ++ ';' :: r ≠ (load k o).chars ++ s := by
  intro h
  have hword : IsWord ('i' :: 'n' :: Nat.toDigits 10 k) :=
    isWord_cons.2 ⟨rfl, isWord_cons.2 ⟨rfl, isWord_toDigits k⟩⟩
  refine Phrase.ne_word_bracket Phrase.ends_semicolon hword (s := o.chars ++ ']' :: s)
    (x := x) (r := r.cons ';') ?_
  simpa [chars] using h

theorem append_inj {x y : Expression} {r s : List Char}
    (h : x.chars ++ ';' :: r = y.chars ++ ';' :: s) : x = y ∧ r = s := by
  cases x with
  | load k o =>
    cases y with
    | load l p =>
      simp only [chars, cons_append, append_assoc, List.cons.injEq, true_and] at h
      obtain ⟨rfl, hoffset⟩ := toDigits_append_inj (stops_cons.2 rfl) (stops_cons.2 rfl) h
      obtain ⟨rfl, hrest⟩ := Offset.append_inj (List.cons.inj hoffset).2
      exact ⟨rfl, (List.cons.inj hrest).2⟩
    | phrase y => exact absurd h.symm load_ne_phrase
  | phrase x =>
    cases y with
    | load l p => exact absurd h load_ne_phrase
    | phrase y =>
      obtain ⟨rfl, hrest⟩ := Phrase.append_inj Phrase.ends_semicolon Phrase.ends_semicolon h
      exact ⟨rfl, (List.cons.inj hrest).2⟩

end Expression

mutual

inductive Statement where
  | define (type : ElementType) (node : NodeId) (value : Expression)
  | declare (type : ElementType) (slot : VarId) (value : Phrase)
  | assign (slot : VarId) (value : Phrase)
  | store (output : Nat) (offset : Offset) (value : Phrase)
  | choose (guard : Phrase) (body : List Statement) (others : List Alternative)

/-- A branch after the first; only there can a guard be missing. -/
inductive Alternative where
  | mk (guard : Option Phrase) (body : List Statement)

end

def indent (depth : Nat) : List Char := replicate (4 * depth) ' '

def assigned (value : List Char) : List Char := ' ' :: '=' :: ' ' :: (value ++ [';', '\n'])

def opening (guard : Phrase) : List Char :=
  'i' :: 'f' :: ' ' :: '(' :: (guard.chars ++ [')', ' ', '\x7b', '\n'])

def Alternative.opening : Option Phrase → List Char
  | some g => Code.opening g
  | none => ['\x7b', '\n']

namespace Statement

def lead : Statement → List Char
  | define .. => ['c', 'o', 'n', 's', 't']
  | declare type .. => type.spelling.toList
  | assign v _ => 'v' :: Nat.toDigits 10 v
  | store k .. => 'o' :: 'u' :: 't' :: Nat.toDigits 10 k
  | choose .. => ['i', 'f']

end Statement

mutual

def Statement.rest (depth : Nat) : Statement → List Char
  | .define type e x =>
    ' ' :: (type.spelling.toList ++ ' ' :: 'e' :: (Nat.toDigits 10 e ++ assigned x.chars))
  | .declare _ v x => ' ' :: 'v' :: (Nat.toDigits 10 v ++ assigned x.chars)
  | .assign _ x => assigned x.chars
  | .store _ offset x => '[' :: (offset.chars ++ ']' :: assigned x.chars)
  | .choose guard body others =>
    ' ' :: '(' :: (guard.chars ++ ')' :: ' ' :: '\x7b' :: '\n' :: (blockChars (depth + 1) body
      ++ (othersChars depth others ++ (indent depth ++ ['\x7d', '\n']))))

def blockChars (depth : Nat) : List Statement → List Char
  | [] => []
  | s :: rest => indent depth ++ (s.lead ++ (s.rest depth ++ blockChars depth rest))

def othersChars (depth : Nat) : List Alternative → List Char
  | [] => []
  | .mk guard body :: rest => indent depth ++ '\x7d' :: ' ' :: 'e' :: 'l' :: 's' :: 'e' :: ' ' ::
      (Alternative.opening guard ++ (blockChars (depth + 1) body ++ othersChars depth rest))

end

/-! Reading statements from the front. -/

theorem assigned_append (value r : List Char) :
    assigned value ++ r = ' ' :: '=' :: ' ' :: (value ++ ';' :: '\n' :: r) := by
  simp [assigned]

theorem assigned_inj {x y : Phrase} {s : List Char}
    (h : assigned x.chars ++ r = assigned y.chars ++ s) : x = y ∧ r = s := by
  simp only [assigned_append, List.cons.injEq, true_and] at h
  obtain ⟨rfl, hrest⟩ := Phrase.append_inj Phrase.ends_semicolon Phrase.ends_semicolon h
  simp only [List.cons.injEq, true_and] at hrest
  exact ⟨rfl, hrest⟩

theorem assigned_expression_inj {x y : Expression} {s : List Char}
    (h : assigned x.chars ++ r = assigned y.chars ++ s) : x = y ∧ r = s := by
  simp only [assigned_append, List.cons.injEq, true_and] at h
  obtain ⟨rfl, hrest⟩ := Expression.append_inj h
  exact ⟨rfl, (List.cons.inj hrest).2⟩

theorem toDigits_assigned_inj {m n : Nat} {x y s : List Char}
    (h : Nat.toDigits 10 m ++ (assigned x ++ r) = Nat.toDigits 10 n ++ (assigned y ++ s)) :
    m = n ∧ assigned x ++ r = assigned y ++ s := by
  rw [assigned_append, assigned_append] at h ⊢
  exact toDigits_append_inj (stops_cons.2 rfl) (stops_cons.2 rfl) h

theorem opening_inj {g k : Phrase} {r s : List Char}
    (h : g.chars ++ ')' :: ' ' :: '\x7b' :: '\n' :: r = k.chars ++ ')' :: ' ' :: '\x7b' :: '\n' :: s) :
    g = k ∧ r = s := by
  obtain ⟨rfl, hrest⟩ := Phrase.append_inj Phrase.ends_close Phrase.ends_close h
  simp only [List.cons.injEq, true_and] at hrest
  exact ⟨rfl, hrest⟩

theorem Alternative.opening_append_inj {g k : Option Phrase} {r s : List Char}
    (h : opening g ++ r = opening k ++ s) : g = k ∧ r = s := by
  cases g with
  | none =>
    cases k with
    | none => exact ⟨rfl, by simpa [opening] using h⟩
    | some k => simp [opening, Code.opening] at h
  | some g =>
    cases k with
    | none => simp [opening, Code.opening] at h
    | some k =>
      simp only [opening, Code.opening, cons_append, append_assoc, nil_append,
        List.cons.injEq, true_and] at h
      obtain ⟨rfl, hrest⟩ := opening_inj h
      exact ⟨rfl, hrest⟩

namespace Statement

def kind : Statement → Nat
  | define .. => 0
  | declare .. => 1
  | assign .. => 2
  | store .. => 3
  | choose .. => 4

def kindOf : List Char → Nat
  | 'c' :: _ => 0
  | 'v' :: _ => 2
  | 'o' :: _ => 3
  | 'i' :: 'f' :: _ => 4
  | _ => 1

theorem kindOf_lead (s : Statement) : kindOf s.lead = s.kind := by
  cases s with
  | declare type =>
    exact show kindOf type.spelling.toList = 1 by cases type <;> decide
  | _ => rfl

theorem isWord_lead (s : Statement) : IsWord s.lead := by
  cases s with
  | define => exact show IsWord ['c', 'o', 'n', 's', 't'] by decide
  | declare type => exact isWord_spelling type
  | assign v => exact isWord_cons.2 ⟨rfl, isWord_toDigits v⟩
  | store k => exact isWord_append.2 ⟨show IsWord ['o', 'u', 't'] by decide, isWord_toDigits k⟩
  | choose => exact show IsWord ['i', 'f'] by decide

theorem stops_rest (s : Statement) (depth : Nat) (r : List Char) :
    Text.Stops isWordChar (s.rest depth ++ r) := by
  cases s <;> exact stops_cons.2 rfl

theorem lead_append_inj {x y : Statement} {depth : Nat} {s : List Char}
    (h : x.lead ++ (x.rest depth ++ r) = y.lead ++ (y.rest depth ++ s)) :
    x.lead = y.lead ∧ x.rest depth ++ r = y.rest depth ++ s :=
  append_inj_of_stops x.isWord_lead y.isWord_lead (x.stops_rest depth r)
    (y.stops_rest depth s) h

end Statement

/-- No statement of this depth starts here. -/
def Ends (depth : Nat) (rest : List Char) : Prop :=
  ∀ (s : Statement) (t : List Char), rest ≠ indent depth ++ (s.lead ++ t)

theorem indent_succ (depth : Nat) : indent (depth + 1) = indent depth ++ [' ', ' ', ' ', ' '] := by
  rw [indent, Nat.mul_succ, replicate_add]
  rfl

theorem ends_closing (depth : Nat) (t : List Char) : Ends (depth + 1) (indent depth ++ '\x7d' :: t) := by
  intro s u h
  rw [indent_succ, append_assoc] at h
  cases append_cancel_left h

theorem ends_others (depth : Nat) (others : List Alternative) (t : List Char) :
    Ends (depth + 1) (othersChars depth others ++ (indent depth ++ '\x7d' :: t)) := by
  cases others with
  | nil => exact ends_closing depth t
  | cons a rest =>
    obtain ⟨guard, body⟩ := a
    rw [othersChars, append_assoc]
    exact ends_closing depth _

mutual

theorem Statement.append_inj {depth : Nat} {x y : Statement} {r s : List Char}
    (h : x.lead ++ (x.rest depth ++ r) = y.lead ++ (y.rest depth ++ s)) : x = y ∧ r = s := by
  obtain ⟨hlead, hrest⟩ := Statement.lead_append_inj h
  have hkind := congrArg Statement.kindOf hlead
  rw [x.kindOf_lead, y.kindOf_lead] at hkind
  cases x <;> cases y <;> cases hkind
  case define.define t e x u f y =>
    simp only [Statement.rest, cons_append, append_assoc, List.cons.injEq, true_and] at hrest
    obtain ⟨htype, hname⟩ := append_inj_of_stops (isWord_spelling t) (isWord_spelling u)
      (stops_cons.2 rfl) (stops_cons.2 rfl) hrest
    simp only [List.cons.injEq, true_and] at hname
    obtain ⟨rfl, hvalue⟩ := toDigits_assigned_inj hname
    obtain ⟨rfl, rfl⟩ := assigned_expression_inj hvalue
    rw [ElementType.spelling_inj (String.toList_inj.1 htype)]
    exact ⟨rfl, rfl⟩
  case declare.declare t v x u w y =>
    simp only [Statement.rest, cons_append, append_assoc, List.cons.injEq, true_and] at hrest
    obtain ⟨rfl, hvalue⟩ := toDigits_assigned_inj hrest
    obtain ⟨rfl, rfl⟩ := assigned_inj hvalue
    rw [ElementType.spelling_inj (String.toList_inj.1 hlead)]
    exact ⟨rfl, rfl⟩
  case assign.assign v x w y =>
    rw [Statement.rest, Statement.rest] at hrest
    obtain ⟨rfl, rfl⟩ := assigned_inj hrest
    rw [toDigits_inj (List.cons.inj hlead).2]
    exact ⟨rfl, rfl⟩
  case store.store k o x l p y =>
    simp only [Statement.rest, cons_append, append_assoc, List.cons.injEq, true_and] at hrest
    simp only [Statement.lead, List.cons.injEq, true_and] at hlead
    obtain ⟨rfl, hvalue⟩ := Offset.append_inj hrest
    obtain ⟨rfl, rfl⟩ := assigned_inj hvalue
    rw [toDigits_inj hlead]
    exact ⟨rfl, rfl⟩
  case choose.choose g a as k b bs =>
    simp only [Statement.rest, cons_append, append_assoc, List.cons.injEq, true_and] at hrest
    obtain ⟨rfl, hbody⟩ := opening_inj hrest
    obtain ⟨rfl, hothers⟩ := blockChars_append_inj (ends_others depth as _) (ends_others depth bs _) hbody
    obtain ⟨rfl, hmore⟩ := othersChars_append_inj hothers
    exact ⟨rfl, hmore⟩

/-- Blocks are read in one way. -/
theorem blockChars_append_inj {depth : Nat} {xs ys : List Statement} {r s : List Char}
    (hr : Ends depth r) (hs : Ends depth s) (h : blockChars depth xs ++ r = blockChars depth ys ++ s) :
    xs = ys ∧ r = s := by
  match xs, ys with
  | [], [] => exact ⟨rfl, h⟩
  | [], y :: ys =>
    simp only [blockChars, append_assoc, nil_append] at h
    exact absurd h (hr y _)
  | x :: xs, [] =>
    simp only [blockChars, append_assoc, nil_append] at h
    exact absurd h.symm (hs x _)
  | x :: xs, y :: ys =>
    simp only [blockChars, append_assoc] at h
    obtain ⟨rfl, hrest⟩ := Statement.append_inj (append_cancel_left h)
    obtain ⟨rfl, hmore⟩ := blockChars_append_inj hr hs hrest
    exact ⟨rfl, hmore⟩

theorem othersChars_append_inj {depth : Nat} {as bs : List Alternative} {r s : List Char}
    (h : othersChars depth as ++ (indent depth ++ '\x7d' :: '\n' :: r)
      = othersChars depth bs ++ (indent depth ++ '\x7d' :: '\n' :: s)) : as = bs ∧ r = s := by
  match as, bs with
  | [], [] =>
    simp only [othersChars, nil_append] at h
    cases append_cancel_left h
    exact ⟨rfl, rfl⟩
  | [], .mk k b :: bs =>
    simp only [othersChars, append_assoc, nil_append] at h
    cases append_cancel_left h
  | .mk g a :: as, [] =>
    simp only [othersChars, append_assoc, nil_append] at h
    cases append_cancel_left h
  | .mk g a :: as, .mk k b :: bs =>
    simp only [othersChars, append_assoc, cons_append] at h
    have hopening := append_cancel_left h
    simp only [List.cons.injEq, true_and] at hopening
    obtain ⟨rfl, hbody⟩ := Alternative.opening_append_inj hopening
    obtain ⟨rfl, hothers⟩ := blockChars_append_inj (ends_others depth as _) (ends_others depth bs _) hbody
    obtain ⟨rfl, hmore⟩ := othersChars_append_inj hothers
    exact ⟨rfl, hmore⟩

end

end TensorKernel.Code

import Mathlib.Data.List.ProdSigma
import TensorKernel.Code.Term
import TensorKernel.Proofs.Number.Text

/-! The words of generated code: names and numbers, and what may stand in front of brackets.
Every word can be told from its text, which ends at the first delimiter. -/
namespace TensorKernel

open List Text

variable {cs : List Char} {c : Char}

theorem ElementType.spelling_inj {t u : ElementType} (h : t.spelling = u.spelling) : t = u := by
  have hnodup : (all.map spelling).Nodup := by decide +kernel
  exact inj_on_of_nodup_map hnodup (mem_all t) (mem_all u) h

theorem UnaryOp.mem_all (op : UnaryOp) : op ∈ all := by cases op <;> decide

theorem UnaryOp.name_inj {a b : UnaryOp} (h : a.name = b.name) : a = b := by
  have hnodup : (all.map name).Nodup := by decide +kernel
  exact inj_on_of_nodup_map hnodup (mem_all a) (mem_all b) h

namespace Code

def delimiters : List Char := [' ', ',', ';', '(', ')', '[', ']', '\x7b', '\x7d', '\n']

def isWordChar (c : Char) : Bool := !delimiters.contains c

/-- No delimiter occurs in the text. -/
def IsWord (cs : List Char) : Prop := ∀ c ∈ cs, isWordChar c = true

instance (cs : List Char) : Decidable (IsWord cs) := decidableBAll _ cs

theorem isWord_append {a b : List Char} : IsWord (a ++ b) ↔ IsWord a ∧ IsWord b :=
  forall_mem_append

theorem isWord_cons : IsWord (c :: cs) ↔ isWordChar c = true ∧ IsWord cs :=
  forall_mem_cons

theorem isWordChar_of_not_mem (h : c ∉ delimiters) : isWordChar c = true := by
  simp [isWordChar, h]

theorem isWord_of_isChar (h : ∀ c ∈ cs, Decimal.isChar c = true) : IsWord cs := by
  intro c hc
  apply isWordChar_of_not_mem
  intro hm
  have hnone : delimiters.all (fun d => !Decimal.isChar d) = true := by decide
  have hchar := all_eq_true.1 hnone c hm
  rw [h c hc] at hchar
  cases hchar

theorem isWord_toDigits (n : Nat) : IsWord (Nat.toDigits 10 n) := by
  apply isWord_of_isChar
  intro c hc
  simp [Decimal.isChar, isDigit_of_mem_toDigits hc]

theorem isWord_toString_int (z : Int) : IsWord (toString z).toList := by
  rw [toList_toString_int]
  split
  · exact isWord_cons.2 ⟨rfl, isWord_toDigits _⟩
  · exact isWord_toDigits _

theorem isWord_spelling (t : ElementType) : IsWord t.spelling.toList := by cases t <;> decide

theorem isWord_binaryText (f : BinaryFormat) (x : Binary) : IsWord (x.text f).toList := by
  rw [Binary.toList_text, isWord_append]
  constructor
  · split <;> decide
  · cases x with
    | nan => exact show IsWord "NaN".toList by decide
    | infinite negative => exact show IsWord "inf".toList by decide
    | finite negative m q => exact isWord_of_isChar fun c hc => Decimal.isChar_of_mem_text hc

inductive Word where
  | node (e : NodeId)
  | position (axis : Nat)
  | slot (v : VarId)
  | plain (n : Nat)
  | signed (z : Int)
  | unsigned (n : Nat)
  | single (x : Float32)
  | double (x : Float) (finite : ∃ s m q, decodeDouble x = .finite s m q)
  | truth (b : Bool)
  | nan
  | infinity

namespace Word

def text : Word → String
  | node e => "e" ++ toString e
  | position axis => "p" ++ toString axis
  | slot v => "v" ++ toString v
  | plain n => toString n
  | signed z => toString z ++ "LL"
  | unsigned n => toString n ++ "ULL"
  | single x => singleText x ++ "f"
  | double x _ => doubleText x
  | truth b => toString b
  | nan => "NAN"
  | infinity => "INFINITY"

def chars : Word → List Char
  | node e => 'e' :: Nat.toDigits 10 e
  | position axis => 'p' :: Nat.toDigits 10 axis
  | slot v => 'v' :: Nat.toDigits 10 v
  | plain n => Nat.toDigits 10 n
  | signed z => (toString z).toList ++ ['L', 'L']
  | unsigned n => Nat.toDigits 10 n ++ ['U', 'L', 'L']
  | single x => (singleText x).toList ++ ['f']
  | double x _ => (doubleText x).toList
  | truth true => ['t', 'r', 'u', 'e']
  | truth false => ['f', 'a', 'l', 's', 'e']
  | nan => ['N', 'A', 'N']
  | infinity => ['I', 'N', 'F', 'I', 'N', 'I', 'T', 'Y']

theorem toList_text (w : Word) : w.text.toList = w.chars := by
  cases w with
  | truth b => cases b <;> decide
  | _ => simp [text, chars]

theorem isWord_chars (w : Word) : IsWord w.chars := by
  cases w with
  | node e => exact isWord_cons.2 ⟨rfl, isWord_toDigits e⟩
  | position axis => exact isWord_cons.2 ⟨rfl, isWord_toDigits axis⟩
  | slot v => exact isWord_cons.2 ⟨rfl, isWord_toDigits v⟩
  | plain n => exact isWord_toDigits n
  | signed z => exact isWord_append.2 ⟨isWord_toString_int z, by decide⟩
  | unsigned n => exact isWord_append.2 ⟨isWord_toDigits n, by decide⟩
  | single x => exact isWord_append.2 ⟨isWord_binaryText _ _, by decide⟩
  | double x _ => exact isWord_binaryText _ _
  | truth b => cases b <;> decide
  | nan => decide
  | infinity => decide

def kind : Word → Nat
  | node _ => 0
  | position _ => 1
  | slot _ => 2
  | plain _ => 3
  | double _ _ => 4
  | signed _ => 5
  | unsigned _ => 6
  | single _ => 7
  | truth _ => 8
  | nan => 9
  | infinity => 10

/-- The kind of word that a text is: the last character tells most of them. -/
def kindOf (cs : List Char) : Nat :=
  if cs.getLast?.any Char.isDigit then
    if cs.head? = some 'e' then 0
    else if cs.head? = some 'p' then 1
    else if cs.head? = some 'v' then 2
    else if cs.contains '.' || cs.contains 'e' then 4
    else 3
  else if cs.getLast? = some 'L' then if cs.contains 'U' then 6 else 5
  else if cs.getLast? = some 'f' then 7
  else if cs.getLast? = some 'e' then 8
  else if cs.getLast? = some 'N' then 9
  else 10

theorem any_isDigit_getLast? (above : List Char) (n : Nat) :
    (above ++ Nat.toDigits 10 n).getLast?.any Char.isDigit = true := by
  have hne : Nat.toDigits 10 n ≠ [] := Nat.toDigits_ne_nil
  rw [getLast?_append_of_ne_nil _ hne, getLast?_eq_some_getLast hne]
  exact isDigit_of_mem_toDigits (getLast_mem hne)

theorem kindOf_chars (w : Word) : kindOf w.chars = w.kind := by
  cases w with
  | node e =>
    have hlast := any_isDigit_getLast? ['e'] e
    exact if_pos hlast
  | position axis =>
    have hlast := any_isDigit_getLast? ['p'] axis
    exact if_pos hlast
  | slot v =>
    have hlast := any_isDigit_getLast? ['v'] v
    exact if_pos hlast
  | plain n =>
    have hlast := any_isDigit_getLast? [] n
    have hhead {c : Char} (hc : c.isDigit = false) : (Nat.toDigits 10 n).head? ≠ some c :=
      fun h => not_mem_toDigits hc n (mem_of_head? h)
    rw [nil_append] at hlast
    rw [chars, kindOf, if_pos hlast, if_neg (hhead rfl), if_neg (hhead rfl), if_neg (hhead rfl)]
    simp [kind, not_mem_toDigits]
  | signed z =>
    have hno : 'U' ∉ z.repr.toList := by
      change 'U' ∉ (toString z).toList
      rw [toList_toString_int]
      split <;> simp [not_mem_toDigits]
    simp [chars, kindOf, kind, hno]
  | unsigned n => simp [chars, kindOf, kind]
  | single x => simp [chars, kindOf, kind]
  | double x finite =>
    obtain ⟨s, m, q, hx⟩ := finite
    have htext : (doubleText x).toList
        = (if s then ['-'] else []) ++ (Binary.decimal .double m q).text.toList := by
      rw [doubleText, Binary.toList_text, hx]
      rfl
    obtain ⟨last, hlast, hlastDigit⟩ := (Binary.decimal .double m q).isDigit_getLast
    obtain ⟨first, hfirst, hfirstDigit⟩ := (Binary.decimal .double m q).isDigit_head
    have hmark := (Binary.decimal .double m q).exists_mark
    have hne : (Binary.decimal .double m q).text.toList ≠ [] := by
      intro h
      rw [h] at hlast
      cases hlast
    have hdigit : (doubleText x).toList.getLast?.any Char.isDigit = true := by
      rw [htext, getLast?_append_of_ne_nil _ hne, hlast]
      exact hlastDigit
    have hhead {c : Char} (hc : c.isDigit = false) (hm : c ≠ '-') :
        (doubleText x).toList.head? ≠ some c := by
      rw [htext]
      intro h
      split at h
      · exact hm (Option.some.inj h).symm
      · rw [nil_append, hfirst] at h
        rw [Option.some.inj h, hc] at hfirstDigit
        cases hfirstDigit
    rw [chars, kindOf, if_pos hdigit, if_neg (hhead rfl (by decide)), if_neg (hhead rfl (by decide)),
      if_neg (hhead rfl (by decide)), htext, if_pos]
    · rfl
    · simp only [Bool.or_eq_true, contains_iff_mem, mem_append]
      exact hmark.imp .inr .inr
  | truth b => cases b <;> decide
  | nan => decide
  | infinity => decide

theorem chars_inj {w v : Word} (h : w.chars = v.chars) : w = v := by
  have hkind := congrArg kindOf h
  rw [kindOf_chars, kindOf_chars] at hkind
  cases w <;> cases v <;> cases hkind
  case node.node => rw [toDigits_inj (cons.inj h).2]
  case position.position => rw [toDigits_inj (cons.inj h).2]
  case slot.slot => rw [toDigits_inj (cons.inj h).2]
  case plain.plain => rw [toDigits_inj h]
  case signed.signed => rw [toList_toString_int_inj (append_cancel_right h)]
  case unsigned.unsigned => rw [toDigits_inj (append_cancel_right h)]
  case single.single =>
    rw [singleText_inj (String.toList_inj.1 (append_cancel_right h))]
  case double.double x _ y _ =>
    obtain rfl : x = y := doubleText_inj (String.toList_inj.1 h)
    rfl
  case truth.truth b c => cases b <;> cases c <;> simp_all [chars]
  case nan.nan => rfl
  case infinity.infinity => rfl

end Word

inductive Function where
  | unary (op : UnaryOp)
  | remainder
  | power
  | arctangent

namespace Function

def all : List Function := UnaryOp.all.map unary ++ [remainder, power, arctangent]

theorem mem_all (f : Function) : f ∈ all := by
  cases f with
  | unary op => exact mem_append_left _ (mem_map_of_mem op.mem_all)
  | _ => simp [all]

def name : Function → String
  | unary .abs => "fabs"
  | unary op => op.name
  | remainder => "fmod"
  | power => "pow"
  | arctangent => "atan2"

/-- The name in double or in single precision. -/
def chars (f : Function) (single : Bool) : List Char :=
  f.name.toList ++ if single then ['f'] else []

theorem chars_inj {f g : Function} {a b : Bool} (h : f.chars a = g.chars b) : f = g ∧ a = b := by
  have hnodup : ((all ×ˢ [false, true]).map fun (f, a) => f.chars a).Nodup := by decide +kernel
  have hmem (f : Function) (a : Bool) : (f, a) ∈ all ×ˢ [false, true] :=
    mem_product.2 ⟨f.mem_all, by cases a <;> simp⟩
  exact Prod.mk.inj (inj_on_of_nodup_map hnodup (hmem f a) (hmem g b) h)

end Function

inductive Head where
  | plain
  | minus
  | not
  | cast (t : ElementType)
  | minusCast (t : ElementType)
  | function (f : Function) (single : Bool)
  | library (op : UnaryOp)
  | choice (greatest : Bool) (t : ElementType)

namespace Head

def chars : Head → List Char
  | plain => []
  | minus => ['-']
  | not => ['!']
  | cast t => "static_cast<".toList ++ t.spelling.toList ++ ['>']
  | minusCast t => '-' :: "static_cast<".toList ++ t.spelling.toList ++ ['>']
  | function f single => f.chars single
  | library op => "opvec_".toList ++ op.name.toList
  | choice greatest t =>
    (if greatest then "opvec_max<" else "opvec_min<").toList ++ t.spelling.toList ++ ['>']

def kind : Head → Nat
  | plain => 0
  | minus => 1
  | minusCast _ => 2
  | not => 3
  | cast _ => 4
  | choice _ _ => 5
  | library _ => 6
  | function _ _ => 7

def kindOf (cs : List Char) : Nat :=
  match cs with
  | [] => 0
  | ['-'] => 1
  | '-' :: _ => 2
  | '!' :: _ => 3
  | 's' :: 't' :: _ => 4
  | 'o' :: _ => if cs.contains '<' then 5 else 6
  | _ => 7

theorem kindOf_chars (h : Head) : kindOf h.chars = h.kind := by
  have htypes : ∀ t ∈ ElementType.all, kindOf (chars (.cast t)) = 4 ∧
      kindOf (chars (.minusCast t)) = 2 ∧ ∀ a, kindOf (chars (.choice a t)) = 5 := by
    decide +kernel
  cases h with
  | plain => rfl
  | minus => rfl
  | not => rfl
  | cast t => exact (htypes t t.mem_all).1
  | minusCast t => exact (htypes t t.mem_all).2.1
  | choice greatest t => exact (htypes t t.mem_all).2.2 greatest
  | library op =>
    have hall : ∀ op ∈ UnaryOp.all, kindOf (chars (.library op)) = 6 := by decide +kernel
    exact hall op op.mem_all
  | function f single =>
    have hall : ∀ f ∈ Function.all, ∀ a, kindOf (f.chars a) = 7 := by decide +kernel
    exact hall f f.mem_all single

theorem isWord_chars (h : Head) : IsWord h.chars := by
  cases h with
  | plain => decide
  | minus => decide
  | not => decide
  | cast t => exact isWord_append.2 ⟨isWord_append.2 ⟨by decide, isWord_spelling t⟩, by decide⟩
  | minusCast t => exact isWord_append.2 ⟨isWord_append.2 ⟨by decide, isWord_spelling t⟩, by decide⟩
  | choice greatest t =>
    exact isWord_append.2 ⟨isWord_append.2 ⟨by cases greatest <;> decide, isWord_spelling t⟩, by decide⟩
  | library op =>
    have hall : ∀ op ∈ UnaryOp.all, IsWord (chars (.library op)) := by decide +kernel
    exact hall op op.mem_all
  | function f single =>
    have hall : ∀ f ∈ Function.all, ∀ a, IsWord (f.chars a) := by decide +kernel
    exact hall f f.mem_all single

theorem chars_inj {h k : Head} (he : h.chars = k.chars) : h = k := by
  have hkind := congrArg kindOf he
  rw [kindOf_chars, kindOf_chars] at hkind
  cases h <;> cases k <;> cases hkind
  case plain.plain => rfl
  case minus.minus => rfl
  case not.not => rfl
  case cast.cast =>
    have hspelling := append_cancel_left (append_cancel_right he)
    rw [ElementType.spelling_inj (String.toList_inj.1 hspelling)]
  case minusCast.minusCast =>
    have hspelling := append_cancel_left (append_cancel_right he)
    rw [ElementType.spelling_inj (String.toList_inj.1 hspelling)]
  case choice.choice a t b u =>
    obtain ⟨hfront, hspelling⟩ := append_inj (append_cancel_right he)
      (by cases a <;> cases b <;> decide)
    obtain rfl : a = b := by revert hfront; cases a <;> cases b <;> simp
    rw [ElementType.spelling_inj (String.toList_inj.1 hspelling)]
  case library.library =>
    rw [UnaryOp.name_inj (String.toList_inj.1 (append_cancel_left he))]
  case function.function =>
    obtain ⟨rfl, rfl⟩ := Function.chars_inj he
    rfl

end Head

end Code
end TensorKernel

import TensorKernel.Proofs.Source.Word

/-! Expressions of generated code, as trees of words, brackets and operations. A tree can be
told from its text, and so can what follows it. -/
namespace TensorKernel

open Text

theorem BinaryOp.mem_all (op : BinaryOp) : op ∈ all := by cases op <;> decide

namespace Code

def mark (op : BinaryOp) : List Char := (op.symbol?.getD op.name).toList

theorem mark_inj {a b : BinaryOp} (h : mark a = mark b) : a = b := by
  have hnodup : (BinaryOp.all.map mark).Nodup := by decide +kernel
  exact List.inj_on_of_nodup_map hnodup a.mem_all b.mem_all h

theorem isWord_mark (op : BinaryOp) : IsWord (mark op) := by
  have hall : ∀ op ∈ BinaryOp.all, IsWord (mark op) := by decide +kernel
  exact hall op op.mem_all

inductive Phrase where
  | word (w : Word)
  /-- One phrase in brackets. -/
  | apply (h : Head) (x : Phrase)
  /-- Two phrases in brackets, with a comma between them. -/
  | pair (h : Head) (x y : Phrase)
  /-- Two phrases in brackets, with an operation between them. -/
  | joined (h : Head) (op : BinaryOp) (x y : Phrase)

namespace Phrase

def chars : Phrase → List Char
  | word w => w.chars
  | apply h x => h.chars ++ '(' :: (x.chars ++ [')'])
  | pair h x y => h.chars ++ '(' :: (x.chars ++ ',' :: ' ' :: (y.chars ++ [')']))
  | joined h op x y => h.chars ++ '(' :: (x.chars ++ ' ' :: (mark op ++ ' ' :: (y.chars ++ [')'])))

/-- What may follow a phrase: a delimiter that opens no bracket. -/
def Ends (rest : List Char) : Prop :=
  ∀ c ∈ rest.head?, isWordChar c = false ∧ c ≠ '(' ∧ c ≠ '['

theorem Ends.stops {rest : List Char} (h : Ends rest) : Text.Stops isWordChar rest :=
  fun c hc => (h c hc).1

theorem ends_cons {c : Char} {rest : List Char} :
    Ends (c :: rest) ↔ isWordChar c = false ∧ c ≠ '(' ∧ c ≠ '[' := by
  simp [Ends]

theorem ends_close {rest : List Char} : Ends (')' :: rest) := ends_cons.2 (by decide)

theorem ends_comma {rest : List Char} : Ends (',' :: rest) := ends_cons.2 (by decide)

theorem ends_space {rest : List Char} : Ends (' ' :: rest) := ends_cons.2 (by decide)

theorem ends_semicolon {rest : List Char} : Ends (';' :: rest) := ends_cons.2 (by decide)

theorem ends_bracket {rest : List Char} : Ends (']' :: rest) := ends_cons.2 (by decide)

theorem word_ne_head {w : Word} {h : Head} {r s : List Char} (hr : Ends r) :
    w.chars ++ r ≠ h.chars ++ '(' :: s := by
  intro he
  obtain ⟨-, rfl⟩ := append_inj_of_stops w.isWord_chars h.isWord_chars hr.stops
    (stops_cons.2 rfl) he
  exact (ends_cons.1 hr).2.1 rfl

theorem head_inj {h k : Head} {r s : List Char} (he : h.chars ++ '(' :: r = k.chars ++ '(' :: s) :
    h = k ∧ r = s := by
  obtain ⟨hheads, hrest⟩ := append_inj_of_stops h.isWord_chars k.isWord_chars
    (stops_cons.2 rfl) (stops_cons.2 rfl) he
  exact ⟨Head.chars_inj hheads, (List.cons.inj hrest).2⟩

theorem mark_append_inj {a b : BinaryOp} {r s : List Char}
    (h : mark a ++ ' ' :: r = mark b ++ ' ' :: s) : a = b ∧ r = s := by
  obtain ⟨hmarks, hrest⟩ := append_inj_of_stops (isWord_mark a) (isWord_mark b)
    (stops_cons.2 rfl) (stops_cons.2 rfl) h
  exact ⟨mark_inj hmarks, (List.cons.inj hrest).2⟩

theorem ne_word_bracket {x : Phrase} {r w s : List Char} (hr : Ends r) (hw : IsWord w) :
    x.chars ++ r ≠ w ++ '[' :: s := by
  have hstop : Text.Stops isWordChar ('[' :: s) := stops_cons.2 rfl
  have hhead (h : Head) (t : List Char) : h.chars ++ '(' :: t ≠ w ++ '[' :: s := by
    intro he
    cases (append_inj_of_stops h.isWord_chars hw (stops_cons.2 rfl) hstop he).2
  intro he
  cases x with
  | word v =>
    obtain ⟨-, rfl⟩ := append_inj_of_stops v.isWord_chars hw hr.stops hstop he
    exact (ends_cons.1 hr).2.2 rfl
  | apply h x => exact hhead h _ (by simpa [chars] using he)
  | pair h x y => exact hhead h _ (by simpa [chars] using he)
  | joined h op x y => exact hhead h _ (by simpa [chars] using he)

/-- Phrases are read in one way. -/
theorem append_inj {x y : Phrase} {r s : List Char} (hr : Ends r) (hs : Ends s)
    (h : x.chars ++ r = y.chars ++ s) : x = y ∧ r = s := by
  induction x generalizing y r s <;> cases y <;>
    simp only [chars, List.append_assoc, List.cons_append, List.nil_append] at h
  case word.word w v =>
    obtain ⟨hw, hrest⟩ := append_inj_of_stops w.isWord_chars v.isWord_chars hr.stops hs.stops h
    rw [Word.chars_inj hw]
    exact ⟨rfl, hrest⟩
  case word.apply => exact absurd h (word_ne_head hr)
  case word.pair => exact absurd h (word_ne_head hr)
  case word.joined => exact absurd h (word_ne_head hr)
  case apply.word => exact absurd h.symm (word_ne_head hs)
  case pair.word => exact absurd h.symm (word_ne_head hs)
  case joined.word => exact absurd h.symm (word_ne_head hs)
  -- After the first phrase a closing bracket, a comma or a space tells the cases apart.
  case apply.pair ih _ _ _ => cases (ih ends_close ends_comma (head_inj h).2).2
  case apply.joined ih _ _ _ _ => cases (ih ends_close ends_space (head_inj h).2).2
  case pair.apply ih _ _ _ => cases (ih ends_comma ends_close (head_inj h).2).2
  case pair.joined ih _ _ _ _ _ => cases (ih ends_comma ends_space (head_inj h).2).2
  case joined.apply ih _ _ _ => cases (ih ends_space ends_close (head_inj h).2).2
  case joined.pair ih _ _ _ _ => cases (ih ends_space ends_comma (head_inj h).2).2
  case apply.apply ih _ _ =>
    obtain ⟨hk, hx⟩ := head_inj h
    obtain ⟨rfl, hrest⟩ := ih ends_close ends_close hx
    exact ⟨by rw [hk], (List.cons.inj hrest).2⟩
  case pair.pair ihx ihy _ _ _ =>
    obtain ⟨hk, hx⟩ := head_inj h
    obtain ⟨rfl, hy⟩ := ihx ends_comma ends_comma hx
    obtain ⟨rfl, hrest⟩ := ihy ends_close ends_close (List.cons.inj (List.cons.inj hy).2).2
    exact ⟨by rw [hk], (List.cons.inj hrest).2⟩
  case joined.joined ihx ihy _ _ _ _ =>
    obtain ⟨hk, hx⟩ := head_inj h
    obtain ⟨rfl, hop⟩ := ihx ends_space ends_space hx
    obtain ⟨rfl, hy⟩ := mark_append_inj (List.cons.inj hop).2
    obtain ⟨rfl, hrest⟩ := ihy ends_close ends_close hy
    exact ⟨by rw [hk], (List.cons.inj hrest).2⟩

end Phrase

end Code
end TensorKernel

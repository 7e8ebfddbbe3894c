import Mathlib.Data.Option.Basic
import TensorKernel.Proofs.Direct.Basic

/-! Reading a script among things that it does not know. A world may have variables, chains and
outputs that no register names; then all that comes later has greater numbers, and the script
reads as it does without them. -/
namespace TensorKernel

open List
open Option (bind_congr bind_eq_bind bind_eq_some_iff bind_map map_bind)

variable {active : Bool} {x : Scalar} {w' w : World} {m : Option Meaning}

/-- What stands at one place of a list in front of all that comes later. -/
structure Insertion (α : Type) where
  place : Nat
  items : List α

namespace Insertion

variable {α : Type} (I : Insertion α)

def shift (i : Nat) : Nat := if i < I.place then i else i + I.items.length

def into (l : List α) : List α := l.take I.place ++ I.items ++ l.drop I.place

variable {I}

theorem shift_of_lt {i : Nat} (h : i < I.place) : I.shift i = i := if_pos h

theorem shift_of_nil (h : I.items = []) (i : Nat) : I.shift i = i := by
  simp [shift, h]

theorem into_of_nil (h : I.items = []) (l : List α) : I.into l = l := by
  simp [into, h]

theorem into_of_length {l : List α} (h : l.length = I.place) : I.into l = l ++ I.items := by
  simp [into, ← h]

theorem shift_ne {i j : Nat} (h : j < I.items.length) : I.shift i ≠ I.place + j := by
  unfold shift
  split <;> omega

section
variable {l : List α} (h : I.place ≤ l.length)
include h

theorem length_into : (I.into l).length = I.shift l.length := by
  simp only [into, shift, length_append, length_take, length_drop]
  split <;> omega

theorem length_into_eq : (I.into l).length = l.length + I.items.length := by
  rw [length_into h, shift, if_neg (Nat.not_lt.2 h)]

theorem into_append (more : List α) : I.into (l ++ more) = I.into l ++ more := by
  simp only [into, take_append_of_le_length h, drop_append_of_le_length h,
    append_assoc]

theorem getElem?_into (i : Nat) : (I.into l)[I.shift i]? = l[i]? := by
  have hlen : (l.take I.place).length = I.place := by simp [h]
  unfold into shift
  rw [append_assoc]
  split
  next hi => rw [getElem?_append_left (hlen.symm ▸ hi), getElem?_take_of_lt hi]
  next hi =>
    rw [getElem?_append_right (by omega), getElem?_append_right (by omega), hlen,
      getElem?_drop]
    congr 1
    omega

theorem into_set (i : Nat) (x : α) : I.into (l.set i x) = (I.into l).set (I.shift i) x := by
  refine ext_getElem? fun j => ?_
  have hlen : (l.take I.place).length = I.place := by simp [h]
  unfold into shift
  simp only [append_assoc, getElem?_append, getElem?_set, length_take,
    length_set, length_append, length_drop, getElem?_take, getElem?_drop]
  grind

end

end Insertion

/-- What a world has besides. -/
structure Gap where
  slots : Insertion (Option Value)
  chains : Insertion Bool
  types : Insertion TensorType

def Meaning.shift (G : Gap) : Meaning → Meaning
  | .output index type => .output (G.types.shift index) type
  | .slot index type => .slot (G.slots.shift index) type
  | .chain key => .chain (G.chains.shift key)
  | m => m

namespace World

def spread (G : Gap) (w : World) : World where
  registers := w.registers.map fun p => (p.1, p.2.shift G)
  slots := G.slots.into w.slots
  chains := G.chains.into w.chains
  types := G.types.into w.types
  domain := w.domain
  outputs := w.outputs

/-- Nothing is taken away from a world. -/
structure Longer (w w' : World) : Prop where
  slots : w.slots.length ≤ w'.slots.length
  chains : w.chains.length ≤ w'.chains.length
  types : w.types.length ≤ w'.types.length

theorem Longer.rfl : w.Longer w := ⟨Nat.le_refl _, Nat.le_refl _, Nat.le_refl _⟩

theorem Longer.trans {w'' : World} (h : w.Longer w') (h' : w'.Longer w'') : w.Longer w'' :=
  ⟨Nat.le_trans h.slots h'.slots, Nat.le_trans h.chains h'.chains, Nat.le_trans h.types h'.types⟩

end World

/-- A register names something that is there. -/
def Meaning.InRange (w : World) : Meaning → Prop
  | .output index _ => index < w.types.length
  | .slot index _ => index < w.slots.length
  | .chain key => key < w.chains.length
  | _ => True

theorem Meaning.InRange.mono {m : Meaning} (h : m.InRange w) (hl : w.Longer w') : m.InRange w' := by
  cases m with
  | output => exact Nat.lt_of_lt_of_le h hl.types
  | slot => exact Nat.lt_of_lt_of_le h hl.slots
  | chain => exact Nat.lt_of_lt_of_le h hl.chains
  | scalar | position => trivial

namespace World

def Ranged (w : World) : Prop := ∀ p ∈ w.registers, p.2.InRange w

theorem ranged_start (outputs : Array Buffer) : (start outputs).Ranged :=
  fun _ h => absurd h not_mem_nil

/-- One instruction adds to the world, and gives what is there. -/
structure Adds (w w' : World) (m : Option Meaning) : Prop where
  longer : w.Longer w'
  registers : w.Ranged → w'.Ranged
  given : ∀ x ∈ m, x.InRange w'

theorem Longer.adds (h : w.Longer w') (hr : w'.registers = w.registers) (hm : ∀ x ∈ m, x.InRange w')
    : w.Adds w' m :=
  ⟨h, fun hw p hp => (hw p (hr ▸ hp)).mono h, hm⟩

theorem adds_scalar (w : World) (x : Scalar) : w.Adds w (some (.scalar x)) :=
  Longer.rfl.adds rfl (by rintro _ ⟨⟩; trivial)

theorem adds_none (h : w.Longer w' ∧ w'.registers = w.registers) : w.Adds w' none :=
  h.1.adds h.2 (by rintro _ ⟨⟩)

theorem Adds.after {w₁ : World} (h : w.Longer w₁ ∧ (w.Ranged → w₁.Ranged)) (h' : w₁.Adds w' m) :
    w.Adds w' m :=
  ⟨h.1.trans h'.longer, fun hw => h'.registers (h.2 hw), h'.given⟩

theorem Ranged.bind (h : w.Adds w' m) (hw : w.Ranged) (result : Option String) :
    (w'.bind result m).Ranged := by
  have hw' := h.registers hw
  cases result with
  | none => exact hw'
  | some name =>
    cases m with
    | none => exact hw'
    | some x =>
      intro p hp
      rcases mem_cons.1 hp with rfl | hp
      · exact h.given x rfl
      · exact hw' p hp

theorem declare_eq_map (active : Bool) (w : World) (type : ElementType) (x : Scalar) :
    w.declare active type x = (if active then (x.as? type).map some else some none).map fun v =>
      { w with slots := w.slots ++ [v] } := by
  cases active with
  | false => rfl
  | true => cases h : x.as? type <;> simp [World.declare, h]

theorem longer_bind (w : World) (result : Option String) (m : Option Meaning) :
    w.Longer (w.bind result m) := by
  cases result <;> cases m <;> exact ⟨Nat.le_refl _, Nat.le_refl _, Nat.le_refl _⟩

end World

namespace Site
open World

variable {σ : Site}

theorem adds_chain (w : World) (now : Bool) :
    w.Adds { w with chains := w.chains ++ [now] } (some (.chain w.chains.length)) :=
  Longer.adds ⟨Nat.le_refl _, by simp, Nat.le_refl _⟩ rfl
    (by rintro _ ⟨⟩; simp [Meaning.InRange])

theorem adds_flag (w : World) (key : Nat) (flag : Bool) :
    w.Adds { w with chains := w.chains.set key flag } none :=
  adds_none ⟨⟨Nat.le_refl _, by simp, Nat.le_refl _⟩, rfl⟩

theorem longer_assign {slot : Nat} {type : ElementType} (h : w.assign active slot type x = some w')
    : w.Longer w' ∧ w'.registers = w.registers := by
  unfold World.assign at h
  split at h
  · obtain ⟨v, -, rfl⟩ := Option.map_eq_some_iff.1 h
    exact ⟨⟨by simp, Nat.le_refl _, Nat.le_refl _⟩, rfl⟩
  · cases h
    exact ⟨.rfl, rfl⟩

theorem longer_store {output : Nat} {type : TensorType} {indices : List Scalar}
    (h : w.store active output type indices x = some w') :
    w.Longer w' ∧ w'.registers = w.registers := by
  unfold World.store at h
  split at h
  · obtain ⟨offset, -, h⟩ := bind_eq_some_iff.1 h
    obtain ⟨v, -, h⟩ := bind_eq_some_iff.1 h
    cases h
    exact ⟨⟨Nat.le_refl _, Nat.le_refl _, Nat.le_refl _⟩, rfl⟩
  · cases h
    exact ⟨.rfl, rfl⟩

theorem adds_output (w : World) (type : TensorType) :
    w.Adds { w with types := w.types ++ [type] } (some (.output w.types.length type)) :=
  Longer.adds ⟨Nat.le_refl _, Nat.le_refl _, by simp⟩ rfl (by rintro _ ⟨⟩; simp [Meaning.InRange])

theorem adds_declare {type : ElementType} (h : w.declare active type x = some w') :
    w.Adds w' (some (.slot w.slots.length type)) := by
  rw [declare_eq_map] at h
  obtain ⟨v, -, rfl⟩ := Option.map_eq_some_iff.1 h
  exact Longer.adds ⟨by simp, Nat.le_refl _, Nat.le_refl _⟩ rfl
    (by rintro _ ⟨⟩; simp [Meaning.InRange])

mutual

theorem adds_act : (action : Action) → {active : Bool} → {w : World} →
    {p : World × Option Meaning} → σ.act active w action = some p → w.Adds p.1 p.2
  | .branch cond body, active, w, p, h => by
    simp only [act, bind_eq_bind, bind_eq_some_iff] at h
    obtain ⟨x, -, now, -, w₁, hw, h⟩ := h
    cases h
    exact .after (longer_walk body hw) (adds_chain w₁ now)
  | .elif chain cond body, active, w, p, h => by
    simp only [act, bind_eq_bind, bind_eq_some_iff] at h
    obtain ⟨key, -, taken, -, x, -, now, -, w₁, hw, h⟩ := h
    cases h
    exact .after (longer_walk body hw) (adds_flag w₁ key _)
  | .otherwise chain body, active, w, p, h => by
    simp only [act, bind_eq_bind, bind_eq_some_iff] at h
    obtain ⟨key, -, taken, -, w₁, hw, h⟩ := h
    cases h
    exact .after (longer_walk body hw) (adds_flag w₁ key _)
  | .inspect _, active, w, p, h | .describe, active, w, p, h => by
    cases h
    exact adds_none ⟨.rfl, rfl⟩
  | .ensure holds _, active, w, p, h => by
    rw [act] at h
    split at h
    · cases h
      exact adds_none ⟨.rfl, rfl⟩
    · cases h
  | .fail _, active, w, p, h => by cases h
  | .constant v type, active, w, p, h => by
    cases h
    exact adds_scalar w _
  | .element t place, active, w, p, h => by
    simp only [act, bind_eq_bind, bind_eq_some_iff] at h
    obtain ⟨_, -, _, -, x, -, h⟩ := h
    cases h
    exact adds_scalar w x
  | .binary _ _ _, active, w, p, h | .get _, active, w, p, h | .unary _ _, active, w, p, h
  | .cast _ _, active, w, p, h | .axis _ _, active, w, p, h => by
    simp only [act, bind_eq_bind, bind_eq_some_iff] at h
    obtain ⟨_, -, x, -, h⟩ := h
    cases h
    exact adds_scalar w x
  | .output type, active, w, p, h => by
    cases h
    exact adds_output w type
  | .outputLike m, active, w, p, h => by
    simp only [act, bind_eq_bind, bind_eq_some_iff] at h
    obtain ⟨type, -, h⟩ := h
    cases h
    exact adds_output w type
  | .positionIn shape, active, w, p, h => by
    cases h
    exact Longer.adds ⟨Nat.le_refl _, Nat.le_refl _, Nat.le_refl _⟩ rfl (by rintro _ ⟨⟩; trivial)
  | .declare init type, active, w, p, h => by
    simp only [act, bind_eq_bind, bind_eq_some_iff] at h
    obtain ⟨x, -, w', hw, h⟩ := h
    cases h
    exact adds_declare hw
  | .assign v value, active, w, p, h => by
    simp only [act, bind_eq_bind, bind_eq_some_iff] at h
    obtain ⟨_, -, x, -, w', hw, h⟩ := h
    cases h
    exact adds_none (longer_assign hw)
  | .update v op value, active, w, p, h => by
    simp only [act, bind_eq_bind, bind_eq_some_iff] at h
    obtain ⟨_, -, x, -, _, -, z, -, w', hw, h⟩ := h
    cases h
    exact adds_none (longer_assign hw)
  | .store t place value, active, w, p, h => by
    simp only [act, bind_eq_bind, bind_eq_some_iff] at h
    obtain ⟨_, -, _, -, x, -, w', hw, h⟩ := h
    cases h
    exact adds_none (longer_store hw)

theorem longer_walkStep : (step : Step) → {active : Bool} → {w w' : World} →
    σ.walkStep active w step = some w' → w.Longer w' ∧ (w.Ranged → w'.Ranged)
  | .mk result tolerant action, active, w, w', h => by
    obtain ⟨p, hp, h⟩ := bind_eq_some_iff.1 h
    cases h
    have hadds := adds_act action hp
    exact ⟨hadds.longer.trans (longer_bind _ _ _), fun hw => hw.bind hadds result⟩

theorem longer_walk : (steps : List Step) → {active : Bool} → {w w' : World} →
    σ.walk active w steps = some w' → w.Longer w' ∧ (w.Ranged → w'.Ranged)
  | [], active, w, w', h => by
    cases h
    exact ⟨.rfl, fun h => h⟩
  | step :: rest, active, w, w', h => by
    obtain ⟨w₁, h₁, h⟩ := bind_eq_some_iff.1 h
    obtain ⟨hlonger, hranged⟩ := longer_walkStep step h₁
    obtain ⟨hlonger', hranged'⟩ := longer_walk rest h
    exact ⟨hlonger.trans hlonger', fun hw => hranged' (hranged hw)⟩

end

end Site

/-! Reading in a world with a gap. -/

/-- The gap lies in front of what comes later. -/
structure Gap.Fits (G : Gap) (w : World) : Prop where
  slots : G.slots.place ≤ w.slots.length
  chains : G.chains.place ≤ w.chains.length
  types : G.types.place ≤ w.types.length

theorem Gap.Fits.mono {G : Gap} (h : G.Fits w) (hl : w.Longer w') : G.Fits w' :=
  ⟨Nat.le_trans h.slots hl.slots, Nat.le_trans h.chains hl.chains, Nat.le_trans h.types hl.types⟩

theorem Scalar.deciding_of_holds? {deciding : Bool} (h : x.holds? deciding = some true) :
    deciding = true := by
  cases deciding with
  | true => rfl
  | false => cases h

namespace World

variable {G : Gap} {w : World}

theorem meaning?_spread (r : Register) :
    (w.spread G).meaning? r = (w.meaning? r).map (Meaning.shift G) := by
  have hlookup (l : List (String × Meaning)) :
      (l.map fun p => (p.1, p.2.shift G)).lookup r.name =
        (l.lookup r.name).map (Meaning.shift G) := by
    induction l with
    | nil => rfl
    | cons p rest ih =>
      rw [map_cons, lookup_cons, lookup_cons, ih]
      cases r.name == p.1 <;> rfl
  unfold meaning?
  split
  · rfl
  · exact hlookup w.registers

@[simp] theorem scalar?_spread (r : Register) : (w.spread G).scalar? r = w.scalar? r := by
  unfold scalar?
  rw [meaning?_spread]
  rcases w.meaning? r with _ | (_ | _ | _ | _ | _) <;> rfl

@[simp] theorem axes?_spread (r : Register) : (w.spread G).axes? r = w.axes? r := by
  unfold axes?
  rw [meaning?_spread]
  rcases w.meaning? r with _ | (_ | _ | _ | _ | _) <;> rfl

theorem output?_spread (r : Register) :
    (w.spread G).output? r = (w.output? r).map fun t => (G.types.shift t.1, t.2) := by
  unfold output?
  rw [meaning?_spread]
  rcases w.meaning? r with _ | (_ | _ | _ | _ | _) <;> rfl

theorem slot?_spread (r : Register) :
    (w.spread G).slot? r = (w.slot? r).map fun v => (G.slots.shift v.1, v.2) := by
  unfold slot?
  rw [meaning?_spread]
  rcases w.meaning? r with _ | (_ | _ | _ | _ | _) <;> rfl

theorem chain?_spread (r : Register) :
    (w.spread G).chain? r = (w.chain? r).map G.chains.shift := by
  unfold chain?
  rw [meaning?_spread]
  rcases w.meaning? r with _ | (_ | _ | _ | _ | _) <;> rfl

@[simp] theorem argument?_spread (other : ElementType) (a : Argument) :
    (w.spread G).argument? other a = w.argument? other a := by
  cases a with
  | literal => rfl
  | register r => exact scalar?_spread r

@[simp] theorem subscript?_spread (place : Subscript) :
    (w.spread G).subscript? place = w.subscript? place := by
  cases place with
  | position r => exact axes?_spread r
  | indices args =>
    have hargument : (w.spread G).argument? .i64 = w.argument? .i64 :=
      funext fun a => argument?_spread .i64 a
    rw [subscript?, subscript?, hargument]

@[simp] theorem sides?_spread (lhs rhs : Argument) :
    (w.spread G).sides? lhs rhs = w.sides? lhs rhs := by
  cases lhs <;> cases rhs <;> simp [sides?]

theorem spread_bind (result : Option String) (m : Option Meaning) :
    (w.bind result m).spread G = (w.spread G).bind result (m.map (Meaning.shift G)) := by
  cases result <;> cases m <;> rfl

section
variable (hG : G.Fits w)
include hG

theorem value?_spread (slot : Nat) : (w.spread G).value? (G.slots.shift slot) = w.value? slot := by
  unfold value?
  exact congrArg Option.join (Insertion.getElem?_into hG.slots slot)

theorem flag_spread (key : Nat) :
    (w.spread G).chains[G.chains.shift key]? = w.chains[key]? :=
  Insertion.getElem?_into hG.chains key

theorem declare_spread (active : Bool) (type : ElementType) (x : Scalar) :
    (w.spread G).declare active type x = (w.declare active type x).map (spread G) := by
  rw [declare_eq_map, declare_eq_map, Option.map_map]
  refine congrArg (Option.map · _) (funext fun v => ?_)
  simp only [spread, Function.comp_apply, Insertion.into_append hG.slots]

theorem assign_spread (active : Bool) (slot : Nat) (type : ElementType) (x : Scalar) :
    (w.spread G).assign active (G.slots.shift slot) type x =
      (w.assign active slot type x).map (spread G) := by
  unfold assign
  split
  · rw [Option.map_map]
    refine congrArg (Option.map · _) (funext fun v => ?_)
    simp only [spread, Function.comp_apply, Insertion.into_set hG.slots]
  · rfl

theorem spread_addType (type : TensorType) :
    spread G { w with types := w.types ++ [type] } =
      { w.spread G with types := (w.spread G).types ++ [type] } := by
  simp only [spread, Insertion.into_append hG.types]

theorem length_types_spread : (w.spread G).types.length = G.types.shift w.types.length :=
  Insertion.length_into hG.types

theorem length_slots_spread : (w.spread G).slots.length = G.slots.shift w.slots.length :=
  Insertion.length_into hG.slots

theorem length_chains_spread : (w.spread G).chains.length = G.chains.shift w.chains.length :=
  Insertion.length_into hG.chains

theorem spread_addChain (flag : Bool) :
    spread G { w with chains := w.chains ++ [flag] } =
      { w.spread G with chains := (w.spread G).chains ++ [flag] } := by
  simp only [spread, Insertion.into_append hG.chains]

theorem spread_setChain (key : Nat) (flag : Bool) :
    spread G { w with chains := w.chains.set key flag } =
      { w.spread G with chains := (w.spread G).chains.set (G.chains.shift key) flag } := by
  simp only [spread, Insertion.into_set hG.chains]

end

theorem store_spread (ha : active = true → G.types.items = []) (output : Nat) (type : TensorType)
    (indices : List Scalar) (x : Scalar) :
    (w.spread G).store active (G.types.shift output) type indices x =
      (w.store active output type indices x).map (spread G) := by
  unfold store
  cases active with
  | false => rfl
  | true =>
    rw [Insertion.shift_of_nil (ha rfl)]
    cases Scalar.offset? type indices with
    | none => rfl
    | some offset => cases x.as? type.element <;> simp [spread]

end World

namespace Site
open World

variable {σ : Site} {G : Gap}

theorem model?_spread (w : World) (m : Model) : σ.model? (w.spread G) m = σ.model? w m := by
  cases m with
  | given | type => rfl
  | output r =>
    rw [model?, model?, output?_spread, Option.map_map]
    rfl

mutual

theorem act_spread : (action : Action) → {active : Bool} → {w : World} → G.Fits w →
    (active = true → G.types.items = []) → σ.act active (w.spread G) action =
      (σ.act active w action).map fun p => (p.1.spread G, p.2.map (Meaning.shift G))
  | .branch cond body, active, w, hG, ha => by
    simp only [act, scalar?_spread, bind_eq_bind, map_bind,
      Function.comp_def]
    refine bind_congr fun x _ => bind_congr fun now hx => ?_
    have hnow : now = true → G.types.items = [] := by
      rintro rfl
      exact ha (Scalar.deciding_of_holds? hx)
    rw [walk_spread body hG hnow, bind_map]
    refine bind_congr fun w₁ hw => ?_
    have hG₁ := hG.mono (longer_walk body hw).1
    simp [spread_addChain hG₁, length_chains_spread hG₁, Meaning.shift]
  | .elif chain cond body, active, w, hG, ha => by
    simp only [act, scalar?_spread, chain?_spread, bind_eq_bind, map_bind,
      bind_map, Function.comp_def, flag_spread hG]
    refine bind_congr fun key _ => bind_congr fun taken _ =>
      bind_congr fun x _ => bind_congr fun now hx => ?_
    have hnow : now = true → G.types.items = [] := by
      rintro rfl
      exact ha (Bool.and_eq_true_iff.1 (Scalar.deciding_of_holds? hx)).1
    rw [walk_spread body hG hnow, bind_map]
    refine bind_congr fun w₁ hw => ?_
    simp [spread_setChain (hG.mono (longer_walk body hw).1)]
  | .otherwise chain body, active, w, hG, ha => by
    simp only [act, chain?_spread, bind_eq_bind, map_bind, bind_map,
      Function.comp_def, flag_spread hG]
    refine bind_congr fun key _ => bind_congr fun taken _ => ?_
    rw [walk_spread body hG fun h => ha (Bool.and_eq_true_iff.1 h).1, bind_map]
    refine bind_congr fun w₁ hw => ?_
    simp [spread_setChain (hG.mono (longer_walk body hw).1)]
  | .inspect _, _, _, _, _ | .describe, _, _, _, _ | .constant _ _, _, _, _, _ | .fail _, _, _, _, _
  | .positionIn _, _, _, _, _ => rfl
  | .ensure holds _, _, _, _, _ => by
    cases holds <;> rfl
  | .element _ _, _, _, _, _ | .binary _ _ _, _, _, _, _ | .unary _ _, _, _, _, _
  | .cast _ _, _, _, _, _ | .axis _ _, _, _, _, _ => by
    simp [act, map_bind, Function.comp_def, Meaning.shift]
  | .get v, active, w, hG, _ => by
    simp [act, map_bind, bind_map, Function.comp_def, slot?_spread, value?_spread hG, Meaning.shift]
  | .output _, _, _, hG, _ | .outputLike _, _, _, hG, _ => by
    simp [act, model?_spread, map_bind, spread_addType hG, Meaning.shift,
      length_types_spread hG]
  | .declare init type, active, w, hG, _ => by
    simp [act, map_bind, bind_map, Function.comp_def, declare_spread hG, length_slots_spread hG,
      Meaning.shift]
  | .assign _ _, _, _, hG, _ | .update _ _ _, _, _, hG, _ => by
    simp [act, map_bind, bind_map, slot?_spread, value?_spread hG,
      assign_spread hG]
  | .store t place value, active, w, _, ha => by
    simp [act, map_bind, bind_map, output?_spread, store_spread ha]

theorem walkStep_spread : (step : Step) → {active : Bool} → {w : World} → G.Fits w →
    (active = true → G.types.items = []) →
    σ.walkStep active (w.spread G) step = (σ.walkStep active w step).map (spread G)
  | .mk result tolerant action, active, w, hG, ha => by
    rw [walkStep, walkStep, act_spread action hG ha]
    cases σ.act active w action with
    | none => rfl
    | some p => simp [spread_bind]

/-- A script reads the same in a world with a gap. -/
theorem walk_spread : (steps : List Step) → {active : Bool} → {w : World} → G.Fits w →
    (active = true → G.types.items = []) →
    σ.walk active (w.spread G) steps = (σ.walk active w steps).map (spread G)
  | [], _, _, _, _ => rfl
  | step :: rest, active, w, hG, ha => by
    rw [walk, walk, walkStep_spread step hG ha]
    cases h : σ.walkStep active w step with
    | none => rfl
    | some w₁ => exact walk_spread rest (hG.mono (longer_walkStep step h).1) ha

end

end Site
end TensorKernel

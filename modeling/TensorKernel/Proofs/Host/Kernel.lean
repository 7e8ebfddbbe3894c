import TensorKernel.Proofs.Run.Writes
import TensorKernel.Proofs.Tape.State
import TensorKernel.Proofs.Tape.Typing
import TensorKernel.Tape.Host

/-! Launches and the arithmetic of the tensor tape: when they succeed, and of which types their
results are. -/
namespace TensorKernel

variable {buffers : Array Buffer}

/-! ### Tensors -/

namespace Tensor

variable {type : TensorType}

theorem ofValues_isOk {data : Array Value} (hb : type.element.isBool = false)
    (hs : data.size = type.shape.count) : ∃ t, ofValues type data = .ok t ∧ t.type = type := by
  simp [ofValues, hb, hs]

theorem type_of_ofDoubles {values : Array Float} {t : Tensor} (h : ofDoubles type values = .ok t) :
    t.type = type :=
  (type_of_ofValues h).1

theorem ofDoubles_isOk {values : Array Float} (hb : type.element.isBool = false)
    (hs : values.size = type.shape.count) : ∃ t, ofDoubles type values = .ok t ∧ t.type = type :=
  ofValues_isOk hb (by simp [hs])

theorem size_toDoubles (t : Tensor) : t.toDoubles.size = t.type.shape.count := by
  simp [toDoubles, t.size_eq]

theorem full_isOk (hb : type.element.isBool = false) (bits : UInt64) :
    ∃ t, full type bits = .ok t ∧ t.type = type :=
  ofValues_isOk hb (by simp)

end Tensor

/-! ### The arithmetic -/

namespace HostTape

variable {a b c : Tensor}

theorem type_of_mapElements {f : Float → Float} (h : mapElements f a = .ok c) : c.type = a.type :=
  Tensor.type_of_ofDoubles h

theorem mapElements_isOk (f : Float → Float) (ha : a.type.element.isBool = false) :
    ∃ c, mapElements f a = .ok c ∧ c.type = a.type :=
  Tensor.ofDoubles_isOk ha (by simp [a.size_toDoubles])

theorem type_of_zipElements {f : Float → Float → Float} (h : zipElements f a b = .ok c) :
    b.type = a.type ∧ c.type = a.type := by
  unfold zipElements at h
  split at h
  next htype => exact ⟨htype.symm, Tensor.type_of_ofDoubles h⟩
  · cases h

theorem zipElements_isOk (f : Float → Float → Float) (ha : a.type.element.isBool = false)
    (hb : b.type = a.type) : ∃ c, zipElements f a b = .ok c ∧ c.type = a.type := by
  rw [zipElements, if_pos hb.symm]
  apply Tensor.ofDoubles_isOk ha
  simp [a.size_toDoubles, b.size_toDoubles, hb]

/-- Tensors have no truth values, and calls are typed by their forward kernel. -/
def typing : Typing Tensor PlacedOp TensorType where
  type := Tensor.type
  good type := type.element.isBool = false
  takes c := c.op.forward.inputs
  gives c := c.op.forward.outputs

end HostTape

/-! ### Launches -/

namespace Kernel

variable {k : Kernel}

theorem types_of_collect {results : List Tensor} (h : k.collect buffers = .ok results) :
    Tensor.types results = k.outputs := by
  have hall := mapM_eq_ok.1 h
  have hlength : results.length = k.outputs.length := by simpa using hall.length_eq.symm
  apply List.ext_getElem
  · simpa [Tensor.types] using hlength
  · intro n hn hn'
    have hn : n < results.length := by simpa [Tensor.types] using hn
    have hpart := hall.get (i := n) (by simpa using hn') hn
    simpa [Tensor.types] using (Tensor.type_of_ofValues hpart).1

theorem collect_isOk (hb : ∀ type ∈ k.outputs, type.element.isBool = false)
    (hs : ∀ (n : Nat) (type : TensorType), k.outputs[n]? = some type →
      buffers[n]?.map Array.size = some type.shape.count) :
    ∃ results, k.collect buffers = .ok results := by
  have hpart (p : TensorType × Nat) (hp : p ∈ k.outputs.zipIdx) :
      ∃ t, Tensor.ofValues p.1 (buffers.getD p.2
        (Array.replicate p.1.shape.count (Value.zero p.1.element))) = .ok t ∧ True := by
    have hget : k.outputs[p.2]? = some p.1 := List.mem_zipIdx_iff_getElem?.1 hp
    obtain ⟨b, hbuffer, hsize⟩ := Option.map_eq_some_iff.1 (hs p.2 p.1 hget)
    have hvalues : (buffers.getD p.2
        (Array.replicate p.1.shape.count (Value.zero p.1.element))).size = p.1.shape.count := by
      rw [Array.getD_eq_getD_getElem?, hbuffer]
      exact hsize
    obtain ⟨t, ht, -⟩ := Tensor.ofValues_isOk (hb p.1 (List.mem_of_getElem? hget)) hvalues
    exact ⟨t, ht, trivial⟩
  obtain ⟨results, hresults, -⟩ := mapM_isOk hpart
  exact ⟨results, hresults⟩

def outcome (k : Kernel) (e : EntryPoint) (inputs : List Tensor) (library : Library) :
    Except Error (List Tensor) :=
  if library.entry ≠ e.symbol then .error (.load e.path ("undefined symbol: " ++ e.name))
  else if k.outputs.any (·.element.isBool) then .error .boolElements
  else
    match library.call k.domain inputs with
    | .error code => .error (.execution e.name code)
    | .ok buffers => k.collect buffers

/-- The answer of a launch, given what loading the library answers. -/
def answer (k : Kernel) (device : Device) (inputs : List Tensor)
    (loaded : Except Error Library) : Except Error (List Tensor) :=
  let entry := k.entryPoint device.backend
  if entry.isEmpty then
    .error (.message ("no " ++ device.backend.name ++ " entry point was registered"))
  else
    match k.checkInputs entry.name inputs with
    | .error e => .error e
    | .ok () => loaded >>= k.outcome entry inputs

/-- A launch answers by what it loads, and changes the session by loading at most. -/
theorem launch_eq (k : Kernel) (device : Device) (inputs : List Tensor) (s : Session) :
    (k.launch device inputs s).1 =
        k.answer device inputs (Session.load (k.entryPoint device.backend).path s).1 ∧
      ((k.launch device inputs s).2 = s ∨
        (k.launch device inputs s).2
          = (Session.load (k.entryPoint device.backend).path s).2) := by
  unfold launch answer resolve
  dsimp only
  generalize Session.load (k.entryPoint device.backend).path = load
  split
  · exact ⟨rfl, .inl rfl⟩
  · cases k.checkInputs (k.entryPoint device.backend).name inputs with
    | error e => exact ⟨rfl, .inl rfl⟩
    | ok u =>
      change (((load >>= _ : SessionM Library) >>= _ : SessionM _) s).1 = _ ∧
        ((((load >>= _ : SessionM Library) >>= _ : SessionM _) s).2 = _ ∨
          (((load >>= _ : SessionM Library) >>= _ : SessionM _) s).2 = _)
      rw [run_bind, run_bind]
      rcases load s with ⟨e | library, s'⟩
      · exact ⟨rfl, .inr rfl⟩
      · dsimp only
        rw [ok_bind, outcome]
        by_cases hentry : library.entry = (k.entryPoint device.backend).symbol
        · rw [if_pos hentry, if_neg (not_not.2 hentry)]
          change ((if _ then _ else _ : SessionM (List Tensor)) s').1 = _ ∧ (_ ∨
            ((if _ then _ else _ : SessionM (List Tensor)) s').2 = _)
          by_cases hbool : k.outputs.any (·.element.isBool) = true
          · rw [if_pos hbool, if_pos hbool]
            exact ⟨rfl, .inr rfl⟩
          · rw [if_neg hbool, if_neg hbool]
            cases library.call k.domain inputs with
            | error code => exact ⟨rfl, .inr rfl⟩
            | ok buffers =>
              have hcollect := answers_ofExcept (k.collect buffers) s' (I := (· = s')) rfl
              exact ⟨hcollect.1, .inr hcollect.2⟩
        · rw [if_neg hentry, if_pos hentry]
          exact ⟨rfl, .inr rfl⟩

theorem answer_eq_ok {device : Device} {inputs results : List Tensor}
    {loaded : Except Error Library} (h : k.answer device inputs loaded = .ok results) :
    Tensor.types inputs = k.inputs ∧ Tensor.types results = k.outputs ∧
      ∀ type ∈ k.outputs, type.element.isBool = false := by
  unfold answer at h
  dsimp only at h
  split at h
  · cases h
  · split at h
    · cases h
    next hcheck =>
      obtain ⟨library, -, h⟩ := bind_eq_ok.1 h
      unfold outcome at h
      split at h
      · cases h
      · split at h
        · cases h
        next hbool =>
          split at h
          · cases h
          · refine ⟨?_, types_of_collect h, by simpa using hbool⟩
            unfold checkInputs at hcheck
            dsimp only at hcheck
            split at hcheck
            next htypes => exact htypes
            · cases hcheck

theorem answer_isOk {device : Device} {inputs : List Tensor} {library : Library}
    (he : (k.entryPoint device.backend).isEmpty = false) (hi : Tensor.types inputs = k.inputs)
    (hs : library.entry = (k.entryPoint device.backend).symbol)
    (hd : library.graph.domain = k.domain) (ho : library.graph.outputs = k.outputs)
    (hb : ∀ type ∈ k.outputs, type.element.isBool = false) :
    ∃ results, k.answer device inputs (.ok library) = .ok results := by
  have hcheck (name : String) : k.checkInputs name inputs = .ok () := if_pos hi
  have hbool : ¬ k.outputs.any (·.element.isBool) = true := by simpa using hb
  unfold answer
  dsimp only
  rw [he, hcheck]
  change ∃ results, k.outcome _ inputs library = .ok results
  rw [outcome, if_neg (not_not.2 hs), if_neg hbool, Library.call, hd, if_neg (not_not.2 rfl),
    if_neg (not_not.2 rfl)]
  apply collect_isOk hb
  intro n type hn
  rw [library.graph.fits_run, ho, hn]
  rfl

end Kernel

/-! ### The rules of the tensor tape -/

namespace HostTape

variable (s : Session)

theorem ofExcept_fst {α : Type} (y : Except Error α) :
    ((MonadExcept.ofExcept y : SessionM α) s).1 = y := by
  cases y <;> rfl

theorem inState_add (a b : Tensor) : (rules.inState s).add a b = zipElements (· + ·) a b :=
  ofExcept_fst s _

theorem inState_mul (a b : Tensor) : (rules.inState s).mul a b = zipElements (· * ·) a b :=
  ofExcept_fst s _

theorem inState_square (a : Tensor) : (rules.inState s).square a = mapElements (fun x => x * x) a :=
  ofExcept_fst s _

theorem inState_scale (a : Tensor) (factor : Float) :
    (rules.inState s).scale a factor = mapElements (· * factor) a :=
  ofExcept_fst s _

theorem inState_squareGrad (g a : Tensor) :
    (rules.inState s).squareGrad g a = zipElements (fun g x => 2.0 * g * x) g a :=
  ofExcept_fst s _

theorem inState_ones (a : Tensor) :
    (rules.inState s).ones a = Tensor.full a.type (1.0 : Float).toBits :=
  ofExcept_fst s _

theorem inState_zeros (a : Tensor) : (rules.inState s).zeros a = Tensor.zeros a.type :=
  ofExcept_fst s _

theorem inState_call (c : PlacedOp) (inputs : List Tensor) :
    (rules.inState s).call c inputs = c.op.forward.answer c.device inputs
      (Session.load (c.op.forward.entryPoint c.device.backend).path s).1 :=
  (c.op.forward.launch_eq c.device inputs s).1

theorem checks : (rules.inState s).Checks typing where
  absent _ _ h := by cases h
  add _ _ _ h := type_of_zipElements ((inState_add s _ _).symm.trans h)
  mul _ _ _ h := type_of_zipElements ((inState_mul s _ _).symm.trans h)
  square _ _ h := type_of_mapElements ((inState_square s _).symm.trans h)
  scale _ _ _ h := type_of_mapElements ((inState_scale s _ _).symm.trans h)
  call _ _ _ h := Kernel.answer_eq_ok ((inState_call s _ _).symm.trans h)

theorem safe : (rules.inState s).Safe typing where
  add a b ha hb := by
    rw [inState_add]
    exact zipElements_isOk _ ha hb
  mul a b ha hb := by
    rw [inState_mul]
    exact zipElements_isOk _ ha hb
  squareGrad a b ha hb := by
    rw [inState_squareGrad]
    exact zipElements_isOk _ ha hb
  scale a factor ha := by
    rw [inState_scale]
    exact mapElements_isOk _ ha
  ones a ha := by
    rw [inState_ones]
    exact Tensor.full_isOk ha _
  zeros a ha := by
    rw [inState_zeros]
    exact Tensor.zeros_isOk ha

end HostTape
end TensorKernel

import TensorKernel.Code.Source
import TensorKernel.Proofs.Arithmetic.Quantity
import TensorKernel.Proofs.Draft.Basic
import TensorKernel.Proofs.Finish
import TensorKernel.Proofs.Outcome

/-! How many threads a threaded source file starts, and which index each of them has. The launcher
and the start of the kernel are written out as code with a text and a meaning. Indices are computed
in 64 bits and blocks are started by a number of 32 bits, so the launcher covers a shape only up to
a size that depends on its blocks. -/
namespace TensorKernel

open ElementType

variable {n k : Nat}

theorem ElementType.inRange_natCast {t : ElementType} :
    t.InRange n ↔ n < 2 ^ (if t.isSigned then t.bits - 1 else t.bits) := by
  unfold InRange minValue maxValue
  split
  · generalize 2 ^ (t.bits - 1) = limit
    omega
  · generalize 2 ^ t.bits = limit
    omega

namespace Code

namespace Quantity

def compareInts? (op : BinaryOp) (x y : Int) : Option Bool :=
  match op with
  | .eq => some (x == y)
  | .ne => some (x != y)
  | .lt => some (x < y)
  | .le => some (x ≤ y)
  | .gt => some (x > y)
  | .ge => some (x ≥ y)
  | _ => none

/-- A comparison in the type in which the operands meet. -/
def compare? (op : BinaryOp) (a b : Quantity) : Option Bool :=
  let t := a.type.common b.type
  compareInts? op (t.wrap a.value) (t.wrap b.value)

end Quantity

namespace Launch

inductive Name where
  | total
  | threads
  | blocks
  | block
  | size
  | thread
  | index
deriving DecidableEq

def Name.text : Name → String
  | total => "total"
  | threads => "threads_per_block"
  | blocks => "blocks"
  | block => "blockIdx.x"
  | size => "blockDim.x"
  | thread => "threadIdx.x"
  | index => "index"

inductive Target where
  | long
  | unsigned

def Target.text : Target → String
  | long => "int64_t"
  | unsigned => "unsigned int"

def Target.type : Target → ElementType
  | long => .i64
  | unsigned => .u32

inductive Formula where
  | name (n : Name)
  | number (n : Nat)
  /-- A number with the suffix of 64 bits. -/
  | long (n : Nat)
  | cast (target : Target) (x : Formula)
  | operation (op : BinaryOp) (x y : Formula)

abbrev Names := Name → Option Quantity

def symbol (op : BinaryOp) : String := op.symbol?.getD op.name

/-- How tightly an operation binds. -/
def rank : BinaryOp → Nat
  | .add | .sub => 0
  | _ => 1

def enclose (condition : Bool) (text : String) : String :=
  if condition then "(" ++ text ++ ")" else text

namespace Formula

/-- An operation that binds less tightly than `bound`. -/
def isLooser (bound : Nat) : Formula → Bool
  | operation op _ _ => rank op < bound
  | _ => false

/-- Operations of one rank group to the left, all other groups are in brackets. -/
def text : Formula → String
  | name n => n.text
  | number n => toString n
  | long n => toString n ++ "LL"
  | cast target x => castText target.text x.text
  | operation op x y => between (enclose (x.isLooser (rank op)) x.text) (symbol op)
      (enclose (y.isLooser (rank op + 1)) y.text)

def quantity? (names : Names) : Formula → Option Quantity
  | name n => names n
  | number n => Quantity.of? .i32 n
  | long n => Quantity.of? .i64 n
  | cast target x => (x.quantity? names).bind (Quantity.convert? target.type)
  | operation op x y => (x.quantity? names).bind fun a => (y.quantity? names).bind fun b =>
      Quantity.operate? op a b

end Formula

inductive Statement where
  /-- `const int64_t n = value;` -/
  | define (n : Name) (value : Formula)
  /-- `if (x op y) return code;` -/
  | leave (op : BinaryOp) (x y : Formula) (code : Option Nat)

/-- How code ends: without a meaning, with a return, or behind its last statement. -/
inductive Ending (α : Type) where
  | undefined
  | returned (code : Option Nat)
  | reached (result : α)
deriving DecidableEq

namespace Ending

variable {α β : Type}

def ofOption : Option α → Ending α
  | none => undefined
  | some a => reached a

def bind (x : Ending α) (f : α → Ending β) : Ending β :=
  match x with
  | undefined => undefined
  | returned code => returned code
  | reached a => f a

end Ending

namespace Statement

def text : Statement → String
  | define n value => "const int64_t " ++ n.text ++ " = " ++ value.text ++ ";"
  | leave op x y code => "if (" ++ between x.text (symbol op) y.text ++ ") return"
      ++ (code.map fun c => " " ++ toString c).getD "" ++ ";"

def line (s : Statement) : Line := ⟨1, s.text⟩

def run (names : Names) : Statement → Ending Names
  | define n value => .ofOption (((value.quantity? names).bind (Quantity.convert? .i64)).map
      fun q => Function.update names n (some q))
  | leave op x y code => (Ending.ofOption ((x.quantity? names).bind fun a =>
      (y.quantity? names).bind fun b => Quantity.compare? op a b)).bind
      fun stop => if stop then .returned code else .reached names

def runAll (names : Names) : List Statement → Ending Names
  | [] => .reached names
  | s :: rest => (s.run names).bind fun names => runAll names rest

end Statement

/-- Threads that are started, in blocks of one size. -/
structure Grid where
  blocks : Nat
  size : Nat
deriving DecidableEq

/-- A thread by its block and its place in the block. -/
structure Place where
  block : Nat
  thread : Nat
deriving DecidableEq

variable {p : Place} {rest : List Statement}

def Grid.Has (grid : Grid) (p : Place) : Prop := p.block < grid.blocks ∧ p.thread < grid.size

def blockCount : Formula :=
  let sum := .operation .add (.name .total) (.name .threads)
  .operation .div (.operation .sub sum (.number 1)) (.name .threads)

def launcher (total : Nat) : List Statement :=
  [.leave .le (.name .threads) (.number 0) (some 3), .define .total (.long total),
    .leave .eq (.name .total) (.number 0) (some 0), .define .blocks blockCount]

def gridBlocks : Formula := .cast .unsigned (.name .blocks)

def gridSize : Formula := .cast .unsigned (.name .threads)

/-- What stands between the name of the kernel and its arguments. -/
def configuration : String :=
  "<<<" ++ gridBlocks.text ++ ", " ++ gridSize.text ++ ", 0, " ++ castText "cudaStream_t" "stream"
    ++ ">>>("

def threadIndex : Formula :=
  .operation .add (.operation .mul (.cast .long (.name .block)) (.name .size)) (.name .thread)

/-- The kernel up to the point where it splits the index. -/
def opening : List Statement :=
  [.define .index threadIndex, .leave .ge (.name .index) (.name .total) none]

def hostNames (threads : Nat) : Names
  | .threads => Quantity.of? .i32 threads
  | _ => none

def deviceNames (total : Nat) (grid : Grid) (p : Place) : Names
  | .total => Quantity.of? .i64 total
  | .size => Quantity.of? .u32 grid.size
  | .block => Quantity.of? .u32 p.block
  | .thread => Quantity.of? .u32 p.thread
  | _ => none

def launch (total threads : Nat) : Ending Grid :=
  (Statement.runAll (hostNames threads) (launcher total)).bind fun names =>
    .ofOption ((gridBlocks.quantity? names).bind fun blocks =>
      (gridSize.quantity? names).map fun size => ⟨blocks.value.toNat, size.value.toNat⟩)

/-- The index at which a thread runs the block of the kernel. -/
def visit (total : Nat) (grid : Grid) (p : Place) : Ending Int :=
  (Statement.runAll (deviceNames total grid p) opening).bind fun names =>
    .ofOption ((names .index).map Quantity.value)

/-- Nothing overflows, and each index is run by exactly one of the threads that are started. -/
def Covers (total threads : Nat) : Prop :=
  ∃ grid, launch total threads = .reached grid
    ∧ (∀ p, grid.Has p → visit total grid p ≠ .undefined)
    ∧ ∀ k < total, ∃! p, grid.Has p ∧ visit total grid p = .reached k

/-! ### The texts -/

/-- The launcher's lines around the ones that are given a meaning. -/
def launcherCode (g : Graph) (entry kernel : String) : List Line :=
  entryLines entry ", void* stream, int32_t threads_per_block" ++ g.domainCheck
    ++ (launcher g.domain.count).map Statement.line ++ g.unusedInputs
    ++ [⟨1, kernel ++ configuration⟩]
    ++ Graph.argumentLines 2 (g.parameters.map Parameter.pass ++ [Name.text .total])
    ++ [⟨1, "const cudaError_t err = cudaGetLastError();"⟩,
      ⟨1, "return err == cudaSuccess ? 0 : 1000 + static_cast<int32_t>(err);"⟩, ⟨0, "\x7d"⟩]

/-- The kernel's lines around the ones that are given a meaning. -/
def kernelCode (g : Graph) (kernel : String) : List Line :=
  ⟨0, "__global__ void " ++ kernel ++ "(" ++ ", ".intercalate
      (g.parameters.map (fun p => p.type ++ " " ++ p.name) ++ ["int64_t " ++ Name.text .total])
      ++ ") \x7b"⟩
    :: opening.map Statement.line ++ Graph.decodeLines g.domain.dims
    ++ g.parameters.map (fun p => ⟨1, ignore p.name⟩)
    ++ blockLines 1 g.code ++ [⟨0, "\x7d"⟩]

theorem lines_launcher (total : Nat) : (launcher total).map Statement.line
    = [⟨1, "if (threads_per_block <= 0) return 3;"⟩,
      ⟨1, "const int64_t total = " ++ toString total ++ "LL;"⟩,
      ⟨1, "if (total == 0) return 0;"⟩,
      ⟨1, "const int64_t blocks = (total + threads_per_block - 1) / threads_per_block;"⟩] := by
  have hsuffix : toString total ++ "LL" ++ ";" = toString total ++ "LL;" :=
    String.append_assoc
  have htotal : Statement.line (.define .total (.long total))
      = ⟨1, "const int64_t total = " ++ toString total ++ "LL;"⟩ := by
    rw [String.append_assoc, ← hsuffix, ← String.append_assoc]
    rfl
  rw [launcher, List.map_cons, List.map_cons, htotal]
  rfl

theorem launcherLines_eq (g : Graph) (entry kernel : String) :
    g.launcherLines entry kernel = launcherCode g entry kernel := by
  have hconfiguration : configuration = "<<<static_cast<unsigned int>(blocks), "
      ++ "static_cast<unsigned int>(threads_per_block), 0, "
      ++ "static_cast<cudaStream_t>(stream)>>>(" := rfl
  rw [launcherCode, lines_launcher, hconfiguration, ← String.append_assoc, ← String.append_assoc]
  rfl

theorem kernelLines_eq (g : Graph) (kernel : String) :
    g.kernelLines kernel = kernelCode g kernel := by
  have hopening : opening.map Statement.line
      = [⟨1, "const int64_t index = static_cast<int64_t>(blockIdx.x) * blockDim.x + threadIdx.x;"⟩,
        ⟨1, "if (index >= total) return;"⟩] := rfl
  rw [kernelCode, hopening]
  rfl

/-! ### The meanings -/

section Meaning

variable {names : Names} {x y : Formula} {t u : ElementType} {a b : Int}

theorem quantity?_operation (op : BinaryOp) (hx : x.quantity? names = Quantity.of? t a)
    (hy : y.quantity? names = Quantity.of? u b) (ht : t.isIntegral = true ∧ t.InRange a)
    (hu : u.isIntegral = true ∧ u.InRange b) (hs : (t.common u).isSigned = true) :
    (Formula.operation op x y).quantity? names = Quantity.compute? op (t.common u) a b := by
  obtain ⟨ha, hb⟩ := wrap_common ht.1 hu.1 hs ht.2 hu.2
  rw [Formula.quantity?, hx, hy, Quantity.of?_eq_some ht.1 ht.2, Quantity.of?_eq_some hu.1 hu.2]
  simp only [Option.bind_some, Quantity.operate?, ha, hb]

theorem quantity?_operation_of_none (op : BinaryOp) (h : x.quantity? names = none) :
    (Formula.operation op x y).quantity? names = none := by
  rw [Formula.quantity?, h]
  rfl

theorem quantity?_cast (target : Target) (hx : x.quantity? names = Quantity.of? t a)
    (ht : t.isIntegral = true ∧ t.InRange a) : (Formula.cast target x).quantity? names
      = Quantity.of? target.type (target.type.wrap a) := by
  rw [Formula.quantity?, hx, Quantity.of?_eq_some ht.1 ht.2]
  rfl

theorem quantity?_update_self (names : Names) (n : Name) (q : Option Quantity) :
    (Formula.name n).quantity? (Function.update names n q) = q := by
  rw [Formula.quantity?, Function.update_self]

theorem quantity?_update_of_ne {n m : Name} {q : Option Quantity} (h : n ≠ m)
    (hn : (Formula.name n).quantity? names = q) (r : Option Quantity) :
    (Formula.name n).quantity? (Function.update names m r) = q := by
  rw [Formula.quantity?, Function.update_of_ne h]
  exact hn

theorem runAll_define {n : Name} {value : Formula} {z : Int}
    (h : value.quantity? names = Quantity.of? .i64 z) (hz : ElementType.i64.InRange z) :
    Statement.runAll names (.define n value :: rest)
      = Statement.runAll (Function.update names n (Quantity.of? .i64 z)) rest := by
  have hconvert : (Quantity.of? .i64 z).bind (Quantity.convert? .i64) = Quantity.of? .i64 z := by
    rw [Quantity.of?_eq_some rfl hz, Option.bind_some, Quantity.convert?,
      wrap_of_inRange hz, Quantity.of?_eq_some rfl hz]
  rw [Statement.runAll, Statement.run, h, hconvert, Quantity.of?_eq_some rfl hz]
  rfl

theorem runAll_define_of_none {n : Name} {value : Formula} (h : value.quantity? names = none) :
    Statement.runAll names (.define n value :: rest) = .undefined := by
  rw [Statement.runAll, Statement.run, h]
  rfl

theorem runAll_leave {op : BinaryOp} {code : Option Nat} {stop : Bool}
    (hx : x.quantity? names = Quantity.of? t a) (hy : y.quantity? names = Quantity.of? u b)
    (ht : t.isIntegral = true ∧ t.InRange a) (hu : u.isIntegral = true ∧ u.InRange b)
    (hs : (t.common u).isSigned = true) (hstop : Quantity.compareInts? op a b = some stop) :
    Statement.runAll names (.leave op x y code :: rest)
      = if stop then .returned code else Statement.runAll names rest := by
  obtain ⟨ha, hb⟩ := wrap_common ht.1 hu.1 hs ht.2 hu.2
  rw [Statement.runAll, Statement.run, hx, hy, Quantity.of?_eq_some ht.1 ht.2,
    Quantity.of?_eq_some hu.1 hu.2]
  simp only [Option.bind_some, Quantity.compare?, ha, hb, hstop]
  cases stop <;> rfl

variable {total threads : Nat}

theorem inRange_long : ElementType.i64.InRange n ↔ n < 2 ^ 63 :=
  inRange_natCast

/-- The sum comes first, and only the sum can overflow. -/
theorem quantity?_blockCount
    (hcount : (Formula.name .total).quantity? names = Quantity.of? .i64 total)
    (hsize : (Formula.name .threads).quantity? names = Quantity.of? .i32 threads)
    (htotal : total < 2 ^ 63) (hthreads : threads < 2 ^ 31) (hpos : 0 < threads) :
    blockCount.quantity? names = if total + threads < 2 ^ 63
      then Quantity.of? .i64 ((total + threads - 1) / threads : Nat) else none := by
  have hsmall : ElementType.i32.InRange threads := inRange_natCast.2 hthreads
  have hsum : (Formula.operation .add (.name .total) (.name .threads)).quantity? names
      = Quantity.of? .i64 (total + threads : Nat) :=
    quantity?_operation .add hcount hsize ⟨rfl, inRange_long.2 htotal⟩ ⟨rfl, hsmall⟩ rfl
  have hone : (Formula.number 1).quantity? names = Quantity.of? .i32 1 := rfl
  rw [blockCount]
  split
  next h =>
    have hless := quantity?_operation .sub hsum hone ⟨rfl, inRange_long.2 h⟩ ⟨rfl, by decide⟩ rfl
    have hpred : ((total + threads : Nat) : Int) - 1 = (total + threads - 1 : Nat) := by omega
    have hne : (threads : Int) ≠ 0 := by omega
    rw [Quantity.compute?, hpred] at hless
    rw [quantity?_operation .div hless hsize ⟨rfl, inRange_long.2 (by omega)⟩ ⟨rfl, hsmall⟩ rfl,
      Quantity.compute?, if_neg hne, ← Int.ofNat_tdiv]
    rfl
  next h =>
    have hnone : Quantity.of? .i64 (total + threads : Nat) = none :=
      dif_neg fun hrange => h (inRange_long.1 hrange.2)
    exact quantity?_operation_of_none _ (quantity?_operation_of_none _ (hsum.trans hnone))

theorem quantity?_threadIndex {block size thread : Nat}
    (hblock : (Formula.name .block).quantity? names = Quantity.of? .u32 block)
    (hsize : (Formula.name .size).quantity? names = Quantity.of? .u32 size)
    (hthread : (Formula.name .thread).quantity? names = Quantity.of? .u32 thread)
    (hb : block < 2 ^ 32) (hs : size < 2 ^ 32) (ht : thread < 2 ^ 32)
    (hindex : block * size + thread < 2 ^ 63) :
    threadIndex.quantity? names = Quantity.of? .i64 (block * size + thread : Nat) := by
  have hunsigned {n : Nat} (h : n < 2 ^ 32) : ElementType.u32.InRange n :=
    inRange_natCast.2 h
  have hlong : ElementType.i64.wrap block = block :=
    wrap_of_inRange (inRange_long.2 (by omega))
  have hcast := quantity?_cast .long hblock ⟨rfl, hunsigned hb⟩
  rw [Target.type, hlong] at hcast
  have hfirst : (Formula.operation .mul (.cast .long (.name .block)) (.name .size)).quantity? names
      = Quantity.of? .i64 (block * size : Nat) :=
    quantity?_operation .mul hcast hsize ⟨rfl, inRange_long.2 (by omega)⟩ ⟨rfl, hunsigned hs⟩ rfl
  exact quantity?_operation .add hfirst hthread ⟨rfl, inRange_long.2 (by omega)⟩
    ⟨rfl, hunsigned ht⟩ rfl

end Meaning

theorem grid_eq {names : Names} {blocks threads : Nat}
    (hblocks : (Formula.name .blocks).quantity? names = Quantity.of? .i64 blocks)
    (hthreads : (Formula.name .threads).quantity? names = Quantity.of? .i32 threads) (hb : blocks < 2 ^ 63)
    (ht : threads < 2 ^ 31) :
    ((gridBlocks.quantity? names).bind fun blocks => (gridSize.quantity? names).map fun size =>
      (⟨blocks.value.toNat, size.value.toNat⟩ : Grid)) = some ⟨blocks % 2 ^ 32, threads⟩ := by
  have hrange (n : Nat) : ElementType.u32.InRange (n % 2 ^ 32 : Nat) :=
    inRange_natCast.2 (Nat.mod_lt _ (by decide))
  have hfirst : gridBlocks.quantity? names = Quantity.of? .u32 (blocks % 2 ^ 32 : Nat) :=
    quantity?_cast .unsigned hblocks ⟨rfl, inRange_long.2 hb⟩
  have hsmall : ElementType.i32.InRange threads := inRange_natCast.2 ht
  have hsecond : gridSize.quantity? names = Quantity.of? .u32 (threads % 2 ^ 32 : Nat) :=
    quantity?_cast .unsigned hthreads ⟨rfl, hsmall⟩
  have hsame : threads % 2 ^ 32 = threads := Nat.mod_eq_of_lt (by omega)
  rw [hfirst, hsecond, Quantity.of?_eq_some rfl (hrange _), Quantity.of?_eq_some rfl (hrange _)]
  exact congrArg (fun size => some (Grid.mk (blocks % 2 ^ 32) size)) hsame

theorem launch_eq {total threads : Nat} (htotal : total < 2 ^ 63) (hthreads : threads < 2 ^ 31) :
    launch total threads = if threads = 0 then .returned (some 3) else if total = 0
      then .returned (some 0) else if total + threads < 2 ^ 63
      then .reached ⟨(total + threads - 1) / threads % 2 ^ 32, threads⟩ else .undefined := by
  have hsmall : ElementType.i32.InRange threads := inRange_natCast.2 hthreads
  have hlong : ElementType.i64.InRange total := inRange_long.2 htotal
  have hzero (names : Names) : (Formula.number 0).quantity? names = Quantity.of? .i32 0 := rfl
  have hsize : (Formula.name .threads).quantity? (hostNames threads)
      = Quantity.of? .i32 threads := rfl
  rw [launch, launcher, runAll_leave hsize (hzero _) ⟨rfl, hsmall⟩ ⟨rfl, by decide⟩ rfl rfl]
  by_cases hpos : threads = 0
  · have hstop : decide ((threads : Int) ≤ 0) = true := by simp [hpos]
    rw [if_pos hpos, if_pos hstop]
    rfl
  have hgo : ¬ decide ((threads : Int) ≤ 0) = true := by simp [hpos]
  rw [if_neg hpos, if_neg hgo]
  have hliteral : (Formula.long total).quantity? (hostNames threads) = Quantity.of? .i64 total := rfl
  rw [runAll_define hliteral hlong]
  have hcount := quantity?_update_self (hostNames threads) .total (Quantity.of? .i64 total)
  have hkept := quantity?_update_of_ne (m := .total) (by decide) hsize
  rw [runAll_leave hcount (hzero _) ⟨rfl, hlong⟩ ⟨rfl, by decide⟩ rfl rfl]
  by_cases hempty : total = 0
  · have hstop : ((total : Int) == 0) = true := by simp [hempty]
    rw [if_pos hempty, if_pos hstop]
    rfl
  have hgo : ¬ ((total : Int) == 0) = true := by simp [hempty]
  rw [if_neg hempty, if_neg hgo]
  have hblocks := quantity?_blockCount hcount (hkept _) htotal hthreads (Nat.pos_of_ne_zero hpos)
  split
  next h =>
    have hle : (total + threads - 1) / threads < 2 ^ 63 :=
      (Nat.div_le_self _ _).trans_lt (by omega)
    rw [if_pos h] at hblocks
    rw [runAll_define hblocks (inRange_long.2 hle), Statement.runAll, Ending.bind,
      grid_eq (quantity?_update_self _ _ _) (quantity?_update_of_ne (by decide) (hkept _) _) hle hthreads]
    rfl
  next h =>
    rw [if_neg h] at hblocks
    rw [runAll_define_of_none hblocks]
    rfl

theorem Grid.Has.index_lt {grid : Grid} (hp : grid.Has p) :
    p.block * grid.size + p.thread < grid.blocks * grid.size :=
  calc p.block * grid.size + p.thread < p.block * grid.size + grid.size := by have := hp.2; omega
    _ = (p.block + 1) * grid.size := (Nat.succ_mul _ _).symm
    _ ≤ grid.blocks * grid.size := Nat.mul_le_mul_right _ hp.1

/-- No thread is so far out that its index overflows. -/
theorem visit_eq {total : Nat} {grid : Grid} (htotal : total < 2 ^ 63)
    (hblocks : grid.blocks ≤ 2 ^ 32) (hsize : grid.size < 2 ^ 31) (hp : grid.Has p) :
    visit total grid p = if p.block * grid.size + p.thread < total
      then .reached (p.block * grid.size + p.thread : Nat) else .returned none := by
  have hindex : p.block * grid.size + p.thread < 2 ^ 63 :=
    hp.index_lt.trans_le ((Nat.mul_le_mul hblocks hsize.le).trans (by decide))
  obtain ⟨hblock, hthread⟩ := hp
  have hvalue : threadIndex.quantity? (deviceNames total grid p)
      = Quantity.of? .i64 (p.block * grid.size + p.thread : Nat) :=
    quantity?_threadIndex rfl rfl rfl (by omega) (by omega) (by omega) hindex
  rw [visit, opening, runAll_define hvalue (inRange_long.2 hindex)]
  have hfound := quantity?_update_self (deviceNames total grid p) .index
    (Quantity.of? .i64 (p.block * grid.size + p.thread : Nat))
  have hcount : (Formula.name .total).quantity? (deviceNames total grid p)
      = Quantity.of? .i64 total := rfl
  have hkept := quantity?_update_of_ne (m := .index) (by decide) hcount
  rw [runAll_leave hfound (hkept _) ⟨rfl, inRange_long.2 hindex⟩ ⟨rfl, inRange_long.2 htotal⟩ rfl rfl]
  by_cases h : p.block * grid.size + p.thread < total
  · have hgo : ¬ decide (((p.block * grid.size + p.thread : Nat) : Int) ≥ total) = true := by
      rw [decide_eq_true_iff]
      omega
    rw [if_pos h, if_neg hgo, Statement.runAll, Ending.bind]
    rw [Function.update_self, Quantity.of?_eq_some rfl (inRange_long.2 hindex)]
    rfl
  · have hstop : decide (((p.block * grid.size + p.thread : Nat) : Int) ≥ total) = true := by
      rw [decide_eq_true_iff]
      omega
    rw [if_neg h, if_pos hstop]
    rfl

section Coverage

variable {total threads : Nat} {grid : Grid} (htotal : total < 2 ^ 63)

section Started

variable (hblocks : grid.blocks ≤ 2 ^ 32) (hsize : grid.size < 2 ^ 31)
include htotal hblocks hsize

theorem visit_eq_reached_iff (hp : grid.Has p) :
    visit total grid p = .reached k ↔ p.block * grid.size + p.thread = k ∧ k < total := by
  rw [visit_eq htotal hblocks hsize hp]
  split
  next h =>
    rw [Ending.reached.injEq, Nat.cast_inj]
    exact ⟨fun heq => ⟨heq, heq ▸ h⟩, And.left⟩
  next h =>
    constructor
    · intro heq
      cases heq
    · rintro ⟨rfl, hlt⟩
      exact absurd hlt h

theorem existsUnique_visit (hk : k < total) (hlt : k < grid.blocks * grid.size) :
    ∃! p, grid.Has p ∧ visit total grid p = .reached k := by
  have hpos : 0 < grid.size := Nat.pos_of_lt_mul_left hlt
  have hhas : grid.Has ⟨k / grid.size, k % grid.size⟩ :=
    ⟨Nat.div_lt_of_lt_mul (Nat.mul_comm _ _ ▸ hlt), Nat.mod_lt k hpos⟩
  refine ⟨⟨k / grid.size, k % grid.size⟩, ⟨hhas, ?_⟩, ?_⟩
  · exact (visit_eq_reached_iff htotal hblocks hsize hhas).2 ⟨Nat.div_add_mod' k grid.size, hk⟩
  · rintro ⟨block, thread⟩ ⟨hp, hvisit⟩
    have hindex := ((visit_eq_reached_iff htotal hblocks hsize hp).1 hvisit).1
    have hsplit : thread + grid.size * block = k := by
      rw [Nat.add_comm, Nat.mul_comm]
      exact hindex
    obtain ⟨rfl, rfl⟩ := (Nat.div_mod_unique hpos).2 ⟨hsplit, hp.2⟩
    rfl

end Started

theorem le_blocks_mul (hpos : 0 < threads) :
    total ≤ (total + threads - 1) / threads * threads := by
  have h := Nat.lt_div_mul_add (a := total + threads - 1) hpos
  omega

variable (hthreads : threads < 2 ^ 31) (hsome : 0 < total) (hpos : 0 < threads)
include htotal hthreads hsome hpos

theorem launch_of_pos : launch total threads = if total + threads < 2 ^ 63
    then .reached ⟨(total + threads - 1) / threads % 2 ^ 32, threads⟩ else .undefined := by
  rw [launch_eq htotal hthreads, if_neg hpos.ne', if_neg hsome.ne']

/-- The last index decides: where it is run, so are all the others. -/
theorem covers_iff :
    Covers total threads ↔ total + threads < 2 ^ 63 ∧ total ≤ (2 ^ 32 - 1) * threads := by
  have hmod : (total + threads - 1) / threads % 2 ^ 32 < 2 ^ 32 := Nat.mod_lt _ (by decide)
  constructor
  · rintro ⟨grid, hlaunch, -, hall⟩
    rw [launch_of_pos htotal hthreads hsome hpos] at hlaunch
    split at hlaunch
    next hsum =>
      obtain ⟨p, ⟨hp, hvisit⟩, -⟩ := hall (total - 1) (by omega)
      cases hlaunch
      -- Whatever the number of blocks was before it lost its upper bits, 32 of them are left.
      have hlast := ((visit_eq_reached_iff htotal hmod.le hthreads hp).1 hvisit).1
      have hindex := hp.index_lt
      have hle := Nat.mul_le_mul_right threads (Nat.le_sub_one_of_lt hmod)
      exact ⟨hsum, by dsimp only at hlast hindex; omega⟩
    next => cases hlaunch
  · rintro ⟨hsum, hle⟩
    have hlt : (total + threads - 1) / threads < 2 ^ 32 := by
      rw [Nat.div_lt_iff_lt_mul hpos]
      omega
    have hlaunch := launch_of_pos htotal hthreads hsome hpos
    rw [if_pos hsum, Nat.mod_eq_of_lt hlt] at hlaunch
    refine ⟨_, hlaunch, fun p hp => ?_, fun k hk => ?_⟩
    · rw [visit_eq htotal hlt.le hthreads hp]
      split <;> simp
    · exact existsUnique_visit htotal hlt.le hthreads hk (hk.trans_le (le_blocks_mul hpos))

end Coverage

/-- The launcher and the kernel have the texts that are given a meaning here. The launcher starts
blocks of the size it is told to, by the last 32 bits of their number, unless a sum before that
overflows. The started threads have the indices from zero on, each of them one, so every index of
the domain is run by exactly one thread if 32 bits can hold the number of the blocks, and the
indices from the last started thread on are run by none if they cannot. -/
theorem domain_covered_iff (g : Graph) (entry kernel : String) (threads : Nat)
    (hsome : 0 < g.domain.count) (htotal : g.domain.count < 2 ^ 63) (hpos : 0 < threads)
    (hthreads : threads < 2 ^ 31) :
    let total := g.domain.count
    let grid : Grid := ⟨(total + threads - 1) / threads % 2 ^ 32, threads⟩
    g.kernelLines kernel = kernelCode g kernel
    ∧ g.launcherLines entry kernel = launcherCode g entry kernel
    ∧ launch total threads = (if total + threads < 2 ^ 63 then .reached grid else .undefined)
    ∧ (∀ p, grid.Has p → visit total grid p = if p.block * threads + p.thread < total
        then .reached (p.block * threads + p.thread : Nat) else .returned none)
    ∧ (∀ k < total, k < grid.blocks * threads →
        ∃! p, grid.Has p ∧ visit total grid p = .reached k)
    ∧ (∀ k, grid.blocks * threads ≤ k → ∀ p, grid.Has p → visit total grid p ≠ .reached k)
    ∧ (Covers total threads ↔ total + threads < 2 ^ 63 ∧ total ≤ (2 ^ 32 - 1) * threads) := by
  intro total grid
  have hblocks : grid.blocks ≤ 2 ^ 32 := (Nat.mod_lt _ (by decide)).le
  refine ⟨kernelLines_eq g kernel, launcherLines_eq g entry kernel,
    launch_of_pos htotal hthreads hsome hpos, fun p hp => visit_eq htotal hblocks hthreads hp,
    fun k hk hlt => existsUnique_visit htotal hblocks hthreads hk hlt, fun k hk p hp hvisit => ?_,
    covers_iff htotal hthreads hsome hpos⟩
  have hindex := ((visit_eq_reached_iff htotal hblocks hthreads hp).1 hvisit).1
  exact absurd hp.index_lt (hindex ▸ Nat.not_lt.2 hk)

/-- Stores a one at each of `n` positions. -/
def filling (n : Nat) : List Call :=
  [.output ⟨⟨[n]⟩, .i8⟩, .positionIn ⟨[n]⟩,
    .store ⟨1, 0, ⟨⟨[n]⟩, .i8⟩⟩ [.expr ⟨1, 0, .i64⟩] (.literal (.int 1))]

theorem count_of_finish {r : Recording} {name : String} {returned : List OutputTensor} {g : Graph}
    (h : r.finish name returned = .ok g) (hn : r.domain = some ⟨[n]⟩) : g.domain.count = n := by
  have hdomain : g.domain = ⟨[n]⟩ := Option.some.inj ((Recording.finished_of_finish h).domain.symm.trans hn)
  rw [hdomain]
  exact Nat.mul_one n

theorem domain_covered_iff_thousand :
    let s := (Draft.start 1 []).performAll (filling 1000)
    ∃ g, s.recording.finish "filling" [⟨1, 0, ⟨⟨[1000]⟩, .i8⟩⟩] = .ok g ∧ g.domain.count = 1000 ∧
      launch 1000 32 = .reached ⟨32, 32⟩ ∧ Covers 1000 32 := by
  intro s
  obtain ⟨g, hg⟩ := exists_ok_of_isOk (show (s.recording.finish "filling"
    [⟨1, 0, ⟨⟨[1000]⟩, .i8⟩⟩]).isOk = true by decide +kernel)
  have hcount : g.domain.count = 1000 := count_of_finish hg (by decide +kernel)
  obtain ⟨-, -, hlaunch, -, -, -, hcovers⟩ := domain_covered_iff g "filling_cuda" "filling_kernel"
    32 (by rw [hcount]; decide) (by rw [hcount]; decide) (by decide) (by decide)
  rw [hcount] at hlaunch hcovers
  exact ⟨g, hg, hcount, hlaunch, hcovers.2 (by decide)⟩

/-- One more than 32 bits can count: the launcher starts a single thread. -/
theorem wide_domain_not_covered :
    let s := (Draft.start 1 []).performAll (filling 4294967297)
    ∃ g, s.recording.finish "filling" [⟨1, 0, ⟨⟨[4294967297]⟩, .i8⟩⟩] = .ok g ∧
      g.domain.count = 4294967297 ∧ launch g.domain.count 1 = .reached ⟨1, 1⟩ ∧
      (∀ p, Grid.Has ⟨1, 1⟩ p → visit g.domain.count ⟨1, 1⟩ p = .reached 0) ∧
      ¬ Covers g.domain.count 1 := by
  intro s
  obtain ⟨g, hg⟩ := exists_ok_of_isOk (show (s.recording.finish "filling"
    [⟨1, 0, ⟨⟨[4294967297]⟩, .i8⟩⟩]).isOk = true by decide +kernel)
  have hcount : g.domain.count = 4294967297 := count_of_finish hg (by decide +kernel)
  have hlaunch : launch 4294967297 1 = .reached ⟨1, 1⟩ :=
    launch_of_pos (by decide) (by decide) (by decide) (by decide)
  refine ⟨g, hg, hcount, hcount ▸ hlaunch, ?_, ?_⟩ <;> rw [hcount]
  · rintro ⟨block, thread⟩ ⟨hblock, hthread⟩
    cases Nat.lt_one_iff.1 hblock
    cases Nat.lt_one_iff.1 hthread
    exact visit_eq (by decide) (by decide) (by decide) ⟨by decide, by decide⟩
  · rw [covers_iff (by decide) (by decide) (by decide) (by decide)]
    decide

end Launch
end Code
end TensorKernel

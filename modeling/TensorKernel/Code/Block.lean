import TensorKernel.Code.Term
import TensorKernel.Graph.Live

/-! The statements of generated code and their lines. Both kinds of source file
share the block that runs at one position. -/
namespace TensorKernel.Code

mutual

inductive Command where
  | define (type : ElementType) (node : NodeId) (value : Term)
  | declare (type : ElementType) (slot : VarId) (value : Reference)
  | assign (slot : VarId) (value : Reference)
  | store (output : Nat) (offset : List Stride) (value : Reference)
  | cond (arms : List Arm)

inductive Arm where
  | mk (guard : Option Reference) (body : List Command)

end

structure Line where
  depth : Nat
  text : String

def Line.print (l : Line) : String := "".pushn ' ' (4 * l.depth) ++ l.text ++ "\n"

def printLines (ls : List Line) : String := String.join (ls.map Line.print)

/-- The line that opens a branch and, after the first, closes the one before. -/
def openingText (first : Bool) (guard : Option Reference) : String :=
  match first, guard with
  | true, some g => "if (" ++ g.text ++ ") \x7b"
  | true, none => "if (true) \x7b"
  | false, some g => "\x7d else if (" ++ g.text ++ ") \x7b"
  | false, none => "\x7d else \x7b"

mutual

def Command.lines (depth : Nat) : Command → List Line
  | .define type e value =>
    [⟨depth, "const " ++ type.spelling ++ " e" ++ toString e ++ " = " ++ value.text ++ ";"⟩]
  | .declare type v value =>
    [⟨depth, type.spelling ++ " v" ++ toString v ++ " = " ++ value.text ++ ";"⟩]
  | .assign v value => [⟨depth, "v" ++ toString v ++ " = " ++ value.text ++ ";"⟩]
  | .store k offset value =>
    [⟨depth, "out" ++ toString k ++ "[" ++ offsetText offset ++ "] = " ++ value.text ++ ";"⟩]
  | .cond [] => []
  | .cond arms => armLines depth true arms ++ [⟨depth, "\x7d"⟩]

def blockLines (depth : Nat) : List Command → List Line
  | [] => []
  | c :: rest => c.lines depth ++ blockLines depth rest

def armLines (depth : Nat) (first : Bool) : List Arm → List Line
  | [] => []
  | .mk guard body :: rest =>
    ⟨depth, openingText first guard⟩ :: blockLines (depth + 1) body ++ armLines depth false rest

end

end Code

namespace Graph
open Code

/-- A bound node becomes a definition if its value is needed and it has a name. -/
def definition (g : Graph) (live : Array Bool) (e : NodeId) : List Command :=
  match g.nodes[e]? with
  | some node =>
    if live[e]?.getD false && !node.op.isInline then [.define node.type e (g.term node)] else []
  | none => []

mutual

def command (g : Graph) (live : Array Bool) : Stmt → List Command
  | .bind e => g.definition live e
  | .declare slot init =>
    let type := g.slots[slot]?.getD .bool
    [.declare type slot (g.reference init type)]
  | .assign slot value => [.assign slot (g.reference value (g.slots[slot]?.getD .bool))]
  | .store output indices value =>
    match g.outputs[output]? with
    | some type => [.store output (g.offset type indices) (g.reference value type.element)]
    | none => []
  | .cond branches => [.cond (g.arms live branches)]

def commands (g : Graph) (live : Array Bool) : List Stmt → List Command
  | [] => []
  | s :: rest => g.command live s ++ g.commands live rest

def arms (g : Graph) (live : Array Bool) : List Branch → List Arm
  | [] => []
  | .mk guard body :: rest =>
    .mk (guard.map (g.reference · .bool)) (g.commands live body) :: g.arms live rest

end

def code (g : Graph) : List Command := g.commands g.live g.body

end Graph
end TensorKernel

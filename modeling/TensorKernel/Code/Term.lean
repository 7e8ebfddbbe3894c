import TensorKernel.Graph.Basic

/-! Right-hand sides of the generated statements. Every operand is the name or
literal of one node, so terms do not nest. -/
namespace TensorKernel.Code

inductive Atom where
  | literal (value : Literal) (type : ElementType)
  | position (axis : Nat)
  | node (id : NodeId)

def Atom.text : Atom → String
  | literal v type => v.spelling type
  | position axis => "p" ++ toString axis
  | node e => "e" ++ toString e

def castText (spelling inside : String) : String :=
  "static_cast<" ++ spelling ++ ">(" ++ inside ++ ")"

/-- The value of a node, converted to another type if one is given. -/
structure Reference where
  conversion : Option ElementType
  atom : Atom

def Reference.text (r : Reference) : String :=
  match r.conversion with
  | none => r.atom.text
  | some t => castText t.spelling r.atom.text

structure Stride where
  index : Reference
  step : Nat

def Stride.text (s : Stride) : String :=
  if s.step = 1 then s.index.text else s.index.text ++ " * " ++ toString s.step ++ "LL"

def offsetText : List Stride → String
  | [] => "0"
  | strides => " + ".intercalate (strides.map Stride.text)

inductive Term where
  | load (input : Nat) (offset : List Stride)
  | atom (value : Atom)
  | slot (id : VarId)
  | convert (type : ElementType) (arg : Atom)
  | negate (arg : Atom)
  /-- Zero minus the argument, in an unsigned type that wraps. -/
  | negateIn (carrier type : ElementType) (arg : Atom)
  | not (arg : Reference)
  | call (function : String) (args : List Reference)
  | truth (value : Bool)
  /-- An operation in an unsigned type that wraps. -/
  | wrapped (symbol : String) (carrier type : ElementType) (lhs rhs : Reference)
  | converted (symbol : String) (type : ElementType) (lhs rhs : Reference)
  | grouped (symbol : String) (lhs rhs : Reference)

def between (lhs symbol rhs : String) : String := lhs ++ " " ++ symbol ++ " " ++ rhs

def Term.text : Term → String
  | load k offset => "in" ++ toString k ++ "[" ++ offsetText offset ++ "]"
  | atom a => a.text
  | slot v => "v" ++ toString v
  | convert t a => castText t.spelling a.text
  | negate a => "-(" ++ a.text ++ ")"
  | negateIn carrier t a => castText t.spelling
      (between (castText carrier.spelling "0") "-" (castText carrier.spelling a.text))
  | not r => "!(" ++ r.text ++ ")"
  | call f args => f ++ "(" ++ ", ".intercalate (args.map Reference.text) ++ ")"
  | truth b => toString b
  | wrapped symbol carrier t a b => castText t.spelling
      (between (castText carrier.spelling a.text) symbol (castText carrier.spelling b.text))
  | converted symbol t a b => castText t.spelling (between a.text symbol b.text)
  | grouped symbol a b => "(" ++ between a.text symbol b.text ++ ")"

def precise (function : String) (t : ElementType) : String :=
  if t = .f32 then function ++ "f" else function

end Code

namespace Graph
open Code

def atom (g : Graph) (e : NodeId) : Atom :=
  match g.nodes[e]? with
  | some ⟨.constant v, type, _⟩ => .literal v type
  | some ⟨.position axis, _, _⟩ => .position axis
  | _ => .node e

def reference (g : Graph) (e : NodeId) (t : ElementType) : Reference :=
  match g.nodes[e]? with
  | some ⟨.constant v, _, _⟩ => ⟨none, .literal v t⟩
  | _ => ⟨if g.nodeType e = t then none else some t, g.atom e⟩

/-- Row-major offset with the strides of the captured shape written out. -/
def offset (g : Graph) (type : TensorType) (indices : List NodeId) : List Stride :=
  List.zipWith (fun index step => ⟨g.reference index .i64, step⟩) indices type.shape.strides

def unaryTerm (g : Graph) (op : UnaryOp) (arg : NodeId) (type : ElementType) : Term :=
  let a := g.atom arg
  let plain : Reference := ⟨none, a⟩
  match op with
  | .neg => if type.isFloat then .negate a else .negateIn type.carrier type a
  | .not => .not (g.reference arg .bool)
  | .abs =>
    if type.isFloat then .call (precise "fabs" type) [plain]
    else if type.isSigned then .call "opvec_abs" [plain]
    else .atom a
  | .floor | .ceil =>
    if type.isFloat then .call (precise op.name type) [plain] else .atom a
  | .isInf | .isNan | .isFinite =>
    if (g.nodeType arg).isFloat then .call ("opvec_" ++ op.name) [plain]
    else .truth (op = .isFinite)
  | _ => .call (precise op.name type) [g.reference arg type]

def binaryTerm (g : Graph) (op : BinaryOp) (lhs rhs : NodeId) (type : ElementType) : Term :=
  let operand := op.operandType (g.nodeType lhs) (g.nodeType rhs)
  let a := g.reference lhs operand
  let b := g.reference rhs operand
  let symbol := op.symbol?.getD ""
  match op with
  | .add | .sub | .mul =>
    if operand.isIntegral then .wrapped symbol operand.carrier type a b
    else .grouped symbol a b
  | .div =>
    if operand.isIntegral then .converted symbol type a b else .grouped symbol a b
  | .mod =>
    if operand.isFloat then .call (precise "fmod" operand) [a, b]
    else .converted symbol type a b
  | .min => .call ("opvec_min<" ++ operand.spelling ++ ">") [a, b]
  | .max => .call ("opvec_max<" ++ operand.spelling ++ ">") [a, b]
  | .pow => .call (precise "pow" operand) [a, b]
  | .atan2 => .call (precise "atan2" operand) [a, b]
  | _ => .grouped symbol a b

def term (g : Graph) (node : Node) : Term :=
  match node.op with
  | .input k indices => .load k (match g.inputs[k]? with
    | some type => g.offset type indices
    | none => [])
  | .constant v => .atom (.literal v node.type)
  | .position axis => .atom (.position axis)
  | .unary op arg => g.unaryTerm op arg node.type
  | .binary op lhs rhs => g.binaryTerm op lhs rhs node.type
  | .cast arg => .convert node.type (g.atom arg)
  | .read slot => .slot slot

end Graph
end TensorKernel

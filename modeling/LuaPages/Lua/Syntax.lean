import LuaPages.Lua.Token
/-!
Chunks as trees in which every name is resolved: a local variable of the function by its slot, an
outer variable by its position among the function's upvalues. Each operation that can fail keeps
the line that a failure is reported at.
-/
namespace LuaPages.Lua

inductive Constant where
  | nil
  | bool (b : Bool)
  | number (n : Number)
  | string (s : Bytes)

inductive Variable where
  | «local» (slot : Nat) (name : Bytes)
  | upvalue (index : Nat) (name : Bytes)

def Variable.name : Variable → Bytes
  | .local _ n | .upvalue _ n => n

inductive ArithOp where
  | add | sub | mul | mod | pow | div | floorDiv | band | bor | bxor | shiftLeft | shiftRight
  | negate | complement
  deriving DecidableEq, Repr

inductive CompareOp where
  | eq | ne | lt | le | gt | ge
  deriving DecidableEq, Repr

inductive UpvalueSource where
  | enclosingLocal (slot : Nat)
  | enclosingUpvalue (index : Nat)

/-- What a function needs at run time beside its body. Slots that inner functions refer to are
`captured` and live in cells. -/
structure FunctionInfo where
  chunk : Bytes
  params : Nat
  isVararg : Bool
  slots : Nat
  captured : Array Bool
  upvalues : Array (Bytes × UpvalueSource)

mutual

inductive Expr where
  | const (c : Constant)
  | vararg
  | var (v : Variable)
  | index (object key : Expr) (line : Nat)
  | call (f : Expr) (args : List Expr) (line : Nat)
  | method (object : Expr) (name : Bytes) (args : List Expr) (nameLine line : Nat)
  | function (f : Function)
  | not (e : Expr)
  | length (e : Expr) (line : Nat)
  | unary (op : ArithOp) (e : Expr) (line : Nat)
  | arith (op : ArithOp) (a b : Expr) (line : Nat)
  | compare (op : CompareOp) (a b : Expr) (line : Nat)
  | concat (parts : List Expr) (line : Nat)
  | and (a b : Expr)
  | or (a b : Expr)
  | paren (e : Expr)
  | table (fields : List Field)

inductive Field where
  | item (e : Expr)
  | pair (key value : Expr) (line : Nat)

inductive Stat where
  | call (e : Expr)
  | declare (slots : List Nat) (values : List Expr)
  /-- Like `declare`, with one variable closed when the rest of the block is left. -/
  | declareClose (slots : List Nat) (values : List Expr) (slot : Nat) (name : Bytes) (line : Nat)
  | assign (targets : List Expr) (values : List Expr) (line : Nat)
  | localFunction (slot : Nat) (f : Function)
  | block (body : List Stat)
  | «while» (cond : Expr) (body : List Stat)
  | «repeat» (body : List Stat)
  | «until» (cond : Expr)
  | branch (arms : List (Expr × List Stat)) (otherwise : List Stat)
  | count (slot : Nat) (first limit : Expr) (step : Option Expr) (body : List Stat) (line : Nat)
  | iterate (slots : List Nat) (values : List Expr) (body : List Stat) (line : Nat)
  | «return» (values : List Expr)
  | tailCall (e : Expr)
  | «break»
  | goto (label : Bytes)
  | label (name : Bytes)

inductive Function where
  | mk (info : FunctionInfo) (body : List Stat)

end

def Function.info : Function → FunctionInfo
  | .mk i _ => i

def Function.body : Function → List Stat
  | .mk _ b => b

instance : Inhabited Expr := ⟨.vararg⟩
instance : Inhabited Stat := ⟨.break⟩

namespace Expr

/-- An index is charged to the line on which its value is first needed. -/
def settle (line : Nat) : Expr → Expr
  | .index o k _ => .index o k line
  | e => e

def isOpen : Expr → Bool
  | .call .. | .method .. | .vararg => true
  | _ => false

def environment : Bytes := "_ENV"

def describe : Expr → Option (String × Bytes)
  | .var (.local _ n) => some ("local", n)
  | .var (.upvalue _ n) => some ("upvalue", n)
  | .const (.string s) => some ("constant", s)
  | .paren e => e.describe
  | .index o k _ =>
    let kind := match o with
      | .var v => if v.name == environment then "global" else "field"
      | _ => "field"
    match k with
    | .const (.string s) => some (kind, s)
    | .const (.number (.int n)) =>
      if 0 ≤ n.toInt ∧ n.toInt ≤ 255 then some ("field", "integer index") else some (kind, "?")
    | _ => some (kind, "?")
  | _ => none

end Expr

inductive LoadFault where
  | malformed (f : SyntaxFault)
  | tooDeep

end LuaPages.Lua

import LuaPages.Lua.Syntax

namespace LuaPages.Lua

inductive Mutability where
  | regular
  | constant
  | closed
  /-- A constant whose value is known while reading and that needs no slot. -/
  | known (c : Constant)

def Mutability.isReadOnly : Mutability → Bool
  | .regular => false
  | _ => true

structure ScopeVar where
  name : Bytes
  slot : Nat
  mutability : Mutability

structure ScopeUpvalue where
  name : Bytes
  source : UpvalueSource
  readOnly : Bool

structure Label where
  name : Bytes
  line : Nat
  active : Nat

structure PendingJump where
  name : Bytes
  line : Nat
  active : Nat

structure BlockScope where
  isLoop : Bool
  active : Nat
  closes : Bool
  labels : List Label
  jumps : List PendingJump

/-- A function being read. `vars` has the innermost variable first; `registers` counts the values
that are alive at once. -/
structure FunctionScope where
  line : Nat
  isVararg : Bool
  vars : List ScopeVar
  upvalues : Array ScopeUpvalue
  captured : Array Bool
  blocks : List BlockScope
  registers : Nat

namespace FunctionScope

def opening (line : Nat) (isVararg : Bool) : FunctionScope :=
  ⟨line, isVararg, [], #[], #[], [⟨false, 0, false, [], []⟩], 0⟩

def active (s : FunctionScope) : Nat := s.vars.length

def localRegisters (s : FunctionScope) : Nat :=
  s.vars.countP fun v => match v.mutability with | .known _ => false | _ => true

def newSlot (s : FunctionScope) : Nat × FunctionScope :=
  (s.captured.size, { s with captured := s.captured.push false })

def capture (s : FunctionScope) (slot : Nat) : FunctionScope :=
  { s with captured := s.captured.setIfInBounds slot true }

def findLabel? (s : FunctionScope) (name : Bytes) : Option Label :=
  s.blocks.findSome? fun b => b.labels.find? fun l => l.name == name

def mapBlock (s : FunctionScope) (f : BlockScope → BlockScope) : FunctionScope :=
  match s.blocks with
  | b :: bs => { s with blocks := f b :: bs }
  | [] => s

def insideClose (s : FunctionScope) : Bool := (s.blocks.head?.map (·.closes)).getD false

def enterBlock (s : FunctionScope) (isLoop : Bool) : FunctionScope :=
  { s with blocks := ⟨isLoop, s.active, s.insideClose, [], []⟩ :: s.blocks }

def variableAt (s : FunctionScope) (i : Nat) : Bytes :=
  (s.vars.reverse[i]?.map (·.name)).getD "?"

/-- Adds a label to the innermost block and takes out the jumps it ends; the first jump into the
scope of a variable is an error. -/
def addLabel (s : FunctionScope) (l : Label) : Except PendingJump FunctionScope :=
  match s.blocks with
  | [] => .ok s
  | b :: bs =>
    match b.jumps.find? fun j => j.name == l.name && j.active < l.active with
    | some j => .error j
    | none =>
      .ok { s with blocks := { b with
        labels := l :: b.labels
        jumps := b.jumps.filter fun j => j.name != l.name } :: bs }

/-- Leaves the innermost block; a `break` of a loop ends here, other jumps go on outside. The first
jump that leaves the function is an error. -/
def leaveBlock (s : FunctionScope) : Except PendingJump FunctionScope :=
  match s.blocks with
  | [] => .ok s
  | b :: bs =>
    let vars := s.vars.drop (s.vars.length - b.active)
    let jumps := if b.isLoop then b.jumps.filter fun j => j.name != ("break" : Bytes) else b.jumps
    match bs with
    | [] => match jumps with
      | j :: _ => .error j
      | [] => .ok { s with vars := vars, blocks := [] }
    | outer :: rest =>
      let moved := jumps.map fun j => { j with active := min j.active b.active }
      .ok { s with
        vars := vars
        blocks := { outer with jumps := outer.jumps ++ moved } :: rest }

end FunctionScope

inductive Resolution where
  | slot (v : ScopeVar)
  | upvalue (index : Nat) (readOnly : Bool)
  | known (c : Constant)
  | global

/-- Looks a name up from the innermost function outwards. Each function in between gets an upvalue;
one that would have more than 255 of them is an error. -/
def resolve (name : Bytes) : List FunctionScope → Except FunctionScope (Resolution × List FunctionScope)
  | [] => .ok (.global, [])
  | s :: outer =>
    match s.vars.find? fun v => v.name == name with
    | some v => match v.mutability with
      | .known c => .ok (.known c, s :: outer)
      | _ => .ok (.slot v, s :: outer)
    | none =>
      match s.upvalues.findIdx? fun u => u.name == name with
      | some i => .ok (.upvalue i ((s.upvalues[i]?.map (·.readOnly)).getD false), s :: outer)
      | none => do
        let add (u : ScopeUpvalue) (outer : List FunctionScope) :=
          if 255 ≤ s.upvalues.size then Except.error s
          else .ok (Resolution.upvalue s.upvalues.size u.readOnly,
            { s with upvalues := s.upvalues.push u } :: outer)
        match ← resolve name outer with
        | (.slot v, o :: os) =>
          add ⟨name, .enclosingLocal v.slot, v.mutability.isReadOnly⟩ (o.capture v.slot :: os)
        | (.upvalue i readOnly, outer) => add ⟨name, .enclosingUpvalue i, readOnly⟩ outer
        | (r, outer) => .ok (r, s :: outer)

end LuaPages.Lua

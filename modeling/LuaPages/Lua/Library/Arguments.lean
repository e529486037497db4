import LuaPages.Lua.Operation

namespace LuaPages.Lua

abbrev Arguments := List Value

namespace Arguments

variable {α : Type}

def at? (args : Arguments) (i : Nat) : Option Value := args[i - 1]?

def get (args : Arguments) (i : Nat) : Value := (args.at? i).getD .nil

def isAbsent (args : Arguments) (i : Nat) : Bool := (args.get i).isNil

/-- Fails on an argument. A method does not count the value that it is called on. -/
def refuse (i : Nat) (why : Bytes) : Script α := do
  let (kind, name) ← Script.read fun s => s.active.name
  let i' := if kind = "method" then i - 1 else i
  if kind = "method" && i' = 0 then
    Script.failCaller (("calling '" : Bytes) ++ name ++ "' on bad self (" ++ why ++ ")")
  else
    let name : Bytes := if name.isEmpty then "?" else name
    Script.failCaller (("bad argument #" : Bytes) ++ Bytes.ofNat i' ++ " to '" ++ name ++ "' (" ++ why ++ ")")

def refuseType (args : Arguments) (i : Nat) (wanted : String) : Script α := do
  let got ← match args.at? i with
    | some v => Script.typeText v
    | none => pure "no value"
  refuse i (wanted ++ " expected, got " ++ got)

def any (args : Arguments) (i : Nat) : Script Value :=
  match args.at? i with
  | some v => pure v
  | none => refuse i "value expected"

def table (args : Arguments) (i : Nat) : Script Nat :=
  match args.get i with
  | .table id => pure id
  | _ => args.refuseType i "table"

def number (args : Arguments) (i : Nat) : Script Number :=
  match (args.get i).toNumber? with
  | some n => pure n
  | none => args.refuseType i "number"

def real (args : Arguments) (i : Nat) : Script Binary64 := do return (← args.number i).toBinary64

def int (args : Arguments) (i : Nat) : Script Int64 :=
  match (args.get i).toNumber? with
  | some n =>
    match n.toInt? with
    | some k => pure k
    | none => refuse i "number has no integer representation"
  | none => args.refuseType i "number"

def intD (args : Arguments) (i : Nat) (d : Int64) : Script Int64 :=
  if args.isAbsent i then pure d else args.int i

def bytes (args : Arguments) (i : Nat) : Script Bytes :=
  match (args.get i).joinText? with
  | some s => pure s
  | none => args.refuseType i "string"

def bytesD (args : Arguments) (i : Nat) (d : Bytes) : Script Bytes :=
  if args.isAbsent i then pure d else args.bytes i

def function (args : Arguments) (i : Nat) : Script Value :=
  if (args.get i).isFunction then return args.get i else args.refuseType i "function"

def require (holds : Bool) (i : Nat) (why : String) : Script Unit :=
  if holds then pure () else refuse i why

def option (args : Arguments) (i : Nat) (d : String) (options : List String) : Script String := do
  let s ← args.bytesD i d
  match options.find? fun o => o.toUTF8 == s with
  | some o => return o
  | none => refuse i (("invalid option '" : Bytes) ++ s ++ "'")

end Arguments

end LuaPages.Lua

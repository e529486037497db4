import LuaPages.Lua.Syntax

namespace LuaPages.Lua

inductive BaseFunction where
  | assert | collectgarbage | dofile | error | getmetatable | ipairs | load | loadfile | next | pairs
  | pcall | rawequal | rawget | rawlen | rawset | require | select | setmetatable | tonumber | tostring
  | type | warn | xpcall
  deriving DecidableEq, Repr

inductive StringFunction where
  | byte | char | dump | find | format | gmatch | gsub | len | lower | «match» | pack | packsize | rep
  | reverse | sub | unpack | upper
  deriving DecidableEq, Repr

inductive TableFunction where
  | concat | insert | move | pack | remove | sort | unpack
  deriving DecidableEq, Repr

inductive MathFunction where
  | abs | acos | asin | atan | ceil | cos | deg | exp | floor | fmod | log | max | min | modf | rad
  | random | randomseed | sin | sqrt | tan | tointeger | type | ult
  deriving DecidableEq, Repr

inductive Utf8Function where
  | char | codepoint | codes | len | offset
  deriving DecidableEq, Repr

inductive CoroutineFunction where
  | close | create | isyieldable | resume | running | status | wrap | yield
  deriving DecidableEq, Repr

inductive OsFunction where
  | clock | date | difftime | execute | exit | getenv | remove | rename | setlocale | time | tmpname
  deriving DecidableEq, Repr

inductive IoFunction where
  | close | flush | input | lines | open | output | popen | read | tmpfile | type | write
  deriving DecidableEq, Repr

inductive PackageFunction where
  | loadlib | searchpath
  deriving DecidableEq, Repr

inductive Builtin where
  | base (f : BaseFunction)
  | string (f : StringFunction)
  | table (f : TableFunction)
  | math (f : MathFunction)
  | utf8 (f : Utf8Function)
  | coroutine (f : CoroutineFunction)
  | os (f : OsFunction)
  | io (f : IoFunction)
  | package (f : PackageFunction)
  | stringArith (op : ArithOp)
  /-- A `print` that writes to a sink; each registration makes a new one. -/
  | print (serial sink : Nat)
  | ipairsStep
  | codesStep (lax : Bool)
  | gmatchStep (id : Nat)
  | wrapped (thread : Nat)
  | assign
  | describe
  deriving DecidableEq, Repr

inductive Value where
  | nil
  | bool (b : Bool)
  | number (n : Number)
  | string (s : Bytes)
  | table (id : Nat)
  | closure (id : Nat)
  | builtin (f : Builtin)
  | thread (id : Nat)
  /-- A failure inside a conversion to text, as a value that scripts can catch. -/
  | failure (id : Nat)
  deriving DecidableEq

instance : Inhabited Value := ⟨.nil⟩

namespace Value

def int (n : Int64) : Value := .number (.int n)

def float (x : Binary64) : Value := .number (.float x)

def ofInt (i : Int) : Value := .int (.ofInt i)

def ofNat (n : Nat) : Value := .int (.ofNat n)

def text (s : String) : Value := .string s

def ofConstant : Constant → Value
  | .nil => .nil
  | .bool b => .bool b
  | .number n => .number n
  | .string s => .string s

def isNil : Value → Bool
  | .nil => true
  | _ => false

def truthy : Value → Bool
  | .nil | .bool false => false
  | _ => true

def isFunction : Value → Bool
  | .closure _ | .builtin _ => true
  | _ => false

def typeName : Value → String
  | .nil => "nil"
  | .bool _ => "boolean"
  | .number _ => "number"
  | .string _ => "string"
  | .table _ => "table"
  | .closure _ | .builtin _ => "function"
  | .thread _ => "thread"
  | .failure _ => "userdata"

/-- Equality without metamethods. Numbers are equal by value across their two kinds. -/
def rawEqual : Value → Value → Bool
  | .number (.float x), .number (.float y) => x.eq y
  | .number (.int n), .number (.float x) | .number (.float x), .number (.int n) =>
    Binary64.compareInt n.toInt x == some .eq
  | a, b => a = b

end Value

def Value.toNumber? : Value → Option Number
  | .number n => some n
  | .string s => Numeral.ofBytes? s
  | _ => none

def Value.toInt? (v : Value) : Option Int64 := v.toNumber?.bind Number.toInt?

end LuaPages.Lua

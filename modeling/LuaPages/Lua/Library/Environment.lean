import LuaPages.Lua.Library.Arguments
import LuaPages.Lua.Calendar

namespace LuaPages.Lua.Environment

open Script

/-- How much processor time one look at the clock takes. -/
def clockStep : Nat := 1

def clockUnits : Nat := 10000

def clock : Script (List Value) := do
  let t ← update fun s => (s.clock, { s with clock := s.clock + clockStep })
  return [.float (.ofRatio false t clockUnits)]

/-- The moment at which all scripts start. -/
def startTime : Int := 1700000000

def now : Script Int := read fun s => startTime + s.clock / clockUnits

def field (t : Value) (key : String) (default : Option Int) (base : Int) : Script Int := do
  let quoted : Bytes := ("field '" : Bytes) ++ key ++ "'"
  match ← index t (.text key) none none with
  | .nil =>
    match default with
    | some d => return d
    | none => failCaller (quoted ++ " missing in date table")
  | v =>
    match v.toInt? with
    | none => failCaller (quoted ++ " is not an integer")
    | some n =>
      let n := n.toInt
      if (if 0 ≤ n then n - base ≤ 0x7FFFFFFF else base - 0x80000000 ≤ n) then return n - base
      else failCaller (quoted ++ " is out-of-bound")

def setFields (id : Nat) (m : Moment) (summer : Value) : Script Unit :=
  changeTable id fun t =>
    let t := (t.setText "year" (.ofInt m.year)).setText "month" (.ofNat m.month)
    let t := (t.setText "day" (.ofNat m.day)).setText "hour" (.ofNat m.hour)
    let t := (t.setText "min" (.ofNat m.minute)).setText "sec" (.ofNat m.second)
    let t := (t.setText "yday" (.ofNat m.yearDay)).setText "wday" (.ofNat (m.weekday + 1))
    t.setText "isdst" summer

def time (args : Arguments) : Script (List Value) := do
  if args.isAbsent 1 then return [.ofInt (← now)]
  let id ← args.table 1
  let t := Value.table id
  let year ← field t "year" none 1900
  let month ← field t "month" none 1
  let day ← field t "day" none 0
  let hour ← field t "hour" (some 12) 0
  let minute ← field t "min" (some 0) 0
  let second ← field t "sec" (some 0) 0
  let s := Moment.seconds (year + 1900) (month + 1) day hour minute second
  setFields id (.ofSeconds s) (.bool false)
  if s = -1 then failCaller "time result cannot be represented in this installation"
  return [.ofInt s]

def formatDate (m : Moment) : List UInt8 → Bytes → Except Bytes Bytes
  | [], acc => .ok acc
  | 37 :: rest, acc =>
    let shown (c : UInt8) : Option String := m.conversion? (Char.ofNat c.toNat)
    match rest with
    | [] => .error .empty
    | 69 :: c :: r =>
      if ([99, 67, 120, 88, 121, 89] : List UInt8).contains c then
        formatDate m r (acc ++ ((shown c).getD "").toUTF8)
      else .error (.ofList [69, c])
    | 79 :: c :: r =>
      if ([100, 101, 72, 73, 109, 77, 83, 117, 85, 86, 119, 87, 121] : List UInt8).contains c then
        formatDate m r (acc ++ ((shown c).getD "").toUTF8)
      else .error (.ofList [79, c])
    | c :: r =>
      match shown c with
      | some s => formatDate m r (acc ++ s.toUTF8)
      | none => .error (.singleton c)
  | c :: rest, acc => formatDate m rest (acc.push c)

def date (args : Arguments) : Script (List Value) := do
  let pattern ← args.bytesD 1 "%c"
  let t ← if args.isAbsent 2 then now else (·.toInt) <$> args.int 2
  let m := Moment.ofSeconds t
  let chars := match pattern.data.toList with
    | 33 :: r => r
    | r => r
  match chars with
  | 42 :: 116 :: _ =>
    match ← newTable (.create 0 9) with
    | .table id =>
      setFields id m (.bool false)
      return [.table id]
    | v => return [v]
  | _ =>
    match formatDate m chars .empty with
    | .ok b => return [.string b]
    | .error c => Arguments.refuse 1 (("invalid conversion specifier '%" : Bytes) ++ c ++ "'")

def difftime (args : Arguments) : Script (List Value) := do
  let a ← args.int 1
  let b ← args.int 2
  return [.float ((Binary64.ofInt a.toInt).sub (.ofInt b.toInt))]

def missing (name : Bytes) : List Value :=
  [.nil, .string (name ++ ": No such file or directory"), .int 2]

def setlocale (args : Arguments) : Script (List Value) := do
  let l ← args.bytesD 1 .empty
  return [if l.isEmpty || l == ("C" : Bytes) then .text "C" else .nil]

def run (f : OsFunction) (args : Arguments) : Script (List Value) :=
  match f with
  | .clock => clock
  | .date => date args
  | .difftime => difftime args
  | .execute => do return if args.isAbsent 1 then [.bool false] else [.nil, .text "exit", .int 127]
  | .exit => failCaller "a script cannot end the program"
  | .getenv => do
    let _ ← args.bytes 1
    return [.nil]
  | .remove => do return missing (← args.bytes 1)
  | .rename => do
    let name ← args.bytes 1
    let _ ← args.bytes 2
    return missing name
  | .setlocale => setlocale args
  | .time => time args
  | .tmpname => failCaller "unable to generate a unique filename"

def runIo (f : IoFunction) (args : Arguments) : Script (List Value) :=
  match f with
  | .open => do return missing (← args.bytes 1)
  | .type => do
    let _ ← args.any 1
    return [.nil]
  | _ => failCaller "a script has no files"

def runPackage (f : PackageFunction) (args : Arguments) : Script (List Value) := do
  let name ← args.bytes 1
  let _ ← args.bytes 2
  match f with
  | .loadlib => return [.nil, .text "dynamic libraries not enabled; check your Lua installation", .text "absent"]
  | .searchpath => return [.nil, .string (("no file '" : Bytes) ++ name ++ "'")]

end LuaPages.Lua.Environment

import LuaPages.CommandLine.Run

namespace LuaPages.CommandLine

def systemErrorNumber : IO.Error → Nat
  | .noFileOrDirectory _ n _ => n.toInt32.toInt.natAbs
  | .permissionDenied _ n _ => n.toInt32.toInt.natAbs
  | .inappropriateType _ n _ => n.toInt32.toInt.natAbs
  | .invalidArgument _ n _ => n.toInt32.toInt.natAbs
  | .otherError n _ => n.toInt32.toInt.natAbs
  | _ => 0

def systemError (e : IO.Error) : FileError :=
  match systemErrorNumber e with
  | 2 => .missing
  | 13 => .denied
  | 20 => .notDirectory
  | 21 => .isDirectory
  | 36 => .nameTooLong
  | _ => .other (toString e)

def readSystemFile (path : String) : IO (Except FileError Bytes) := do
  if path.toList.contains '\x00' then return .error .zeroByte
  try
    return .ok (← IO.FS.readBinFile path)
  catch e =>
    return .error (systemError e)

/-- The files of the system. A path that cannot be read because it is a directory leads to one. -/
def systemFiles : FileAccess IO where
  look path := do
    match ← readSystemFile path with
    | .ok _ => return .ok .file
    | .error .isDirectory => return .ok .directory
    | .error e => return .error e
  read := readSystemFile

/-- The environment of the process. The user database is not asked for a home. -/
def systemEnvironment : IO Environment := do
  let home := (← IO.getEnv "HOME").filter (!·.isEmpty)
  return ⟨← IO.getEnv "LUASP_CONFIG", ← IO.getEnv "XDG_CONFIG_HOME", home⟩

end LuaPages.CommandLine

open LuaPages in
def main (args : List String) : IO UInt32 := do
  let stdin ← IO.getStdin
  let e ← CommandLine.run CommandLine.systemFiles (← CommandLine.systemEnvironment) args stdin.readBinToEnd
  let stdout ← IO.getStdout
  stdout.write e.stdout
  stdout.flush
  (← IO.getStderr).write e.stderr
  return e.code.toUInt32

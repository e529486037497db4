import LuaPages.Lua.Library.Arithmetic
import LuaPages.Lua.Library.Base
import LuaPages.Lua.Library.Environment
import LuaPages.Lua.Library.Print
import LuaPages.Lua.Library.Sequence
import LuaPages.Lua.Library.Strings
import LuaPages.Lua.Library.Threads
import LuaPages.Lua.Library.Utf8Text

namespace LuaPages.Lua

def Builtin.run (b : Builtin) (args : Arguments) : Script (List Value) :=
  match b with
  | .base f => Base.run f args
  | .string f => Strings.run f args
  | .table f => Sequence.run f args
  | .math f => Arithmetic.run f args
  | .utf8 f => Utf8Text.run f args
  | .coroutine f => Threads.run f args
  | .os f => Environment.run f args
  | .io f => Environment.runIo f args
  | .package f => Environment.runPackage f args
  | .stringArith op => Strings.arith op args
  | .print _ sink => Print.run sink args
  | .ipairsStep => Base.ipairsStep args
  | .codesStep lax => Utf8Text.codesStep lax args
  | .gmatchStep id => Strings.gmatchStep id
  | .wrapped thread => Threads.wrapped thread args
  | .assign => do
    Script.setIndex (args.get 1) (args.get 2) (args.get 3) none none
    return []
  | .describe => Print.describe args

end LuaPages.Lua

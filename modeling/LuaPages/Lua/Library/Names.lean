import LuaPages.Lua.Value

namespace LuaPages.Lua

def BaseFunction.all : List (String × BaseFunction) :=
  [("assert", .assert), ("collectgarbage", .collectgarbage), ("dofile", .dofile), ("error", .error),
   ("getmetatable", .getmetatable), ("ipairs", .ipairs), ("load", .load), ("loadfile", .loadfile),
   ("next", .next), ("pairs", .pairs), ("pcall", .pcall), ("rawequal", .rawequal),
   ("rawget", .rawget), ("rawlen", .rawlen), ("rawset", .rawset), ("require", .require),
   ("select", .select), ("setmetatable", .setmetatable), ("tonumber", .tonumber),
   ("tostring", .tostring), ("type", .type), ("warn", .warn), ("xpcall", .xpcall)]

def StringFunction.all : List (String × StringFunction) :=
  [("byte", .byte), ("char", .char), ("dump", .dump), ("find", .find), ("format", .format),
   ("gmatch", .gmatch), ("gsub", .gsub), ("len", .len), ("lower", .lower), ("match", .match),
   ("pack", .pack), ("packsize", .packsize), ("rep", .rep), ("reverse", .reverse), ("sub", .sub),
   ("unpack", .unpack), ("upper", .upper)]

def TableFunction.all : List (String × TableFunction) :=
  [("concat", .concat), ("insert", .insert), ("move", .move), ("pack", .pack), ("remove", .remove),
   ("sort", .sort), ("unpack", .unpack)]

def MathFunction.all : List (String × MathFunction) :=
  [("abs", .abs), ("acos", .acos), ("asin", .asin), ("atan", .atan), ("ceil", .ceil), ("cos", .cos),
   ("deg", .deg), ("exp", .exp), ("floor", .floor), ("fmod", .fmod), ("log", .log), ("max", .max),
   ("min", .min), ("modf", .modf), ("rad", .rad), ("random", .random), ("randomseed", .randomseed),
   ("sin", .sin), ("sqrt", .sqrt), ("tan", .tan), ("tointeger", .tointeger), ("type", .type),
   ("ult", .ult)]

def Utf8Function.all : List (String × Utf8Function) :=
  [("char", .char), ("codepoint", .codepoint), ("codes", .codes), ("len", .len), ("offset", .offset)]

def CoroutineFunction.all : List (String × CoroutineFunction) :=
  [("close", .close), ("create", .create), ("isyieldable", .isyieldable), ("resume", .resume),
   ("running", .running), ("status", .status), ("wrap", .wrap), ("yield", .yield)]

def OsFunction.all : List (String × OsFunction) :=
  [("clock", .clock), ("date", .date), ("difftime", .difftime), ("execute", .execute),
   ("exit", .exit), ("getenv", .getenv), ("remove", .remove), ("rename", .rename),
   ("setlocale", .setlocale), ("time", .time), ("tmpname", .tmpname)]

def IoFunction.all : List (String × IoFunction) :=
  [("close", .close), ("flush", .flush), ("input", .input), ("lines", .lines), ("open", .open),
   ("output", .output), ("popen", .popen), ("read", .read), ("tmpfile", .tmpfile), ("type", .type),
   ("write", .write)]

def PackageFunction.all : List (String × PackageFunction) :=
  [("loadlib", .loadlib), ("searchpath", .searchpath)]

/-- Arithmetic that strings take part in, with the events of its metamethods. -/
def stringOperations : List (String × ArithOp) :=
  [("__add", .add), ("__sub", .sub), ("__mul", .mul), ("__mod", .mod), ("__pow", .pow),
   ("__div", .div), ("__idiv", .floorDiv), ("__unm", .negate)]

def libraries : List (String × List (String × Builtin)) :=
  [("_G", BaseFunction.all.map fun e => (e.1, .base e.2)),
   ("string", StringFunction.all.map fun e => (e.1, .string e.2)),
   ("table", TableFunction.all.map fun e => (e.1, .table e.2)),
   ("math", MathFunction.all.map fun e => (e.1, .math e.2)),
   ("utf8", Utf8Function.all.map fun e => (e.1, .utf8 e.2)),
   ("coroutine", CoroutineFunction.all.map fun e => (e.1, .coroutine e.2)),
   ("os", OsFunction.all.map fun e => (e.1, .os e.2)),
   ("io", IoFunction.all.map fun e => (e.1, .io e.2)),
   ("package", PackageFunction.all.map fun e => (e.1, .package e.2))]

def Builtin.globalName? (b : Builtin) : Option String :=
  libraries.findSome? fun (l, fs) =>
    (fs.find? fun e => e.2 = b).map fun e => if l = "_G" then e.1 else l ++ "." ++ e.1

end LuaPages.Lua

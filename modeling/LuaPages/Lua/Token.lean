import LuaPages.Lua.Numeral

namespace LuaPages.Lua

inductive Keyword where
  | and_ | break_ | do_ | else_ | elseif_ | end_ | false_ | for_ | function_ | goto_ | if_ | in_
  | local_ | nil_ | not_ | or_ | repeat_ | return_ | then_ | true_ | until_ | while_
  deriving DecidableEq, Repr

namespace Keyword

def all : List Keyword :=
  [and_, break_, do_, else_, elseif_, end_, false_, for_, function_, goto_, if_, in_, local_, nil_,
   not_, or_, repeat_, return_, then_, true_, until_, while_]

def text : Keyword → String
  | and_ => "and" | break_ => "break" | do_ => "do" | else_ => "else" | elseif_ => "elseif"
  | end_ => "end" | false_ => "false" | for_ => "for" | function_ => "function" | goto_ => "goto"
  | if_ => "if" | in_ => "in" | local_ => "local" | nil_ => "nil" | not_ => "not" | or_ => "or"
  | repeat_ => "repeat" | return_ => "return" | then_ => "then" | true_ => "true"
  | until_ => "until" | while_ => "while"

def ofBytes? (b : Bytes) : Option Keyword := all.find? fun k => k.text.toUTF8 == b

end Keyword

inductive Symbol where
  | plus | minus | star | slash | doubleSlash | percent | caret | hash | ampersand | tilde | bar
  | shiftLeft | shiftRight | equal | notEqual | lessEqual | greaterEqual | less | greater | assign
  | openParen | closeParen | openBrace | closeBrace | openBracket | closeBracket | doubleColon
  | semicolon | colon | comma | dot | concat | dots
  deriving DecidableEq, Repr

def Symbol.text : Symbol → String
  | plus => "+" | minus => "-" | star => "*" | slash => "/" | doubleSlash => "//" | percent => "%"
  | caret => "^" | hash => "#" | ampersand => "&" | tilde => "~" | bar => "|" | shiftLeft => "<<"
  | shiftRight => ">>" | equal => "==" | notEqual => "~=" | lessEqual => "<=" | greaterEqual => ">="
  | less => "<" | greater => ">" | assign => "=" | openParen => "(" | closeParen => ")"
  | openBrace => "\x7b" | closeBrace => "\x7d" | openBracket => "[" | closeBracket => "]"
  | doubleColon => "::" | semicolon => ";" | colon => ":" | comma => "," | dot => "." | concat => ".."
  | dots => "..."

inductive Token where
  | eof
  | name (s : Bytes)
  | string (s : Bytes)
  | number (n : Number)
  | keyword (k : Keyword)
  | symbol (s : Symbol)
  | stray (b : UInt8)
  deriving DecidableEq

inductive Expected where
  | eof
  | name
  | keyword (k : Keyword)
  | symbol (s : Symbol)

def quoted (s : String) : String := "'" ++ s ++ "'"

def Expected.text : Expected → String
  | .eof => "<eof>"
  | .name => "<name>"
  | .keyword k => quoted k.text
  | .symbol s => quoted s.text

def Expected.accepts : Expected → Token → Bool
  | .eof, .eof => true
  | .name, .name _ => true
  | .keyword k, .keyword k' => k = k'
  | .symbol s, .symbol s' => s = s'
  | _, _ => false

/-- A token, the characters it was read from and the line on which it ends. -/
structure Lexeme where
  token : Token
  source : Bytes
  line : Nat

def Lexeme.near (l : Lexeme) : Bytes :=
  match l.token with
  | .eof => "<eof>"
  | .keyword k => quoted k.text
  | .symbol s => quoted s.text
  | .stray b =>
    if Ascii.isPrintable b then Bytes.ofList [39, b, 39]
    else "'<\\" ++ toString b.toNat ++ ">'"
  | _ => ("'" : Bytes) ++ l.source.beforeZero ++ "'"

structure SyntaxFault where
  message : Bytes
  line : Nat
  near : Option Bytes

end LuaPages.Lua

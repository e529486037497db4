import LuaPages.Lua.Token
import LuaPages.Text.Utf8

namespace LuaPages.Lua.Lexer

def isNewline (b : UInt8) : Bool := b == 10 || b == 13

def afterNewline (b : UInt8) : List UInt8 → List UInt8
  | c :: r => if isNewline c && c != b then r else c :: r
  | [] => []

def fault (message : String) (line : Nat) (near : Bytes) : SyntaxFault :=
  ⟨message, line, some (("'" : Bytes) ++ near.beforeZero ++ "'")⟩

def faultAtEnd (message : String) (line : Nat) : SyntaxFault := ⟨message, line, some "<eof>"⟩

inductive StringMode where
  | plain
  | blanks
  /-- After the first byte of a line break, with the mode to go on in. -/
  | broken (b : UInt8) (blank : Bool)
  | escape
  | decimal (v count : Nat)
  | hexFirst
  | hexSecond (v : Nat)
  | openBrace
  | codeFirst
  | code (v : Nat)

def simpleEscape? (b : UInt8) : Option UInt8 :=
  match b with
  | 97 => some 7 | 98 => some 8 | 102 => some 12 | 110 => some 10 | 114 => some 13 | 116 => some 9
  | 118 => some 11 | 92 => some 92 | 34 => some 34 | 39 => some 39
  | _ => none

/-- The mode for the next byte `c`: a decimal escape ends before a byte that is no digit, or after
three digits. -/
def StringMode.before (c : UInt8) (buf : List UInt8) : StringMode → StringMode × List UInt8
  | .decimal v n =>
    if n < 3 && Ascii.isDigit c || 255 < v then (.decimal v n, buf) else (.plain, UInt8.ofNat v :: buf)
  | .broken b blank =>
    if isNewline c && c != b then (.broken b blank, buf)
    else (if blank then .blanks else .plain, buf)
  | .blanks => if Ascii.isSpace c then (.blanks, buf) else (.plain, buf)
  | m => (m, buf)

structure StringRead where
  source : List UInt8
  rest : List UInt8
  line : Nat

/-- Reads up to the closing `quote`. `buf` holds the bytes so far and `raw` the escape being read,
both in reverse. -/
def quotedString (quote : UInt8) :
    StringMode → List UInt8 → List UInt8 → Nat → List UInt8 → Except SyntaxFault StringRead
  | mode, buf, raw, line, [] =>
    let failed (message : String) : Except SyntaxFault StringRead :=
      .error (fault message line (Bytes.ofList (raw ++ buf).reverse))
    match mode with
    | .hexFirst | .hexSecond _ | .codeFirst => failed "hexadecimal digit expected"
    | .openBrace => failed "missing '\x7b'"
    | .code _ => failed "missing '\x7d'"
    | .decimal v _ =>
      if 255 < v then failed "decimal escape too large"
      else .error (faultAtEnd "unfinished string" line)
    | _ => .error (faultAtEnd "unfinished string" line)
  | mode, buf, raw, line, c :: r =>
    let (mode, buf) := mode.before c buf
    let failed (message : String) : Except SyntaxFault StringRead :=
      .error (fault message line (Bytes.ofList (c :: raw ++ buf).reverse))
    match mode with
    | .plain =>
      if c == quote then .ok ⟨(c :: buf).reverse, r, line⟩
      else if isNewline c then .error (fault "unfinished string" line (Bytes.ofList buf.reverse))
      else if c == 92 then quotedString quote .escape buf [92] line r
      else quotedString quote .plain (c :: buf) [] line r
    | .blanks =>
      if isNewline c then quotedString quote (.broken c true) buf [] (line + 1) r
      else quotedString quote .blanks buf [] line r
    | .broken _ blank => quotedString quote (if blank then .blanks else .plain) buf [] line r
    | .escape =>
      match simpleEscape? c with
      | some b => quotedString quote .plain (b :: buf) [] line r
      | none =>
        if c == 120 then quotedString quote .hexFirst buf (c :: raw) line r
        else if c == 117 then quotedString quote .openBrace buf (c :: raw) line r
        else if c == 122 then quotedString quote .blanks buf [] line r
        else if isNewline c then quotedString quote (.broken c false) (10 :: buf) [] (line + 1) r
        else if Ascii.isDigit c then
          quotedString quote (.decimal (Ascii.digitValue c) 1) buf (c :: raw) line r
        else failed "invalid escape sequence"
    | .decimal v n =>
      if n < 3 && Ascii.isDigit c then
        quotedString quote (.decimal (10 * v + Ascii.digitValue c) (n + 1)) buf (c :: raw) line r
      else failed "decimal escape too large"
    | .hexFirst =>
      if Ascii.isHexDigit c then
        quotedString quote (.hexSecond (Ascii.digitValue c)) buf (c :: raw) line r
      else failed "hexadecimal digit expected"
    | .hexSecond v =>
      if Ascii.isHexDigit c then
        quotedString quote .plain (UInt8.ofNat (16 * v + Ascii.digitValue c) :: buf) [] line r
      else failed "hexadecimal digit expected"
    | .openBrace =>
      if c == 123 then quotedString quote .codeFirst buf (c :: raw) line r
      else failed "missing '\x7b'"
    | .codeFirst =>
      if Ascii.isHexDigit c then quotedString quote (.code (Ascii.digitValue c)) buf (c :: raw) line r
      else failed "hexadecimal digit expected"
    | .code v =>
      if Ascii.isHexDigit c then
        if 0x7FFFFFF < v then failed "UTF-8 value too large"
        else quotedString quote (.code (16 * v + Ascii.digitValue c)) buf (c :: raw) line r
      else if c == 125 then quotedString quote .plain ((Utf8.encodeWide v).reverse ++ buf) [] line r
      else failed "missing '\x7d'"

def longBracket? (s : List UInt8) : Option (Nat × List UInt8) :=
  let n := (s.takeWhile (· == 61)).length
  match s.drop n with
  | 91 :: r => some (n, r)
  | _ => none

/-- Reads up to the closing bracket of `level`; `buf` is in reverse, and `broken` is the first byte
of a line break just taken. -/
def longBody (level : Nat) :
    Option UInt8 → List UInt8 → Nat → List UInt8 → Except Nat (List UInt8 × List UInt8 × Nat)
  | _, _, line, [] => .error line
  | broken, buf, line, c :: r =>
    if isNewline c then
      match broken with
      | some b => if c != b then longBody level none buf line r
        else longBody level (some c) (10 :: buf) (line + 1) r
      | none => longBody level (some c) (10 :: buf) (line + 1) r
    else if c == 93 && (List.replicate level (61 : UInt8) ++ [93]).isPrefixOf r then
      .ok (buf.reverse, r.drop (level + 1), line)
    else longBody level none (c :: buf) line r

def longString (what : String) (level : Nat) (line : Nat) (r : List UInt8) :
    Except SyntaxFault (List UInt8 × List UInt8 × Nat) :=
  let (r, first) := match r with
    | c :: r' => if isNewline c then (afterNewline c r', line + 1) else (r, line)
    | [] => (r, line)
  match longBody level none [] first r with
  | .ok x => .ok x
  | .error last =>
    .error (faultAtEnd ("unfinished long " ++ what ++ " (starting at line " ++ toString line ++ ")")
      last)

/-- The characters of a numeral; one letter that touches it is taken too and spoils it. A sign may
follow an exponent mark directly. -/
def numeralSource (marks : List UInt8) : Bool → List UInt8 → List UInt8 → List UInt8 × List UInt8
  | _, acc, [] => (acc.reverse, [])
  | afterMark, acc, c :: r =>
    if afterMark && (c == 43 || c == 45) then numeralSource marks false (c :: acc) r
    else if marks.contains c then numeralSource marks true (c :: acc) r
    else if Ascii.isHexDigit c || c == 46 then numeralSource marks false (c :: acc) r
    else if Ascii.isAlpha c || c == 95 then ((c :: acc).reverse, r)
    else (acc.reverse, c :: r)

def numeral (line : Nat) (s : List UInt8) : Except SyntaxFault (Number × List UInt8 × List UInt8) :=
  let (source, rest) :=
    match s with
    | 48 :: x :: r =>
      if x == 120 || x == 88 then numeralSource [112, 80] false [x, 48] r
      else numeralSource [101, 69] false [] s
    | _ => numeralSource [101, 69] false [] s
  match Numeral.number? source with
  | some n => .ok (n, source, rest)
  | none => .error (fault "malformed number" line (Bytes.ofList source))

def symbol? (c : UInt8) (r : List UInt8) : Option (Symbol × List UInt8) :=
  let pair (d : UInt8) (long short : Symbol) : Option (Symbol × List UInt8) :=
    match r with
    | e :: r' => if e == d then some (long, r') else some (short, r)
    | [] => some (short, r)
  match c with
  | 43 => some (.plus, r) | 45 => some (.minus, r) | 42 => some (.star, r)
  | 47 => pair 47 .doubleSlash .slash
  | 37 => some (.percent, r) | 94 => some (.caret, r) | 35 => some (.hash, r)
  | 38 => some (.ampersand, r)
  | 126 => pair 61 .notEqual .tilde
  | 124 => some (.bar, r)
  | 60 => match r with
    | 61 :: r' => some (.lessEqual, r')
    | 60 :: r' => some (.shiftLeft, r')
    | _ => some (.less, r)
  | 62 => match r with
    | 61 :: r' => some (.greaterEqual, r')
    | 62 :: r' => some (.shiftRight, r')
    | _ => some (.greater, r)
  | 61 => pair 61 .equal .assign
  | 40 => some (.openParen, r) | 41 => some (.closeParen, r)
  | 123 => some (.openBrace, r) | 125 => some (.closeBrace, r)
  | 91 => some (.openBracket, r) | 93 => some (.closeBracket, r)
  | 58 => pair 58 .doubleColon .colon
  | 59 => some (.semicolon, r) | 44 => some (.comma, r)
  | 46 => match r with
    | 46 :: 46 :: r' => some (.dots, r')
    | 46 :: r' => some (.concat, r')
    | _ => some (.dot, r)
  | _ => none

inductive Step where
  | blank (rest : List UInt8) (line : Nat)
  | token (l : Lexeme) (rest : List UInt8)
  | fail (f : SyntaxFault)

def stepName (line : Nat) (s : List UInt8) : Step :=
  let isWord (b : UInt8) := Ascii.isAlnum b || b == 95
  let word := Bytes.ofList (s.takeWhile isWord)
  let token := match Keyword.ofBytes? word with
    | some k => Token.keyword k
    | none => .name word
  .token ⟨token, word, line⟩ (s.dropWhile isWord)

def stepNumeral (line : Nat) (s : List UInt8) : Step :=
  match numeral line s with
  | .ok (n, source, rest) => .token ⟨.number n, .ofList source, line⟩ rest
  | .error f => .fail f

def stepQuoted (line : Nat) (c : UInt8) (r : List UInt8) : Step :=
  match quotedString c .plain [c] [] line r with
  | .ok s => .token ⟨.string (.ofList (s.source.drop 1).dropLast), .ofList s.source, s.line⟩ s.rest
  | .error f => .fail f

def stepBracket (line : Nat) (r : List UInt8) : Step :=
  match longBracket? r with
  | some (level, r) =>
    match longString "string" level line r with
    | .ok (text, rest, last) =>
      let bars := List.replicate level (61 : UInt8)
      .token ⟨.string (.ofList text), .ofList (91 :: bars ++ 91 :: text ++ 93 :: bars ++ [93]), last⟩ rest
    | .error f => .fail f
  | none =>
    let n := (r.takeWhile (· == 61)).length
    if n = 0 then .token ⟨.symbol .openBracket, "[", line⟩ r
    else .fail (fault "invalid long string delimiter" line (.ofList (91 :: List.replicate n 61)))

def stepComment (line : Nat) (r : List UInt8) : Step :=
  let short := Step.blank (r.dropWhile fun b => !isNewline b) line
  match r with
  | 91 :: r' =>
    match longBracket? r' with
    | some (level, r) =>
      match longString "comment" level line r with
      | .ok (_, rest, last) => .blank rest last
      | .error f => .fail f
    | none => short
  | _ => short

def step (line : Nat) (c : UInt8) (r : List UInt8) : Step :=
  if isNewline c then .blank (afterNewline c r) (line + 1)
  else if Ascii.isSpace c then .blank r line
  else if Ascii.isAlpha c || c == 95 then stepName line (c :: r)
  else if Ascii.isDigit c then stepNumeral line (c :: r)
  else if c == 34 || c == 39 then stepQuoted line c r
  else if c == 91 then stepBracket line r
  else if c == 45 && r.head? == some 45 then stepComment line (r.drop 1)
  else if c == 46 && (r.head?.map Ascii.isDigit).getD false then stepNumeral line (c :: r)
  else
    match symbol? c r with
    | some (s, rest) => .token ⟨.symbol s, s.text, line⟩ rest
    | none => .token ⟨.stray c, .singleton c, line⟩ r

structure Tokens where
  lexemes : List Lexeme
  fault : Option SyntaxFault

/-- Every step takes at least one byte, so `fuel` above the length never runs out. -/
def tokensFrom : Nat → Nat → List Lexeme → List UInt8 → Tokens
  | 0, line, acc, _ | _, line, acc, [] => ⟨(⟨.eof, .empty, line⟩ :: acc).reverse, none⟩
  | fuel + 1, line, acc, c :: r =>
    match step line c r with
    | .blank rest line => tokensFrom fuel line acc rest
    | .token l rest => tokensFrom fuel l.line (l :: acc) rest
    | .fail f => ⟨acc.reverse, some f⟩

def tokens (text : Bytes) : Tokens := tokensFrom (text.size + 1) 1 [] text.data.toList

end LuaPages.Lua.Lexer

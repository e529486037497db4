import LuaPages.Lua.Lexer
import LuaPages.Lua.Scope
/-!
Reading the tokens of a chunk into a function. Statements and operands nest to a bounded depth;
readers of one depth are built from those of the next, so the bound is also what ends the
recursion. Within one depth every turn of a loop takes at least one token.
-/
namespace LuaPages.Lua

/-- The tokens still to be read, the current one first, and the functions being read, the innermost
one first. `lastLine` is the line of the token before. -/
structure ParserState where
  chunk : Bytes
  current : Lexeme
  rest : List Lexeme
  fault : Option SyntaxFault
  remaining : Nat
  lastLine : Nat
  scopes : List FunctionScope

abbrev Parse := StateT ParserState (Except LoadFault)

namespace Parse

def failAt {α : Type} (line : Nat) (near : Option Bytes) (message : Bytes) : Parse α :=
  throw (.malformed ⟨message, line, near⟩)

def fail {α : Type} (message : Bytes) : Parse α := do
  let s ← get
  failAt s.current.line (some s.current.near) message

def failPlain {α : Type} (message : Bytes) : Parse α := do
  failAt (← get).current.line none message

def token : Parse Token := return (← get).current.token

def line : Parse Nat := return (← get).current.line

def lastLine : Parse Nat := return (← get).lastLine

def advance : Parse Unit := do
  let s ← get
  match s.rest with
  | l :: rest =>
    set { s with current := l, rest := rest, remaining := s.remaining - 1, lastLine := s.current.line }
  | [] =>
    match s.fault with
    | some f => throw (.malformed f)
    | none => set { s with lastLine := s.current.line }

def at? (e : Expected) : Parse Bool := return e.accepts (← token)

def accept (e : Expected) : Parse Bool := do
  if e.accepts (← token) then advance; return true
  else return false

def failExpected {α : Type} (e : Expected) : Parse α := fail (e.text ++ " expected")

def expect (e : Expected) : Parse Unit := do
  unless ← accept e do failExpected e

def expectSymbol (s : Symbol) : Parse Unit := expect (.symbol s)

def acceptSymbol (s : Symbol) : Parse Bool := accept (.symbol s)

def expectKeyword (k : Keyword) : Parse Unit := expect (.keyword k)

def acceptKeyword (k : Keyword) : Parse Bool := accept (.keyword k)

def expectMatch (e opening : Expected) (openLine : Nat) : Parse Unit := do
  unless ← accept e do
    if openLine = (← line) then failExpected e
    else fail (e.text ++ " expected (to close " ++ opening.text ++ " at line " ++ toString openLine ++ ")")

def name : Parse Bytes := do
  match ← token with
  | .name s => advance; return s
  | _ => failExpected .name

/-- Repeats `step` until it gives a result. Each turn takes a token, so the tokens left bound the
number of turns. -/
def loop {σ β : Type} (init : σ) (step : σ → Parse (σ ⊕ β)) : Parse β := do
  let rec go : Nat → σ → Parse β
    | 0, _ => throw .tooDeep
    | n + 1, s => do
      match ← step s with
      | .inl s => go n s
      | .inr b => return b
  go ((← get).remaining + 2) init

def scope : Parse FunctionScope := return ((← get).scopes.head?).getD (.opening 0 true)

def modifyScope (f : FunctionScope → FunctionScope) : Parse Unit :=
  modify fun s => match s.scopes with
    | x :: xs => { s with scopes := f x :: xs }
    | [] => s

def failLimit {α : Type} (s : FunctionScope) (limit : Nat) (what : String) : Parse α :=
  let place := if s.line = 0 then "main function" else "function at line " ++ toString s.line
  fail ("too many " ++ what ++ " (limit is " ++ toString limit ++ ") in " ++ place)

/-- Checks that one more local variable, after `pending` undeclared ones, is allowed. -/
def checkLocals (pending : Nat) : Parse Unit := do
  let s ← scope
  if 200 < s.active + pending + 1 then failLimit s 200 "local variables"

def reserve (n : Nat) : Parse Unit := do
  let s ← scope
  if 255 ≤ s.registers + n then fail "function or expression needs too many registers"
  else modifyScope fun s => { s with registers := s.registers + n }

def releaseTo (n : Nat) : Parse Unit := modifyScope fun s => { s with registers := n }

def newSlot : Parse Nat := do
  let (slot, s) := (← scope).newSlot
  modifyScope fun _ => s
  return slot

def declare (name : Bytes) (slot : Nat) (m : Mutability) : Parse Unit :=
  modifyScope fun s => { s with vars := ⟨name, slot, m⟩ :: s.vars }

def enterBlock (isLoop : Bool) : Parse Unit := modifyScope (·.enterBlock isLoop)

def leaveBlock : Parse Unit := do
  match (← scope).leaveBlock with
  | .ok s => modifyScope fun _ => { s with registers := s.localRegisters }
  | .error j =>
    if j.name == ("break" : Bytes) then failPlain ("break outside loop at line " ++ toString j.line)
    else failPlain (("no visible label '" : Bytes) ++ j.name ++ "' for <goto> at line " ++ toString j.line)

def inBlock {α : Type} (isLoop : Bool) (body : Parse α) : Parse α := do
  enterBlock isLoop
  let a ← body
  leaveBlock
  return a

def addJump (name : Bytes) (line : Nat) : Parse Unit :=
  modifyScope fun s => s.mapBlock fun b => { b with jumps := b.jumps ++ [⟨name, line, s.active⟩] }

def markClosing : Parse Unit := modifyScope fun s => s.mapBlock fun b => { b with closes := true }

def atBlockEnd (withUntil : Bool) : Parse Bool := do
  match ← token with
  | .keyword .else_ | .keyword .elseif_ | .keyword .end_ | .eof => return true
  | .keyword .until_ => return withUntil
  | _ => return false

end Parse

open Parse

/-- The readers one level deeper: an operand that binds tighter than a priority, and a statement,
which may be none or start with several labels. -/
structure Nested where
  operand : Nat → Parse Expr
  statement : Parse (List Stat)

namespace Parser

def reference (n : Bytes) : Parse Expr := do
  let s ← get
  let look (n : Bytes) : Parse (Resolution × List FunctionScope) :=
    match resolve n s.scopes with
    | .ok r => return r
    | .error f => failLimit f 255 "upvalues"
  let use (n : Bytes) (r : Resolution) (scopes : List FunctionScope) : Parse (Option Expr) := do
    modify fun s => { s with scopes := scopes }
    match r with
    | .slot v => return some (.var (.local v.slot v.name))
    | .upvalue i _ => return some (.var (.upvalue i n))
    | .known c => return some (.const c)
    | .global => return none
  let (r, scopes) ← look n
  match ← use n r scopes with
  | some e => return e
  | none =>
    let (r, scopes) ← look Expr.environment
    let env ← use Expr.environment r scopes
    return .index (env.getD (.const .nil)) (.const (.string n)) (← lastLine)

def refuseConstant {α : Type} (n : Bytes) : Parse α :=
  failPlain (("attempt to assign to const variable '" : Bytes) ++ n ++ "'")

/-- Fails if `e`, which starts with the token `start`, is a variable that may not be assigned to. A
constant that is known is there in place of its name. -/
def checkAssignable (start : Token) (e : Expr) : Parse Unit := do
  match e with
  | .var (.local slot n) =>
    let s ← scope
    if s.vars.any fun v => v.slot = slot && v.mutability.isReadOnly then refuseConstant n
  | .var (.upvalue i n) =>
    let s ← scope
    if (s.upvalues[i]?.map (·.readOnly)).getD false then refuseConstant n
  | .const _ =>
    match start with
    | .name n => refuseConstant n
    | _ => pure ()
  | _ => pure ()

section Expressions

variable (inner : Nested)

def expr : Parse Expr := inner.operand 0

/-- An expression whose value is taken as soon as it has been read. -/
def settled : Parse Expr := do
  let e ← expr inner
  return e.settle (← lastLine)

def exprList : Parse (List Expr) := do
  let first ← expr inner
  loop ([], first) fun (acc, e) => do
    if ← acceptSymbol .comma then
      let e := e.settle (← lastLine)
      reserve 1
      return .inl (e :: acc, ← expr inner)
    else
      reserve 1
      return .inr (e :: acc).reverse

def settleLast (es : List Expr) : Parse (List Expr) := do
  let line ← lastLine
  match es.reverse with
  | e :: r => return (e.settle line :: r).reverse
  | [] => return []

def bracketKey : Parse Expr := do
  advance
  let e ← settled inner
  expectSymbol .closeBracket
  return e

def field : Parse Field := do
  let keyed (key : Expr) : Parse Field := do
    expectSymbol .assign
    let value ← settled inner
    return .pair key value (← lastLine)
  match ← token with
  | .name n =>
    match (← get).rest.head? with
    | some next =>
      if Expected.accepts (.symbol .assign) next.token then
        advance
        keyed (.const (.string n))
      else return .item (← expr inner)
    | none =>
      match (← get).fault with
      | some f => throw (.malformed f)
      | none => return .item (← expr inner)
  | .symbol .openBracket => keyed (← bracketKey inner)
  | _ => return .item (← expr inner)

def settleField (line : Nat) : Field → Field
  | .item e => .item (e.settle line)
  | f => f

/-- At most fifty items wait in registers at once. -/
def tableFields : Parse (List Field) := do
  let start ← line
  let base := (← scope).registers
  expectSymbol .openBrace
  reserve 1
  let fields ← loop ([] : List Field) fun acc => do
    let acc := match acc with
      | f :: r => settleField 0 f :: r
      | [] => []
    if ← at? (.symbol .closeBrace) then return .inr acc
    let f ← field inner
    if ← acceptSymbol .comma then return .inl (settleField (← lastLine) f :: acc)
    else if ← acceptSymbol .semicolon then return .inl (settleField (← lastLine) f :: acc)
    else return .inr (f :: acc)
  expectMatch (.symbol .closeBrace) (.symbol .openBrace) start
  let last ← lastLine
  releaseTo base
  return match fields with
    | f :: r => (settleField last f :: r).reverse
    | [] => []

def callArgs : Parse (List Expr × Nat) := do
  let start ← line
  match ← token with
  | .symbol .openParen =>
    advance
    if ← acceptSymbol .closeParen then return ([], start)
    let args ← exprList inner
    expectMatch (.symbol .closeParen) (.symbol .openParen) start
    return (← settleLast args, start)
  | .symbol .openBrace =>
    let fields ← tableFields inner
    return ([.table fields], start)
  | .string s =>
    advance
    return ([.const (.string s)], start)
  | _ => fail "function arguments expected"

def primary : Parse Expr := do
  match ← token with
  | .name n =>
    advance
    reference n
  | .symbol .openParen =>
    let start ← line
    advance
    let e ← expr inner
    expectMatch (.symbol .closeParen) (.symbol .openParen) start
    return .paren (e.settle (← lastLine))
  | _ => fail "unexpected symbol"

def suffixed : Parse Expr := do
  let base := (← scope).registers
  let e ← primary inner
  loop e fun e => do
    let line ← lastLine
    match ← token with
    | .symbol .dot =>
      let e := e.settle line
      advance
      let key ← name
      return .inl (.index e (.const (.string key)) (← lastLine))
    | .symbol .openBracket =>
      let e := e.settle line
      let key ← bracketKey inner
      return .inl (.index e key (← lastLine))
    | .symbol .colon =>
      advance
      let method ← name
      let nameLine ← lastLine
      reserve 2
      let (args, callLine) ← callArgs inner
      releaseTo base
      return .inl (.method (e.settle nameLine) method args nameLine callLine)
    | .symbol .openParen | .symbol .openBrace | .string _ =>
      let e := e.settle line
      reserve 1
      let (args, callLine) ← callArgs inner
      releaseTo base
      return .inl (.call e args callLine)
    | _ => return .inr e

def statements : Parse (List Stat) :=
  loop [] fun acc => do
    if ← atBlockEnd true then return .inr acc.reverse
    let isReturn ← at? (.keyword .return_)
    let acc := (← inner.statement).reverse ++ acc
    return if isReturn then .inr acc.reverse else .inl acc

def block : Parse (List Stat) := inBlock false (statements inner)

def parameters : Parse (Nat × Bool) := do
  if ← at? (.symbol .closeParen) then return (0, false)
  loop ([] : List Bytes) fun acc => do
    let finish (names : List Bytes) (isVararg : Bool) : Parse (List Bytes ⊕ Nat × Bool) := do
      for n in names.reverse do declare n (← newSlot) .regular
      return .inr (names.length, isVararg)
    match ← token with
    | .name n =>
      advance
      checkLocals acc.length
      if ← acceptSymbol .comma then return .inl (n :: acc)
      else finish (n :: acc) false
    | .symbol .dots =>
      advance
      finish acc true
    | _ => fail "<name> or '...' expected"

def functionBody (isMethod : Bool) (start : Nat) : Parse Function := do
  modify fun s => { s with scopes := .opening start false :: s.scopes }
  expectSymbol .openParen
  if isMethod then declare "self" (← newSlot) .regular
  let (count, isVararg) ← parameters
  modifyScope fun s => { s with isVararg := isVararg, registers := s.localRegisters }
  expectSymbol .closeParen
  let body ← statements inner
  expectMatch (.keyword .end_) (.keyword .function_) start
  leaveBlock
  let s ← get
  let f := s.scopes.head?.getD (.opening start false)
  set { s with scopes := s.scopes.drop 1 }
  let info : FunctionInfo :=
    { chunk := s.chunk, params := count + (if isMethod then 1 else 0)
      isVararg := isVararg, slots := f.captured.size, captured := f.captured
      upvalues := f.upvalues.map fun u => (u.name, u.source) }
  return .mk info body

def simple : Parse Expr := do
  let constant (c : Constant) : Parse Expr := do
    advance
    return .const c
  match ← token with
  | .number n => constant (.number n)
  | .string s => constant (.string s)
  | .keyword .nil_ => constant .nil
  | .keyword .true_ => constant (.bool true)
  | .keyword .false_ => constant (.bool false)
  | .symbol .dots =>
    unless (← scope).isVararg do fail "cannot use '...' outside a vararg function"
    advance
    return .vararg
  | .symbol .openBrace => return .table (← tableFields inner)
  | .keyword .function_ =>
    advance
    let start ← line
    return .function (← functionBody inner false start)
  | _ => suffixed inner

end Expressions

inductive Infix where
  | arith (op : ArithOp)
  | compare (op : CompareOp)
  | concat
  | and
  | or

/-- An infix operator with its priorities as seen from the left and from the right. -/
def infixOf? : Token → Option (Infix × Nat × Nat)
  | .symbol .plus => some (.arith .add, 10, 10)
  | .symbol .minus => some (.arith .sub, 10, 10)
  | .symbol .star => some (.arith .mul, 11, 11)
  | .symbol .percent => some (.arith .mod, 11, 11)
  | .symbol .caret => some (.arith .pow, 14, 13)
  | .symbol .slash => some (.arith .div, 11, 11)
  | .symbol .doubleSlash => some (.arith .floorDiv, 11, 11)
  | .symbol .ampersand => some (.arith .band, 6, 6)
  | .symbol .bar => some (.arith .bor, 4, 4)
  | .symbol .tilde => some (.arith .bxor, 5, 5)
  | .symbol .shiftLeft => some (.arith .shiftLeft, 7, 7)
  | .symbol .shiftRight => some (.arith .shiftRight, 7, 7)
  | .symbol .concat => some (.concat, 9, 8)
  | .symbol .notEqual => some (.compare .ne, 3, 3)
  | .symbol .equal => some (.compare .eq, 3, 3)
  | .symbol .less => some (.compare .lt, 3, 3)
  | .symbol .lessEqual => some (.compare .le, 3, 3)
  | .symbol .greater => some (.compare .gt, 3, 3)
  | .symbol .greaterEqual => some (.compare .ge, 3, 3)
  | .keyword .and_ => some (.and, 2, 2)
  | .keyword .or_ => some (.or, 1, 1)
  | _ => none

def unaryPriority : Nat := 12

/-- Builds an infix expression; a concatenation on the right joins the new one. -/
def Infix.build (i : Infix) (a b : Expr) (opLine endLine : Nat) : Expr :=
  match i with
  | .arith op => .arith op a b opLine
  | .compare op => .compare op a b endLine
  | .concat => match b with
    | .concat parts line => .concat (a :: parts) line
    | b => .concat [a, b] opLine
  | .and => .and a b
  | .or => .or a b

def operandWith (inner : Nested) (limit : Nat) : Parse Expr := do
  let opLine ← line
  let unary (build : Expr → Nat → Expr) : Parse Expr := do
    advance
    let e ← inner.operand unaryPriority
    return build (e.settle (← lastLine)) opLine
  let first ← match ← token with
    | .keyword .not_ => unary fun e _ => .not e
    | .symbol .minus => unary (.unary .negate)
    | .symbol .tilde => unary (.unary .complement)
    | .symbol .hash => unary .length
    | _ => simple inner
  loop first fun a => do
    match infixOf? (← token) with
    | some (i, left, right) =>
      if left ≤ limit then return .inr a
      let opLine ← line
      advance
      let a := a.settle (← lastLine)
      let b ← inner.operand right
      let endLine ← lastLine
      let b := match i with
        | .and | .or => b
        | _ => b.settle endLine
      return .inl (i.build a b opLine endLine)
    | none => return .inr a

section Statements

variable (inner : Nested)

def condition : Parse Expr := settled inner

def ifStatement (start : Nat) : Parse Stat := do
  let arm : Parse (Expr × List Stat) := do
    advance
    let e ← expr inner
    expectKeyword .then_
    let e := e.settle (← lastLine)
    return (e, ← block inner)
  let first ← arm
  let (arms, otherwise) ← loop [first] fun acc => do
    if ← at? (.keyword .elseif_) then return .inl ((← arm) :: acc)
    else if ← acceptKeyword .else_ then return .inr (acc.reverse, ← block inner)
    else return .inr (acc.reverse, [])
  expectMatch (.keyword .end_) (.keyword .if_) start
  return .branch arms otherwise

def whileStatement (start : Nat) : Parse Stat := do
  advance
  let e ← condition inner
  let body ← inBlock true do
    expectKeyword .do_
    block inner
  expectMatch (.keyword .end_) (.keyword .while_) start
  return .while e body

def repeatStatement (start : Nat) : Parse Stat :=
  inBlock true do
    enterBlock false
    advance
    let body ← statements inner
    expectMatch (.keyword .until_) (.keyword .repeat_) start
    let e ← condition inner
    leaveBlock
    return .repeat (body ++ [.until e])

def hiddenName : Bytes := "(for state)"

def declareHidden (n : Nat) : Parse Unit := do
  for _ in List.range n do declare hiddenName 0 .regular

def loopBody (names : List Bytes) : Parse (List Nat × Nat × List Stat) := do
  expectKeyword .do_
  let doLine ← lastLine
  enterBlock false
  let slots ← names.mapM fun n => do
    let slot ← newSlot
    declare n slot .regular
    return slot
  reserve names.length
  let body ← block inner
  leaveBlock
  return (slots, doLine, body)

def countStatement (n : Bytes) : Parse Stat := do
  checkLocals 3
  advance
  let first ← expr inner
  expectSymbol .comma
  let first := first.settle (← lastLine)
  let limit ← expr inner
  let step ← if ← acceptSymbol .comma then
      let e ← expr inner
      pure (some (e.settle (← lastLine)))
    else pure none
  let limit := limit.settle (← lastLine)
  declareHidden 3
  reserve 3
  let (slots, doLine, body) ← loopBody inner [n]
  return .count (slots.headD 0) first limit step body doLine

def iterateStatement (n : Bytes) : Parse Stat := do
  checkLocals 4
  let names ← loop [n] fun acc => do
    if ← acceptSymbol .comma then
      let m ← name
      checkLocals (acc.length + 4)
      return .inl (m :: acc)
    else return .inr acc.reverse
  expectKeyword .in_
  let callLine ← line
  let base := (← scope).registers
  let values ← settleLast (← exprList inner)
  releaseTo base
  declareHidden 4
  reserve 4
  markClosing
  let (slots, _, body) ← loopBody inner names
  return .iterate slots values body callLine

def forStatement (start : Nat) : Parse Stat :=
  inBlock true do
    advance
    let n ← name
    let s ← match ← token with
      | .symbol .assign => countStatement inner n
      | .symbol .comma | .keyword .in_ => iterateStatement inner n
      | _ => fail "'=' or 'in' expected"
    expectMatch (.keyword .end_) (.keyword .for_) start
    return s

def functionStatement (start : Nat) : Parse Stat := do
  advance
  let first ← token
  let n ← name
  let base ← reference n
  let path ← loop base fun e => do
    if ← at? (.symbol .dot) then
      let e := e.settle (← lastLine)
      advance
      let key ← name
      return .inl (.index e (.const (.string key)) start)
    else return .inr e
  let (target, isMethod) ← if ← at? (.symbol .colon) then
      let e := path.settle (← lastLine)
      advance
      let key ← name
      pure (Expr.index e (.const (.string key)) start, true)
    else pure (path.settle start, false)
  checkAssignable first target
  let f ← functionBody inner isMethod start
  return .assign [target] [.function f] start

def localFunctionStatement : Parse Stat := do
  let n ← name
  checkLocals 0
  let slot ← newSlot
  declare n slot .regular
  reserve 1
  let start ← line
  return .localFunction slot (← functionBody inner false start)

def mutability : Parse Mutability := do
  if ← acceptSymbol .less then
    let n ← name
    expectSymbol .greater
    if n == ("const" : Bytes) then return .constant
    else if n == ("close" : Bytes) then return .closed
    else failPlain (("unknown attribute '" : Bytes) ++ n ++ "'")
  else return .regular

def localStatement : Parse Stat := do
  let names ← loop ([] : List (Bytes × Mutability)) fun acc => do
    let n ← name
    checkLocals acc.length
    let m ← mutability
    let isClosed := fun (m : Mutability) => match m with | .closed => true | _ => false
    if isClosed m && acc.any fun x => isClosed x.2 then
      failPlain "multiple to-be-closed variables in local list"
    if ← acceptSymbol .comma then return .inl ((n, m) :: acc)
    else return .inr ((n, m) :: acc).reverse
  let base := (← scope).registers
  let values ← if ← acceptSymbol .assign then settleLast (← exprList inner) else pure []
  releaseTo base
  let last ← lastLine
  let known? : Option Constant :=
    if names.length = values.length then
      match names.getLast?, values.getLast? with
      | some (_, .constant), some (.const c) => some c
      | _, _ => none
    else none
  let entries ← names.mapM fun (n, m) => return (n, m, ← newSlot)
  let count := entries.length
  for (i, n, m, slot) in (List.range count).zip entries do
    match if i + 1 = count then known? else none with
    | some c => declare n slot (.known c)
    | none => declare n slot m
  reserve count
  let slots := entries.map fun e => e.2.2
  match entries.find? fun e => match e.2.1 with | .closed => true | _ => false with
  | some (n, _, slot) =>
    markClosing
    return .declareClose slots values slot n last
  | none => return .declare slots values

def returnStatement : Parse Stat := do
  advance
  let base := (← scope).registers
  let values ← if ← (do return (← atBlockEnd true) || (← at? (.symbol .semicolon))) then pure []
    else settleLast (← exprList inner)
  releaseTo base
  let _ ← acceptSymbol .semicolon
  let tail := !(← scope).insideClose
  match values with
  | [e@(.call ..)] | [e@(.method ..)] => return if tail then .tailCall e else .return values
  | _ => return .return values

def labelStatement : Parse (List Stat) := do
  let n ← name
  let start ← lastLine
  expectSymbol .doubleColon
  let more ← loop ([] : List Stat) fun acc => do
    match ← token with
    | .symbol .semicolon | .symbol .doubleColon => return .inl (acc ++ (← inner.statement))
    | _ => return .inr acc
  let s ← scope
  match s.findLabel? n with
  | some l =>
    failPlain (("label '" : Bytes) ++ n ++ "' already defined on line " ++ toString l.line)
  | none =>
    let active := if ← atBlockEnd false then (s.blocks.head?.map (·.active)).getD 0 else s.active
    match s.addLabel ⟨n, start, active⟩ with
    | .ok s => modifyScope fun _ => s
    | .error j =>
      failPlain (("<goto " : Bytes) ++ j.name ++ "> at line " ++ toString j.line ++
        " jumps into the scope of local '" ++ s.variableAt j.active ++ "'")
    return .label n :: more

def gotoStatement : Parse Stat := do
  advance
  let start ← line
  let n ← name
  if ((← scope).findLabel? n).isNone then addJump n start
  return .goto n

def expressionStatement : Parse Stat := do
  let check (start : Token) (e : Expr) : Parse Unit := do
    match e with
    | .var _ | .index .. | .const _ => checkAssignable start e
    | _ => fail "syntax error"
  let start ← token
  let e ← suffixed inner
  let isTarget ← (do return (← at? (.symbol .assign)) || (← at? (.symbol .comma)))
  if isTarget then
    check start e
    let targets ← loop [e] fun acc => do
      if ← acceptSymbol .comma then
        let start ← token
        let e ← suffixed inner
        check start e
        return .inl (e :: acc)
      else return .inr acc.reverse
    expectSymbol .assign
    let base := (← scope).registers
    let values ← settleLast (← exprList inner)
    releaseTo base
    let last ← lastLine
    return .assign (targets.map (·.settle last)) values last
  else
    match e with
    | .call .. | .method .. => return .call e
    | _ => fail "syntax error"

def statementWith : Parse (List Stat) := do
  let start ← line
  let one (p : Parse Stat) : Parse (List Stat) := return [← p]
  match ← token with
  | .symbol .semicolon =>
    advance
    return []
  | .keyword .if_ => one (ifStatement inner start)
  | .keyword .while_ => one (whileStatement inner start)
  | .keyword .do_ =>
    advance
    let body ← block inner
    expectMatch (.keyword .end_) (.keyword .do_) start
    return [.block body]
  | .keyword .for_ => one (forStatement inner start)
  | .keyword .repeat_ => one (repeatStatement inner start)
  | .keyword .function_ => one (functionStatement inner start)
  | .keyword .local_ =>
    advance
    if ← acceptKeyword .function_ then one (localFunctionStatement inner)
    else one (localStatement inner)
  | .symbol .doubleColon =>
    advance
    labelStatement inner
  | .keyword .return_ => one (returnStatement inner)
  | .keyword .break_ =>
    advance
    addJump "break" start
    return [.break]
  | .keyword .goto_ => one gotoStatement
  | _ => one (expressionStatement inner)

end Statements

def nested : Nat → Nested
  | 0 => ⟨fun _ => throw .tooDeep, throw .tooDeep⟩
  | n + 1 =>
    let inner := nested n
    ⟨operandWith inner, statementWith inner⟩

def chunkBody (inner : Nested) : Parse Function := do
  let body ← statements inner
  unless ← at? .eof do failExpected .eof
  leaveBlock
  let s ← get
  let f := s.scopes.head?.getD (.opening 0 true)
  let info : FunctionInfo :=
    { chunk := s.chunk, params := 0, isVararg := true, slots := f.captured.size
      captured := f.captured, upvalues := f.upvalues.map fun u => (u.name, u.source) }
  return .mk info body

end Parser

def nestingLimit : Nat := 199

/-- Reads a chunk as a function of any number of arguments whose only upvalue is the global table.
`depth` levels are taken already. -/
def parseChunk (chunk : Bytes) (depth : Nat) (text : Bytes) : Except LoadFault Function :=
  let tokens := Lexer.tokens text
  match tokens.lexemes with
  | [] => match tokens.fault with
    | some f => .error (.malformed f)
    | none => .error .tooDeep
  | first :: rest =>
    let main := { FunctionScope.opening 0 true with
      upvalues := #[⟨Expr.environment, .enclosingUpvalue 0, false⟩] }
    let state : ParserState :=
      { chunk := chunk, current := first, rest := rest, fault := tokens.fault
        remaining := rest.length + 1, lastLine := 1, scopes := [main] }
    (Parser.chunkBody (Parser.nested (nestingLimit - depth))).run' state

end LuaPages.Lua

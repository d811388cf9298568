import Offside.Syntax.BlockOfTokens

/-!
The parser as a machine: the tokens of a program, and the index of the current one, which is never
moved behind the last token. What is written here of each rule of the grammar is what it does by
itself; where it needs another rule, or goes round a loop once more, it descends. So it can be said
where the parser descends to, and how often, before it returns.
-/

namespace Offside

structure Parser where
  tokens : List Token
  position : Nat

/-- What a token means in a table of operators. -/
def TokenKind.lookup? {β : Type} (table : Operator → Option β) : TokenKind → Option β
  | .operator op => table op
  | _ => none

namespace Parser

/-- The token this far behind the current one, or the last one. -/
def peek (p : Parser) (n : Nat) : Token :=
  p.tokens.getD (min (p.position + n) (p.tokens.length - 1)) ⟨.endOfFile, ⟨0, 0⟩⟩

/-- Go on to the next token, if there is one. -/
def next (p : Parser) : Parser :=
  if p.position + 1 < p.tokens.length then ⟨p.tokens, p.position + 1⟩ else p

end Parser

/-- The rules of the grammar, and the loops in them: the further operations of a level, the further
indices, elements, parameters and statements, behind those that were read `before`. -/
inductive Goal where
  | expr
  | level (l : Expr.Level)
  | operations (l : Expr.Level) (lhs : Expr)
  | indexed
  | indices (lhs : Expr)
  | operand
  | elements (close : Operator) (what : Expectation) (before : List Expr)
  | type
  | params (before : List Param)
  | block
  | instructions (base : Nat) (before : Block)
  | program

namespace Goal

abbrev Result : Goal → Type
  | .expr | .level _ | .operations .. | .indexed | .indices _ | .operand => Expr
  | .elements .. => List Expr
  | .type => Ty
  | .params _ => List Param
  | .block | .instructions .. | .program => Block

/-- The tighter a rule binds, the smaller is its rank. -/
def rank : Goal → Nat
  | .elements .. => 9
  | .expr => 8
  | .level l => l.rank + 2
  | .indexed => 1
  | .program => 2
  | .block => 1
  | _ => 0

end Goal

/-- What a parser does: it comes to an end, or it descends and goes on from where that ends. A fault
in what it descends to is its own. -/
inductive Plan (α : Type) where
  | done (result : Except SyntaxFault α) (p : Parser)
  | descend (g : Goal) (p : Parser) (next : g.Result → Parser → Plan α)

def Plan.bind {α β : Type} : Plan α → (α → Parser → Plan β) → Plan β
  | .done (.ok a) p, f => f a p
  | .done (.error fault) p, _ => .done (.error fault) p
  | .descend g p next, f => .descend g p fun a p => (next a p).bind f

def Parse (α : Type) : Type :=
  Parser → Plan α

namespace Parse

variable {α β : Type}

instance : Monad Parse where
  pure a p := .done (.ok a) p
  bind x f p := (x p).bind f

def descend (g : Goal) : Parse g.Result :=
  fun p => .descend g p fun a p => .done (.ok a) p

def peek (n : Nat) : Parse TokenKind :=
  fun p => .done (.ok (p.peek n).kind) p

def location : Parse Location :=
  fun p => .done (.ok (p.peek 0).location) p

def next : Parse Unit :=
  fun p => .done (.ok ()) p.next

def fail (fault : SyntaxFault) : Parse α :=
  fun p => .done (.error fault) p

/-- Stop at the current token. -/
def stop (cause : SyntaxError) : Parse α := do
  fail ⟨cause, ← location⟩

def missing (what : Expectation) : Parse α :=
  stop (.expected what)

/-- Go behind an operator, if it is the current token. -/
def eat (op : Operator) : Parse Bool := do
  if (← peek 0) = .operator op then
    next
    return true
  else
    return false

def expect (op : Operator) (what : Expectation) : Parse Unit := do
  if ← eat op then return () else missing what

def expectLineEnd (what : Expectation) : Parse Unit := do
  if (← peek 0) = .lineFeed then next else missing what

def expectName (what : Expectation) : Parse String := do
  match ← peek 0 with
  | .identifier name =>
    next
    return name
  | _ => missing what

def lookup (table : Operator → Option β) : Parse (Option β) := do
  return (← peek 0).lookup? table

/-! Expressions. -/

def assignment : Parse Expr := do
  let lhs ← descend (.level .disjunction)
  match ← lookup Expr.assignment? with
  | some base =>
    next
    let rhs ← descend .expr
    return .binary lhs (.assign base) rhs
  | none => return lhs

def unary : Parse Expr := do
  match ← lookup Expr.unaryOp? with
  | some op =>
    next
    let arg ← descend (.level .unary)
    return .unary op arg
  | none => descend .indexed

def level (l : Expr.Level) : Parse Expr :=
  if l = .unary then unary
  else do
    let lhs ← descend (.level l.tighter)
    descend (.operations l lhs)

def operations (l : Expr.Level) (lhs : Expr) : Parse Expr := do
  match ← lookup l.operation? with
  | some op =>
    next
    let rhs ← descend (.level l.tighter)
    descend (.operations l (.binary lhs (.operation op) rhs))
  | none => return lhs

def indexed : Parse Expr := do
  let lhs ← descend .operand
  descend (.indices lhs)

def indices (lhs : Expr) : Parse Expr := do
  if ← eat .openSquare then
    let index ← descend .expr
    expect .closeSquare .closeSquare
    descend (.indices (.binary lhs .index index))
  else return lhs

def list (close : Operator) (what : Expectation) : Parse (List Expr) := do
  if ← eat close then return [] else descend (.elements close what [])

def elements (close : Operator) (what : Expectation) (before : List Expr) : Parse (List Expr) := do
  let e ← descend .expr
  if ← eat close then return before ++ [e]
  else
    if ← eat .comma then descend (.elements close what (before ++ [e])) else missing what

def operand : Parse Expr := do
  match ← peek 0 with
  | .boolean b =>
    next
    return .boolean b
  | .number x =>
    next
    return .number x
  | .string s =>
    next
    return .string s
  | .identifier name =>
    next
    if ← eat .openParen then
      let args ← list .closeParen .commaOrCloseParen
      return .call name args
    else return .identifier name
  | .operator .openParen =>
    next
    let e ← descend .expr
    expect .closeParen .operatorOrCloseParen
    return e
  | .operator .openSquare =>
    next
    let elements ← list .closeSquare .commaOrCloseSquare
    return .list elements
  | _ => missing .operand

/-! Types and the lines of statements. -/

def type : Parse Ty := do
  match ← peek 0 with
  | .keyword .booleanWord =>
    next
    return .boolean
  | .keyword .numberWord =>
    next
    return .number
  | .keyword .stringWord =>
    next
    return .string
  | .keyword .arrayWord =>
    next
    expect .lessThan .lessThanAfterArray
    let element ← descend .type
    expect .greaterThan .greaterThan
    return .array element
  | _ => missing .typeName

def lastExpr : Parse Expr := do
  let e ← descend .expr
  expectLineEnd .operatorOrLineEnd
  return e

def operandExpr : Parse Expr := do
  if (← peek 0) = .lineFeed then missing .expression else lastExpr

def declaredType : Parse (Option Ty) := do
  if (← peek 0) = .operator .equals then return none
  else
    let ty ← descend .type
    return some ty

def initializer : Parse (Option Expr) := do
  if ← eat .equals then
    let e ← descend .expr
    return some e
  else return none

/-- A declaration, behind its colon. -/
def declaration (loc : Location) (name : String) : Parse Stmt := do
  let ty ← declaredType
  let value ← initializer
  expectLineEnd .operatorOrLineEnd
  return .declare loc name ty value

def params (before : List Param) : Parse (List Param) := do
  let loc ← location
  let name ← expectName .parameterName
  expect .colon .colon
  let ty ← descend .type
  if name ∈ before.map Param.name then fail ⟨.duplicateParameter, loc⟩
  else
    if ← eat .closeParen then return before ++ [⟨name, ty⟩]
    else
      if ← eat .comma then descend (.params (before ++ [⟨name, ty⟩]))
      else missing .commaOrCloseParen

def parameters : Parse (List Param) := do
  if ← eat .closeParen then return [] else descend (.params [])

def resultType : Parse Ty := do
  if ← eat .colon then descend .type else return .none

/-- The line of a function, behind its reserved word. -/
def signature : Parse (String × List Param × Ty) := do
  let name ← expectName .functionName
  expect .openParen .openParen
  let params ← parameters
  let ty ← resultType
  expectLineEnd .lineEnd
  return (name, params, ty)

/-- The line of a loop over a range, behind its reserved word. -/
def loopHeader : Parse (String × Expr) := do
  let name ← expectName .loopVariable
  expect .colon .colon
  let range ← operandExpr
  return (name, range)

/-! Blocks. -/

def nested (base : Nat) (what : Expectation) : Parse Block := do
  match ← peek 0 with
  | .indent width => if base < width then descend .block else missing what
  | _ => missing what

def elseBlock (base : Nat) : Parse (Option Block) := do
  match ← peek 0, ← peek 1 with
  | .indent width, .keyword .elseWord =>
    if width = base then
      next
      next
      expectLineEnd .lineEndAfterElse
      let stmts ← nested base .elseBlock
      return some stmts
    else return none
  | _, _ => return none

/-- A statement, from its first word on, which is at `loc`. -/
def line (base : Nat) (loc : Location) : Parse Stmt := do
  match ← peek 0, ← peek 1 with
  | .identifier name, .operator .colon =>
    next
    next
    declaration loc name
  | .keyword .defWord, _ =>
    next
    let (name, params, ty) ← signature
    let body ← nested base .functionBody
    return .define loc name params ty body
  | .keyword .ifWord, _ =>
    next
    let condition ← operandExpr
    let thenBlock ← nested base .ifBlock
    let elseBlock ← elseBlock base
    return .cond loc condition thenBlock elseBlock
  | .keyword .elseWord, _ => stop .unexpectedElse
  | .keyword .whileWord, _ =>
    next
    let condition ← operandExpr
    let body ← nested base .whileBlock
    return .while loc condition body
  | .keyword .forWord, _ =>
    next
    let (name, range) ← loopHeader
    let body ← nested base .forBlock
    return .for loc name range body
  | .keyword .returnWord, _ =>
    next
    if (← peek 0) = .lineFeed then
      next
      return .return loc none
    else
      let e ← operandExpr
      return .return loc (some e)
  | .keyword .printWord, _ =>
    next
    let e ← operandExpr
    return .print loc e
  | .keyword .readWord, _ =>
    next
    let e ← operandExpr
    return .read loc e
  | _, _ =>
    let e ← lastExpr
    return .expr loc e

/-- A statement, from the indentation of its line on. -/
def instruction (base : Nat) : Parse Stmt := do
  next
  line base (← location)

def block : Parse Block := do
  match ← peek 0 with
  | .indent base => descend (.instructions base [])
  | _ => missing .indentation

def instructions (base : Nat) (before : Block) : Parse Block := do
  match ← peek 0 with
  | .indent width =>
    if base < width then stop .unexpectedIndentation
    else
      if width < base then return before
      else
        let stmt ← instruction base
        descend (.instructions base (before ++ [stmt]))
  | _ => return before

def program : Parse Block := do
  let stmts ← match ← peek 0 with
    | .indent _ => descend .block
    | _ => pure []
  if (← peek 0) = .endOfFile then return stmts else missing .endOfFile

end Parse

/-- What the rule does by itself. -/
def Goal.body : (g : Goal) → Parse g.Result
  | .expr => Parse.assignment
  | .level l => Parse.level l
  | .operations l lhs => Parse.operations l lhs
  | .indexed => Parse.indexed
  | .indices lhs => Parse.indices lhs
  | .operand => Parse.operand
  | .elements close what before => Parse.elements close what before
  | .type => Parse.type
  | .params before => Parse.params before
  | .block => Parse.block
  | .instructions base before => Parse.instructions base before
  | .program => Parse.program

namespace Plan

/-- The plan returns after this many descents, with a result and at a position. -/
inductive Returns : ∀ {α : Type}, Plan α → Nat → Except SyntaxFault α → Parser → Prop
  | done : Returns (.done result p) 0 result p
  | descend {g : Goal} {a : g.Result} {next : g.Result → Parser → Plan α}
      (h : Returns (g.body p) n (.ok a) p') (hnext : Returns (next a p') n' result p'') :
      Returns (.descend g p next) (n + 1 + n') result p''
  | descendFault {g : Goal} {next : g.Result → Parser → Plan α}
      (h : Returns (g.body p) n (.error fault) p') :
      Returns (.descend g p next) (n + 1) (.error fault) p'

/-- On its way the plan descends to the rule, with the parser at this position. -/
inductive Descends : ∀ {α : Type}, Plan α → Goal → Parser → Prop
  | here {g : Goal} {next : g.Result → Parser → Plan α} : Descends (.descend g p next) g p
  | later {g : Goal} {a : g.Result} {next : g.Result → Parser → Plan α}
      (h : Returns (g.body p) n (.ok a) p') (hnext : Descends (next a p') g' p'') :
      Descends (.descend g p next) g' p''

end Plan

end Offside

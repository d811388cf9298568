import Offside.Syntax.ExprOfTokens

/-!
Types, statements and blocks, read from the front of a list of tokens. A block consists of lines of
one indentation; a statement that has a block of its own is followed by lines further in.
-/

namespace Offside

open Token

/-- A type that can be written: a primitive one, or an array of one that can be written. -/
def Ty.ofTokens (ts : List Token) : Reply Ty ts.length :=
  match ts with
  | ⟨.keyword .booleanWord, _⟩ :: rest => .found .boolean rest
  | ⟨.keyword .numberWord, _⟩ :: rest => .found .number rest
  | ⟨.keyword .stringWord, _⟩ :: rest => .found .string rest
  | ⟨.keyword .arrayWord, _⟩ :: rest =>
    ((expect .lessThan .lessThanAfterArray rest).andThen fun _ rest _ =>
      ((Ty.ofTokens rest).andThen fun element rest _ =>
        ((expect .greaterThan .greaterThan rest).andThen fun _ rest _ =>
          .found (.array element) rest).loosen).loosen).loosen
  | ts => missing .typeName ts
termination_by ts.length
decreasing_by simp only [List.length_cons]; omega

namespace Stmt

/-- An expression and the end of its line. -/
def lastExpr (ts : List Token) : Reply Expr ts.length :=
  (Expr.ofTokens ts).andThen fun e rest _ =>
    ((expectLineEnd .operatorOrLineEnd rest).andThen fun _ rest _ => .found e rest).loosen

/-- The expression that a reserved word needs, and the end of its line. -/
def operand (ts : List Token) : Reply Expr ts.length :=
  match ts with
  | ⟨.lineFeed, loc⟩ :: rest => missing .expression (⟨.lineFeed, loc⟩ :: rest)
  | ts => lastExpr ts

/-- An initial value, if there is one, and the end of the line. -/
def initializer (ts : List Token) : Reply (Option Expr) ts.length :=
  match ts with
  | ⟨.operator .equals, _⟩ :: rest =>
    ((lastExpr rest).andThen fun e rest _ => .found (some e) rest).loosen
  | ts => (expectLineEnd .operatorOrLineEnd ts).andThen fun _ rest _ => .found none rest

/-- What follows the colon of a declaration: a type, an initial value, or both. -/
def declaration (loc : Location) (name : String) (ts : List Token) : Reply Stmt ts.length :=
  match ts with
  | ⟨.operator .equals, _⟩ :: rest =>
    ((lastExpr rest).andThen fun e rest _ =>
      .found (.declare loc name none (some e)) rest).loosen
  | ts =>
    (Ty.ofTokens ts).andThen fun ty rest _ =>
      ((initializer rest).andThen fun value rest _ =>
        .found (.declare loc name (some ty) value) rest).loosen

mutual

/-- The parameters behind the ones of these names, up to the closing parenthesis. A name that is
taken is a fault of the name, noticed behind its type. -/
def paramsAfter (taken : List String) (ts : List Token) : Reply (List Param) ts.length :=
  (expectName .parameterName ts).andThen fun name rest _ =>
    ((expect .colon .colon rest).andThen fun _ rest _ =>
      ((Ty.ofTokens rest).andThen fun ty rest _ =>
        if name ∈ taken then .error ⟨.duplicateParameter, here ts⟩ rest
        else (paramsRest (name :: taken) ⟨name, ty⟩ rest).loosen).loosen).loosen
termination_by 4 * ts.length + 1
decreasing_by all_goals grind

/-- What follows a parameter. -/
def paramsRest (taken : List String) (p : Param) (ts : List Token) :
    Reply (List Param) ts.length :=
  match ts with
  | ⟨.operator .closeParen, _⟩ :: rest => .found [p] rest
  | ⟨.operator .comma, _⟩ :: rest =>
    ((paramsAfter taken rest).andThen fun params rest _ => .found (p :: params) rest).loosen
  | ts => missing .commaOrCloseParen ts
termination_by 4 * ts.length
decreasing_by all_goals grind

end

def params (ts : List Token) : Reply (List Param) ts.length :=
  match ts with
  | ⟨.operator .closeParen, _⟩ :: rest => .found [] rest
  | ts => paramsAfter [] ts

/-- The type of a result, if there is one, and the end of the line. -/
def returns (ts : List Token) : Reply Ty ts.length :=
  match ts with
  | ⟨.operator .colon, _⟩ :: rest =>
    ((Ty.ofTokens rest).andThen fun ty rest _ =>
      ((expectLineEnd .lineEnd rest).andThen fun _ rest _ => .found ty rest).loosen).loosen
  | ts => (expectLineEnd .lineEnd ts).andThen fun _ rest _ => .found .none rest

/-- The line of a function, behind its reserved word: its name, parameters and result. -/
def signature (ts : List Token) : Reply (String × List Param × Ty) ts.length :=
  (expectName .functionName ts).andThen fun name rest _ =>
    ((expect .openParen .openParen rest).andThen fun _ rest _ =>
      ((params rest).andThen fun params rest _ =>
        ((returns rest).andThen fun ty rest _ =>
          .found (name, params, ty) rest).loosen).loosen).loosen

/-- The line of a loop over a range, behind its reserved word: its variable and the range. -/
def loopHeader (ts : List Token) : Reply (String × Expr) ts.length :=
  (expectName .loopVariable ts).andThen fun name rest _ =>
    ((expect .colon .colon rest).andThen fun _ rest _ =>
      ((operand rest).andThen fun range rest _ => .found (name, range) rest).loosen).loosen

end Stmt

mutual

/-- A block. Its first line decides its indentation. -/
def Block.ofTokens (ts : List Token) : Reply Block ts.length :=
  match ts with
  | ⟨.indent base, loc⟩ :: line =>
    (Stmt.ofTokens base (⟨.indent base, loc⟩ :: line)).andThen fun stmt rest _ =>
      (Block.restOfTokens base rest).andThen fun stmts rest _ => .found (stmt :: stmts) rest
  | ts => missing .indentation ts
termination_by 4 * ts.length + 2
decreasing_by all_goals grind

/-- The further statements of a block that is indented by `base`. -/
def Block.restOfTokens (base : Nat) (ts : List Token) : Reply Block (ts.length + 1) :=
  match ts with
  | ⟨.indent width, loc⟩ :: line =>
    if base < width then stop .unexpectedIndentation (⟨.indent width, loc⟩ :: line)
    else if width < base then .found [] (⟨.indent width, loc⟩ :: line)
    else
      ((Stmt.ofTokens base (⟨.indent width, loc⟩ :: line)).andThen fun stmt rest _ =>
        (Block.restOfTokens base rest).andThen fun stmts rest _ =>
          .found (stmt :: stmts) rest).loosen
  | ts => .found [] ts
termination_by 4 * ts.length + 1
decreasing_by all_goals grind

/-- The block under a line that is indented by `base`. -/
def Block.nestedOfTokens (base : Nat) (what : Expectation) (ts : List Token) :
    Reply Block ts.length :=
  match ts with
  | ⟨.indent width, loc⟩ :: line =>
    if base < width then Block.ofTokens (⟨.indent width, loc⟩ :: line)
    else missing what (⟨.indent width, loc⟩ :: line)
  | ts => missing what ts
termination_by 4 * ts.length + 3
decreasing_by all_goals grind

/-- What follows the first block of a condition that is indented by `base`. -/
def Block.elseOfTokens (base : Nat) (ts : List Token) : Reply (Option Block) (ts.length + 1) :=
  match ts with
  | ⟨.indent width, widthLoc⟩ :: ⟨.keyword .elseWord, elseLoc⟩ :: behind =>
    if width = base then
      ((expectLineEnd .lineEndAfterElse behind).andThen fun _ rest _ =>
        ((Block.nestedOfTokens base .elseBlock rest).andThen fun block rest _ =>
          .found (some block) rest).loosen).loosen.loosen.loosen
    else .found none (⟨.indent width, widthLoc⟩ :: ⟨.keyword .elseWord, elseLoc⟩ :: behind)
  | ts => .found none ts
termination_by 4 * ts.length
decreasing_by all_goals grind

/-- A statement, from the indentation of its line on, which is `base`. -/
def Stmt.ofTokens (base : Nat) (ts : List Token) : Reply Stmt ts.length :=
  match ts with
  | _ :: line => (Stmt.ofLine base (here line) line).loosen
  | [] => missing .indentation []
termination_by 4 * ts.length
decreasing_by all_goals grind

/-- A statement of a block that is indented by `base`, from its first word on, which is at
`loc`. -/
def Stmt.ofLine (base : Nat) (loc : Location) (ts : List Token) : Reply Stmt ts.length :=
  match ts with
  | ⟨.identifier name, _⟩ :: ⟨.operator .colon, _⟩ :: rest =>
    (Stmt.declaration loc name rest).loosen.loosen
  | ⟨.keyword .defWord, _⟩ :: rest =>
    ((Stmt.signature rest).andThen fun (name, params, ty) rest _ =>
      ((Block.nestedOfTokens base .functionBody rest).andThen fun body rest _ =>
        .found (.define loc name params ty body) rest).loosen).loosen
  | ⟨.keyword .ifWord, _⟩ :: rest =>
    ((Stmt.operand rest).andThen fun condition rest _ =>
      ((Block.nestedOfTokens base .ifBlock rest).andThen fun thenBlock rest _ =>
        (Block.elseOfTokens base rest).andThen fun elseBlock rest _ =>
          .found (.cond loc condition thenBlock elseBlock) rest).loosen).loosen
  | ⟨.keyword .elseWord, elseLoc⟩ :: rest =>
    stop .unexpectedElse (⟨.keyword .elseWord, elseLoc⟩ :: rest)
  | ⟨.keyword .whileWord, _⟩ :: rest =>
    ((Stmt.operand rest).andThen fun condition rest _ =>
      ((Block.nestedOfTokens base .whileBlock rest).andThen fun body rest _ =>
        .found (.while loc condition body) rest).loosen).loosen
  | ⟨.keyword .forWord, _⟩ :: rest =>
    ((Stmt.loopHeader rest).andThen fun (name, range) rest _ =>
      ((Block.nestedOfTokens base .forBlock rest).andThen fun body rest _ =>
        .found (.for loc name range body) rest).loosen).loosen
  | ⟨.keyword .returnWord, _⟩ :: ⟨.lineFeed, _⟩ :: rest =>
    (Reply.found (.return loc none) rest).loosen
  | ⟨.keyword .returnWord, _⟩ :: rest =>
    ((Stmt.operand rest).andThen fun e rest _ => .found (.return loc (some e)) rest).loosen
  | ⟨.keyword .printWord, _⟩ :: rest =>
    ((Stmt.operand rest).andThen fun e rest _ => .found (.print loc e) rest).loosen
  | ⟨.keyword .readWord, _⟩ :: rest =>
    ((Stmt.operand rest).andThen fun e rest _ => .found (.read loc e) rest).loosen
  | ts => (Stmt.lastExpr ts).andThen fun e rest _ => .found (.expr loc e) rest
termination_by 4 * ts.length
decreasing_by all_goals grind

end

namespace Block

/-- The statements of a program. A program that does not begin with a line has none. -/
def outermostOfTokens (ts : List Token) : Reply Block (ts.length + 1) :=
  match ts with
  | ⟨.indent width, loc⟩ :: line => (Block.ofTokens (⟨.indent width, loc⟩ :: line)).loosen
  | ts => .found [] ts

/-- A whole program: one block or nothing, and the end-of-file token, which is not read. -/
def programOfTokens (ts : List Token) : Reply Block (ts.length + 1) :=
  (outermostOfTokens ts).andThen fun stmts rest _ =>
    match rest with
    | ⟨.endOfFile, loc⟩ :: behind => .found stmts (⟨.endOfFile, loc⟩ :: behind)
    | rest => missing .endOfFile rest

end Block

end Offside

import Offside.Syntax
import Offside.Syntax.Reply

/-!
Expressions, read from the front of a list of tokens. An assignment groups to the right and binds
loosest; below it are five levels of operators that group to the left, then the operators in front
of an expression, then indices.
-/

namespace Offside.Expr

open Token

/-- What an operator computes before it assigns, if it is an assignment. -/
def assignment? : Operator → Option (Option Operation)
  | .equals => some none
  | .plusEquals => some (some .add)
  | .minusEquals => some (some .subtract)
  | .asteriskEquals => some (some .multiply)
  | .slashEquals => some (some .divide)
  | .percentEquals => some (some .remainder)
  | .ampersandEquals => some (some .and)
  | .barEquals => some (some .or)
  | _ => none

/-- The levels of expressions, from the tightest to the loosest. -/
inductive Level where
  | unary | multiplicative | additive | predicate | conjunction | disjunction
deriving DecidableEq

namespace Level

def tighter : Level → Level
  | .disjunction => .conjunction
  | .conjunction => .predicate
  | .predicate => .additive
  | .additive => .multiplicative
  | .multiplicative | .unary => .unary

def rank : Level → Nat
  | .unary => 0
  | .multiplicative => 1
  | .additive => 2
  | .predicate => 3
  | .conjunction => 4
  | .disjunction => 5

theorem rank_tighter_lt {l : Level} (h : l ≠ .unary) : l.tighter.rank < l.rank := by
  cases l <;> simp_all [tighter, rank]

theorem rank_le (l : Level) : l.rank ≤ 5 := by
  cases l <;> simp [rank]

/-- The operations of a level. -/
def operation? : Level → Operator → Option Operation
  | .multiplicative, .asterisk => some .multiply
  | .multiplicative, .slash => some .divide
  | .multiplicative, .percent => some .remainder
  | .additive, .plus => some .add
  | .additive, .minus => some .subtract
  | .predicate, .equalsEquals => some .equal
  | .predicate, .notEquals => some .different
  | .predicate, .lessThan => some .less
  | .predicate, .greaterThan => some .greater
  | .predicate, .lessThanEquals => some .lessEqual
  | .predicate, .greaterThanEquals => some .greaterEqual
  | .conjunction, .ampersand => some .and
  | .disjunction, .bar => some .or
  | _, _ => none

end Level

def unaryOp? : Operator → Option UnaryOp
  | .plus => some .plus
  | .minus => some .minus
  | .bang => some .not
  | _ => none

mutual

/-- An expression. -/
def ofTokens (ts : List Token) : Reply Expr ts.length :=
  (ofLevel .disjunction ts).andThen fun lhs rest _ => ofAssigned lhs rest
termination_by 16 * ts.length + 9
decreasing_by
  · simp [Level.rank]
  · omega

/-- What follows an expression that may be assigned to. -/
def ofAssigned (lhs : Expr) (ts : List Token) : Reply Expr (ts.length + 1) :=
  match ts with
  | ⟨.operator op, loc⟩ :: right =>
    match assignment? op with
    | some base =>
      ((ofTokens right).andThen fun rhs rest _ =>
        .found (.binary lhs (.assign base) rhs) rest).loosen.loosen
    | none => .found lhs (⟨.operator op, loc⟩ :: right)
  | ts => .found lhs ts
termination_by 16 * ts.length

/-- An expression of a level. -/
def ofLevel (l : Level) (ts : List Token) : Reply Expr ts.length :=
  if _h : l = .unary then ofUnary ts
  else (ofLevel l.tighter ts).andThen fun lhs rest _ => ofLevelRest l lhs rest
termination_by 16 * ts.length + l.rank + 3
decreasing_by
  · subst _h; simp [Level.rank]
  · have := Level.rank_tighter_lt _h; omega
  · omega

/-- What follows an expression of the next tighter level. -/
def ofLevelRest (l : Level) (lhs : Expr) (ts : List Token) : Reply Expr (ts.length + 1) :=
  match ts with
  | ⟨.operator op, loc⟩ :: right =>
    match l.operation? op with
    | some o =>
      ((ofLevel l.tighter right).andThen fun rhs rest _ =>
        ofLevelRest l (.binary lhs (.operation o) rhs) rest).loosen.loosen
    | none => .found lhs (⟨.operator op, loc⟩ :: right)
  | ts => .found lhs ts
termination_by 16 * ts.length
decreasing_by
  · have := l.tighter.rank_le; simp; omega
  · simp; omega

def ofUnary (ts : List Token) : Reply Expr ts.length :=
  match ts with
  | ⟨.operator op, loc⟩ :: right =>
    match unaryOp? op with
    | some o => ((ofUnary right).andThen fun arg rest _ => .found (.unary o arg) rest).loosen
    | none => ofIndexed (⟨.operator op, loc⟩ :: right)
  | ts => ofIndexed ts
termination_by 16 * ts.length + 2

/-- An operand with any number of indices behind it. -/
def ofIndexed (ts : List Token) : Reply Expr ts.length :=
  (ofOperand ts).andThen fun lhs rest _ => ofIndices lhs rest
termination_by 16 * ts.length + 1

def ofIndices (lhs : Expr) (ts : List Token) : Reply Expr (ts.length + 1) :=
  match ts with
  | ⟨.operator .openSquare, _⟩ :: inside =>
    ((ofTokens inside).andThen fun index rest _ =>
      ((expect .closeSquare .closeSquare rest).andThen fun _ rest _ =>
        ofIndices (.binary lhs .index index) rest).loosen).loosen.loosen
  | ts => .found lhs ts
termination_by 16 * ts.length

def ofOperand (ts : List Token) : Reply Expr ts.length :=
  match ts with
  | ⟨.boolean b, _⟩ :: rest => .found (.boolean b) rest
  | ⟨.number x, _⟩ :: rest => .found (.number x) rest
  | ⟨.string s, _⟩ :: rest => .found (.string s) rest
  | ⟨.identifier name, _⟩ :: ⟨.operator .openParen, _⟩ :: inside =>
    ((listOfTokens .closeParen .commaOrCloseParen inside).andThen fun args rest _ =>
      .found (.call name args) rest).loosen.loosen
  | ⟨.identifier name, _⟩ :: rest => .found (.identifier name) rest
  | ⟨.operator .openParen, _⟩ :: inside =>
    ((ofTokens inside).andThen fun e rest _ =>
      ((expect .closeParen .operatorOrCloseParen rest).andThen fun _ rest _ =>
        .found e rest).loosen).loosen
  | ⟨.operator .openSquare, _⟩ :: inside =>
    ((listOfTokens .closeSquare .commaOrCloseSquare inside).andThen fun elements rest _ =>
      .found (.list elements) rest).loosen
  | ts => missing .operand ts
termination_by 16 * ts.length

/-- Expressions with commas between them, up to the operator that closes the list. -/
def listOfTokens (close : Operator) (what : Expectation) (ts : List Token) :
    Reply (List Expr) ts.length :=
  match ts with
  | ⟨.operator op, loc⟩ :: rest =>
    if op = close then .found [] rest
    else nonemptyOfTokens close what (⟨.operator op, loc⟩ :: rest)
  | ts => nonemptyOfTokens close what ts
termination_by 16 * ts.length + 11

def nonemptyOfTokens (close : Operator) (what : Expectation) (ts : List Token) :
    Reply (List Expr) ts.length :=
  (ofTokens ts).andThen fun e rest _ => (listRestOfTokens close what e rest).loosen
termination_by 16 * ts.length + 10

/-- What follows an element of a list. -/
def listRestOfTokens (close : Operator) (what : Expectation) (e : Expr) (ts : List Token) :
    Reply (List Expr) ts.length :=
  match ts with
  | ⟨.operator op, loc⟩ :: rest =>
    if op = close then .found [e] rest
    else if op = .comma then
      ((nonemptyOfTokens close what rest).andThen fun es rest _ => .found (e :: es) rest).loosen
    else missing what (⟨.operator op, loc⟩ :: rest)
  | ts => missing what ts
termination_by 16 * ts.length

end

end Offside.Expr

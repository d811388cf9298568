import Offside.Syntax
import Offside.Token

/-!
The grammar of the language, over tokens: which tokens form an expression, a type, a statement, a
block or a program, and of which tree. Rules are about token lists as a whole, and say nothing of
how such a list is read.
-/

namespace Offside

namespace Expr

/-- The levels of expressions, from the loosest to the tightest. -/
inductive Rank where
  | assignment | disjunction | conjunction | predicate | additive | multiplicative
  | unary | suffix | operand
deriving DecidableEq

namespace Rank

/-- The next tighter level. Nothing is tighter than an operand. -/
def tighter : Rank → Rank
  | .assignment => .disjunction
  | .disjunction => .conjunction
  | .conjunction => .predicate
  | .predicate => .additive
  | .additive => .multiplicative
  | .multiplicative => .unary
  | .unary => .suffix
  | .suffix | .operand => .operand

/-- The operators of a level that stand between two operands and compute something. -/
def operations : Rank → List (Operator × Operation)
  | .disjunction => [(.bar, .or)]
  | .conjunction => [(.ampersand, .and)]
  | .predicate => [(.equalsEquals, .equal), (.notEquals, .different), (.lessThan, .less),
      (.greaterThan, .greater), (.lessThanEquals, .lessEqual), (.greaterThanEquals, .greaterEqual)]
  | .additive => [(.plus, .add), (.minus, .subtract)]
  | .multiplicative => [(.asterisk, .multiply), (.slash, .divide), (.percent, .remainder)]
  | _ => []

end Rank

/-- The operators that assign, and what each computes first. -/
def assignments : List (Operator × Option Operation) :=
  [(.equals, none), (.plusEquals, some .add), (.minusEquals, some .subtract),
   (.asteriskEquals, some .multiply), (.slashEquals, some .divide),
   (.percentEquals, some .remainder), (.ampersandEquals, some .and), (.barEquals, some .or)]

/-- The operators that stand in front of an operand. -/
def signs : List (Operator × UnaryOp) :=
  [(.plus, .plus), (.minus, .minus), (.bang, .not)]

mutual

/-- The tokens are an expression of the level with this tree. Operations group to the left, since
an expression of the same level may only stand in front of the operator; assignments group to the
right. -/
inductive Derives : Rank → List Token → Expr → Prop
  | tighter (hr : r ≠ .operand) (h : Derives r.tighter w e) : Derives r w e
  | assign (ho : (op, base) ∈ assignments) (hl : Derives .disjunction w lhs)
      (hr : Derives .assignment w' rhs) :
      Derives .assignment (w ++ ⟨.operator op, l₁⟩ :: w') (.binary lhs (.assign base) rhs)
  | operation (ho : (op, o) ∈ r.operations) (hl : Derives r w lhs) (hr : Derives r.tighter w' rhs) :
      Derives r (w ++ ⟨.operator op, l₁⟩ :: w') (.binary lhs (.operation o) rhs)
  | sign (ho : (op, o) ∈ signs) (h : Derives .unary w e) :
      Derives .unary (⟨.operator op, l₁⟩ :: w) (.unary o e)
  | index (hl : Derives .suffix w lhs) (hi : Derives .assignment w' i) :
      Derives .suffix (w ++ ⟨.operator .openSquare, l₁⟩ :: (w' ++ [⟨.operator .closeSquare, l₂⟩]))
        (.binary lhs .index i)
  | boolean : Derives .operand [⟨.boolean b, l₁⟩] (.boolean b)
  | number : Derives .operand [⟨.number x, l₁⟩] (.number x)
  | string : Derives .operand [⟨.string s, l₁⟩] (.string s)
  | identifier : Derives .operand [⟨.identifier name, l₁⟩] (.identifier name)
  | call (h : Elements w args) :
      Derives .operand (⟨.identifier name, l₁⟩ :: ⟨.operator .openParen, l₂⟩ ::
        (w ++ [⟨.operator .closeParen, l₃⟩])) (.call name args)
  | paren (h : Derives .assignment w e) :
      Derives .operand (⟨.operator .openParen, l₁⟩ :: (w ++ [⟨.operator .closeParen, l₂⟩])) e
  | list (h : Elements w es) :
      Derives .operand (⟨.operator .openSquare, l₁⟩ :: (w ++ [⟨.operator .closeSquare, l₂⟩]))
        (.list es)

/-- Expressions with a comma between any two, or none at all. -/
inductive Elements : List Token → List Expr → Prop
  | none : Elements [] []
  | some (h : Separated w es) : Elements w es

/-- One or more expressions with a comma between any two. -/
inductive Separated : List Token → List Expr → Prop
  | one (h : Derives .assignment w e) : Separated w [e]
  | more (h : Derives .assignment w e) (hs : Separated w' es) :
      Separated (w ++ ⟨.operator .comma, l₁⟩ :: w') (e :: es)

end

end Expr

/-- The types that can be written. -/
inductive Ty.Derives : List Token → Ty → Prop
  | boolean : Derives [⟨.keyword .booleanWord, l₁⟩] .boolean
  | number : Derives [⟨.keyword .numberWord, l₁⟩] .number
  | string : Derives [⟨.keyword .stringWord, l₁⟩] .string
  | array (h : Derives w element) :
      Derives (⟨.keyword .arrayWord, l₁⟩ :: ⟨.operator .lessThan, l₂⟩ ::
        (w ++ [⟨.operator .greaterThan, l₃⟩])) (.array element)

namespace Param

inductive Derives : List Token → Param → Prop
  | intro {name : String} {ty : Ty} (h : Ty.Derives w ty) :
      Derives (⟨.identifier name, l₁⟩ :: ⟨.operator .colon, l₂⟩ :: w) ⟨name, ty⟩

/-- One or more parameters with a comma between any two. -/
inductive Separated : List Token → List Param → Prop
  | one (h : Derives w p) : Separated w [p]
  | more (h : Derives w p) (hs : Separated w' ps) :
      Separated (w ++ ⟨.operator .comma, l₁⟩ :: w') (p :: ps)

/-- The parameters of a function. No two have the same name. -/
inductive Elements : List Token → List Param → Prop
  | none : Elements [] []
  | some (h : Separated w ps) (hn : (ps.map Param.name).Nodup) : Elements w ps

end Param

namespace Stmt

/-- The type of a result. A function that has none does not name a type. -/
inductive Result : List Token → Ty → Prop
  | none : Result [] .none
  | some (h : Ty.Derives w ty) : Result (⟨.operator .colon, l₁⟩ :: w) ty

/-- A statement that is a line of its own, without the indentation. Its location is that of its
first token. -/
inductive Line : List Token → Stmt → Prop
  | declareTyped (ht : Ty.Derives w ty) :
      Line (⟨.identifier name, l₁⟩ :: ⟨.operator .colon, l₂⟩ :: (w ++ [⟨.lineFeed, l₃⟩]))
        (.declare l₁ name (some ty) none)
  | declareBoth (ht : Ty.Derives w ty) (he : Expr.Derives .assignment w' e) :
      Line (⟨.identifier name, l₁⟩ :: ⟨.operator .colon, l₂⟩ ::
        (w ++ ⟨.operator .equals, l₃⟩ :: (w' ++ [⟨.lineFeed, l₄⟩])))
        (.declare l₁ name (some ty) (some e))
  | declareInferred (he : Expr.Derives .assignment w e) :
      Line (⟨.identifier name, l₁⟩ :: ⟨.operator .colon, l₂⟩ :: ⟨.operator .equals, l₃⟩ ::
        (w ++ [⟨.lineFeed, l₄⟩])) (.declare l₁ name none (some e))
  | return : Line [⟨.keyword .returnWord, l₁⟩, ⟨.lineFeed, l₂⟩] (.return l₁ none)
  | returnValue (he : Expr.Derives .assignment w e) :
      Line (⟨.keyword .returnWord, l₁⟩ :: (w ++ [⟨.lineFeed, l₂⟩])) (.return l₁ (some e))
  | print (he : Expr.Derives .assignment w e) :
      Line (⟨.keyword .printWord, l₁⟩ :: (w ++ [⟨.lineFeed, l₂⟩])) (.print l₁ e)
  | read (he : Expr.Derives .assignment w e) :
      Line (⟨.keyword .readWord, l₁⟩ :: (w ++ [⟨.lineFeed, l₂⟩])) (.read l₁ e)
  | expr (he : Expr.Derives .assignment (t :: w) e) :
      Line (t :: (w ++ [⟨.lineFeed, l₁⟩])) (.expr t.location e)

/-- The first line of a statement that has a block, without the indentation, and the statement that
it makes of the block. -/
inductive Header : List Token → Block → Stmt → Prop
  | define (hp : Param.Elements w params) (hr : Result w' returns) :
      Header (⟨.keyword .defWord, l₁⟩ :: ⟨.identifier name, l₂⟩ :: ⟨.operator .openParen, l₃⟩ ::
        (w ++ ⟨.operator .closeParen, l₄⟩ :: (w' ++ [⟨.lineFeed, l₅⟩]))) body
        (.define l₁ name params returns body)
  | cond (he : Expr.Derives .assignment w e) :
      Header (⟨.keyword .ifWord, l₁⟩ :: (w ++ [⟨.lineFeed, l₂⟩])) thenBlock
        (.cond l₁ e thenBlock none)
  | while (he : Expr.Derives .assignment w e) :
      Header (⟨.keyword .whileWord, l₁⟩ :: (w ++ [⟨.lineFeed, l₂⟩])) body (.while l₁ e body)
  | for (he : Expr.Derives .assignment w range) :
      Header (⟨.keyword .forWord, l₁⟩ :: ⟨.identifier name, l₂⟩ :: ⟨.operator .colon, l₃⟩ ::
        (w ++ [⟨.lineFeed, l₄⟩])) body (.for l₁ name range body)

end Stmt

mutual

/-- A statement with its lines, of which the first is indented by `base`. A block in it is further
in, by as much as the block likes; the line between the two blocks of a condition is not. -/
inductive Stmt.Derives : Nat → List Token → Stmt → Prop
  | line (h : Stmt.Line w stmt) : Stmt.Derives base (⟨.indent base, l₁⟩ :: w) stmt
  | headed (h : Stmt.Header w body stmt) (hw : base < width) (hb : Block.Derives width w' body) :
      Stmt.Derives base (⟨.indent base, l₁⟩ :: (w ++ w')) stmt
  | condElse (he : Expr.Derives .assignment w e) (hw : base < width)
      (hb : Block.Derives width w' thenBlock) (hw' : base < width')
      (hb' : Block.Derives width' w'' elseBlock) :
      Stmt.Derives base (⟨.indent base, l₁⟩ :: ⟨.keyword .ifWord, l₂⟩ ::
        (w ++ ⟨.lineFeed, l₃⟩ :: (w' ++ ⟨.indent base, l₄⟩ :: ⟨.keyword .elseWord, l₅⟩ ::
          ⟨.lineFeed, l₆⟩ :: w''))) (.cond l₂ e thenBlock (some elseBlock))

/-- One or more statements, all indented by the same width. -/
inductive Block.Derives : Nat → List Token → Block → Prop
  | one (h : Stmt.Derives width w stmt) : Block.Derives width w [stmt]
  | more (h : Stmt.Derives width w stmt) (hs : Block.Derives width w' stmts) :
      Block.Derives width (w ++ w') (stmt :: stmts)

end

/-- A program is one block, or nothing at all. -/
inductive Block.Program : List Token → Block → Prop
  | empty : Program [⟨.endOfFile, l₁⟩] []
  | block (h : Block.Derives width w stmts) : Program (w ++ [⟨.endOfFile, l₁⟩]) stmts

end Offside

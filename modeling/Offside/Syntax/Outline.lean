import Offside.Syntax

/-!
The outlines of syntax trees.
-/

namespace Offside

def Location.outline (loc : Location) : Outline :=
  .record "Location" [("line", .natural loc.line), ("col", .natural loc.column)]

def UnaryOp.name : UnaryOp → String
  | .plus => "Plus"
  | .minus => "Minus"
  | .not => "Not"

def Operation.name : Operation → String
  | .or => "Or"
  | .and => "And"
  | .equal => "Equal"
  | .different => "Different"
  | .less => "Less"
  | .greater => "Greater"
  | .lessEqual => "LessEqual"
  | .greaterEqual => "GreaterEqual"
  | .add => "Add"
  | .subtract => "Subtract"
  | .multiply => "Multiply"
  | .divide => "Divide"
  | .remainder => "Remainder"

def BinaryOp.name : BinaryOp → String
  | .assign none => "Assign"
  | .assign (some op) => op.name ++ "Assign"
  | .operation op => op.name
  | .index => "Index"

mutual

def Expr.outline : Expr → Outline
  | .boolean b => .wrapped "BoolLit" (.boolean b)
  | .number x => .wrapped "NumberLit" (.word (Number.outline x))
  | .string s => .wrapped "StringLit" (.string s)
  | .list elements => .wrapped "ListLit" (.list (Expr.outlines elements))
  | .identifier name => .wrapped "Identifier" (.string name)
  | .unary op arg => .record "Unary" [("op", .word op.name), ("arg", arg.outline)]
  | .binary lhs op rhs =>
    .record "Binary" [("lhs", lhs.outline), ("op", .word op.name), ("rhs", rhs.outline)]
  | .call name args =>
    .record "FnCall" [("ident", .string name), ("args", .list (Expr.outlines args))]

def Expr.outlines : List Expr → List Outline
  | [] => []
  | e :: es => e.outline :: Expr.outlines es

end

def Param.outline (p : Param) : Outline :=
  .record "Param" [("ident", .string p.name), ("ty", p.ty.outline)]

mutual

def Stmt.outline : Stmt → Outline
  | .declare loc name ty initializer =>
    located loc (.record "VarDeclaration" [("ident", .string name),
      ("ty", .optional (ty.map Ty.outline)),
      ("initializer", .optional (initializer.map Expr.outline))])
  | .define loc name params returns body =>
    located loc (.record "FnDeclaration" [("ident", .string name),
      ("params", .list (params.map Param.outline)), ("ret_ty", returns.outline),
      ("body", .list (Stmt.outlines body))])
  | .expr loc e => located loc (.wrapped "ExprStmt" e.outline)
  | .return loc value => located loc (.wrapped "ReturnStmt" (.optional (value.map Expr.outline)))
  | .print loc e => located loc (.wrapped "PrintStmt" e.outline)
  | .read loc target => located loc (.wrapped "ReadStmt" target.outline)
  | .cond loc condition thenBlock elseBlock =>
    located loc (.record "IfStmt" [("condition", condition.outline),
      ("then_block", .list (Stmt.outlines thenBlock)),
      ("else_block", match elseBlock with
        | none => .optional none
        | some block => .optional (some (.list (Stmt.outlines block))))])
  | .while loc condition body =>
    located loc (.record "WhileStmt" [("condition", condition.outline),
      ("body", .list (Stmt.outlines body))])
  | .for loc name range body =>
    located loc (.record "ForStmt" [("ident", .string name), ("range", range.outline),
      ("body", .list (Stmt.outlines body))])
where
  /-- A statement is what it does and where it stands. -/
  located (loc : Location) (kind : Outline) : Outline :=
    .record "Stmt" [("kind", kind), ("loc", loc.outline)]

def Stmt.outlines : List Stmt → List Outline
  | [] => []
  | s :: ss => s.outline :: Stmt.outlines ss

end

def Block.outline (block : Block) : Outline :=
  .list (Stmt.outlines block)

end Offside

import Offside.Execution
import Offside.Syntax.BlockOfTokens
import Offside.Syntax.Outline
import Offside.Token.Lexer
import Offside.Typing.Checker

/-!
Programs, from their text to what comes of running them.
-/

namespace Offside

/-- Read a program. -/
def Block.ofSource (source : String) : Except SyntaxFault Block := do
  let tokens ← Token.ofSource source
  (Block.programOfTokens tokens).toExcept

/-- Read and check a program. Nothing of it is executed unless all of it is well formed and well
typed. -/
def Block.ofChecked (source : String) : Except Diagnostic Block :=
  match Block.ofSource source with
  | .error fault => .error fault.diagnostic
  | .ok program =>
    match program.check with
    | .error fault => .error fault.diagnostic
    | .ok () => .ok program

/-- What comes of a program: all that it wrote, and why it was given up, if it was. -/
structure Report where
  output : Output
  failure : Option Diagnostic

/-- Read, check and run a program. Nothing comes of one that takes more steps than it may. -/
def runSource (limit steps : Nat) (source : String) (input : Input) (output : Output) :
    Option Report :=
  match Block.ofChecked source with
  | .error failure => some ⟨output, some failure⟩
  | .ok program =>
    match (Machine.new input output).run limit steps program with
    | .done () m => some ⟨m.output, none⟩
    | .fault fault m => some ⟨m.output, some fault.diagnostic⟩
    | .exhausted => none

/-- The tokens of a program, a line of text to a line. -/
def listTokens (colour : Bool) (source : String) : Except Diagnostic String :=
  match Token.ofSource source with
  | .ok tokens => .ok (Token.listing colour tokens)
  | .error fault => .error fault.diagnostic

/-- The outline of a program. -/
def outlineSource (source : String) : Except Diagnostic String :=
  match Block.ofSource source with
  | .ok block => .ok (block.outline.tall 0 ++ "\n")
  | .error fault => .error fault.diagnostic

end Offside

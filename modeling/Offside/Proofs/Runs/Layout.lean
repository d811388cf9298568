import Offside.Program
import Offside.Proofs.Execution.Renumbering
import Offside.Proofs.Token.Layout
import Offside.Proofs.Typing.Renumbering

/-!
Layout that should not matter does not, neither to what is read from a text nor to what comes of
running it. At most the lines have other numbers.
-/

namespace Offside

def Diagnostic.renumber (g : Nat → Nat) : Diagnostic → Diagnostic
  | .malformed message location => .malformed message (location.renumber g)
  | .rejected message location => .rejected message (location.map (Location.renumber g))
  | .failed message location => .failed message (location.map (Location.renumber g))

def Report.renumber (g : Nat → Nat) (report : Report) : Report :=
  ⟨report.output, report.failure.map (Diagnostic.renumber g)⟩

/-- What there is to know of a source text: its tokens, the program that is read, whether it passes
the checks, and what comes of running it. -/
structure Answers where
  tokens : Except SyntaxFault (List Token)
  program : Except SyntaxFault Block
  checked : Except Diagnostic Block
  report : Option Report

variable {g : Nat → Nat} {source source' : String}

theorem Reply.toExcept_renumber {α β : Type} {n n' : Nat} {f : α → β} {r : Reply α n}
    {r' : Reply β n'} (h : r'.answer = r.answer.renumber g f) :
    r'.toExcept = mapBoth (SyntaxFault.renumber g) f r.toExcept := by
  cases r <;> cases r' <;> cases h <;> rfl

section Stages

variable (hg : g 0 = 0) (h : Token.ofSource source' = Token.renumbered g (Token.ofSource source))

include hg h

theorem Block.ofSource_renumber :
    Block.ofSource source' =
      mapBoth (SyntaxFault.renumber g) (Block.renumber g) (Block.ofSource source) := by
  unfold Block.ofSource
  rw [h]
  exact mapBoth_bind _ fun tokens =>
    Reply.toExcept_renumber (Block.programOfTokens_renumber hg tokens)

theorem Block.ofChecked_renumber :
    Block.ofChecked source' =
      mapBoth (Diagnostic.renumber g) (Block.renumber g) (Block.ofChecked source) := by
  unfold Block.ofChecked
  rw [Block.ofSource_renumber hg h]
  cases Block.ofSource source with
  | error fault => rfl
  | ok program =>
    dsimp only [mapBoth]
    rw [Block.check_renumber]
    cases program.check <;> rfl

theorem runSource_renumber (limit steps : Nat) (input : Input) (output : Output) :
    runSource limit steps source' input output =
      (runSource limit steps source input output).map (Report.renumber g) := by
  have hnew : (Machine.new input output).renumber g = Machine.new input output := by
    unfold Machine.renumber Machine.new
    rw [Store.new_renumber]
    rfl
  unfold runSource
  rw [Block.ofChecked_renumber hg h]
  cases Block.ofChecked source with
  | error failure => rfl
  | ok program =>
    have hrun := Machine.run_renumber g limit steps program (Machine.new input output)
    rw [hnew] at hrun
    dsimp only [mapBoth]
    rw [hrun]
    cases (Machine.new input output).run limit steps program <;> rfl

end Stages

namespace Answers

def about (limit steps : Nat) (input : Input) (output : Output) (source : String) : Answers :=
  ⟨Token.ofSource source, Block.ofSource source, Block.ofChecked source,
    runSource limit steps source input output⟩

/-- The same answers, about lines that have other numbers. -/
def renumber (g : Nat → Nat) (answers : Answers) : Answers :=
  ⟨Token.renumbered g answers.tokens,
    mapBoth (SyntaxFault.renumber g) (Block.renumber g) answers.program,
    mapBoth (Diagnostic.renumber g) (Block.renumber g) answers.checked,
    answers.report.map (Report.renumber g)⟩

theorem about_renumber (hg : g 0 = 0)
    (h : Token.ofSource source' = Token.renumbered g (Token.ofSource source)) (limit steps : Nat)
    (input : Input) (output : Output) :
    about limit steps input output source' =
      (about limit steps input output source).renumber g := by
  unfold about renumber
  rw [h, Block.ofSource_renumber hg h, Block.ofChecked_renumber hg h, runSource_renumber hg h]

/-- Nothing else is looked at than the tokens. -/
theorem about_congr (h : Token.ofSource source' = Token.ofSource source) (limit steps : Nat)
    (input : Input) (output : Output) :
    about limit steps input output source' = about limit steps input output source := by
  simp only [about, runSource, Block.ofChecked, Block.ofSource, h]

open Token (textOf lineAfter tabbed SpaceIndented) in
/-- Of a text of lines that line feeds end, only line numbers depend on lines of white space.
Nothing at all depends on carriage returns in front of the line feeds, if there are no others, nor
on whether spaces or tabs indent the lines. -/
theorem ignore_layout {lines : List (List Char)} (hfeed : ∀ line ∈ lines, '\n' ∉ line)
    (limit steps : Nat) (input : Input) (output : Output) :
    let answers := fun ending lines => about limit steps input output (textOf ending lines)
    (∀ before after blank, lines = before ++ after → (∀ c ∈ blank, Text.isSpace c ∧ c ≠ '\n') →
      answers ['\n'] (before ++ blank :: after) =
        (answers ['\n'] lines).renumber (lineAfter before.length)) ∧
      ((∀ line ∈ lines, '\r' ∉ line) → answers ['\r', '\n'] lines = answers ['\n'] lines) ∧
      ((∀ line ∈ lines, SpaceIndented line) →
        answers ['\n'] (lines.map tabbed) = answers ['\n'] lines) := by
  intro answers
  refine ⟨fun before after blank hlines hblank => ?_, fun hreturn => ?_, fun hspaces => ?_⟩
  · subst hlines
    obtain ⟨hbefore, hafter⟩ := List.forall_mem_append.1 hfeed
    exact about_renumber rfl (Token.ofSource_insert hbefore hafter hblank) limit steps input output
  · exact about_congr (Token.ofSource_returns hfeed hreturn) limit steps input output
  · exact about_congr (Token.ofSource_tabbed hfeed hspaces) limit steps input output

/-- The word that is missing for the last line is missed there, with a line of white space between
the others, with carriage returns and with tabs. -/
theorem ignore_layout_of_condition :
    let lines := ["if true".toList, "  b : boolean".toList, "  read b".toList]
    let answers := fun ending lines => about 8 8 ⟨[], []⟩ .unlimited (Token.textOf ending lines)
    let spaced := ["if true".toList, "\t ".toList, "  b : boolean".toList, "  read b".toList]
    (answers ['\n'] lines).report.map Report.failure =
        some (some (.failed "unexpected end of input" (some ⟨3, 3⟩))) ∧
      answers ['\n'] spaced = (answers ['\n'] lines).renumber (Token.lineAfter 1) ∧
      (answers ['\n'] spaced).report.map Report.failure =
        some (some (.failed "unexpected end of input" (some ⟨4, 3⟩))) ∧
      answers ['\r', '\n'] lines = answers ['\n'] lines ∧
      answers ['\n'] ["if true".toList, "\t\tb : boolean".toList, "\t\tread b".toList] =
        answers ['\n'] lines := by
  intro lines answers spaced
  have hfailure : (answers ['\n'] lines).report.map Report.failure =
      some (some (.failed "unexpected end of input" (some ⟨3, 3⟩))) := by
    decide +kernel
  have hfeed : ∀ line ∈ lines, '\n' ∉ line := by decide
  have hindent : ∀ line ∈ lines, (line.takeWhile Text.isSpace).all (· = ' ') := by decide
  have hindented : ∀ line ∈ lines, Token.SpaceIndented line := fun line hline _ => by
    simpa using hindent line hline
  have hspaces : ∀ c ∈ "\t ".toList, Text.isSpace c ∧ c ≠ '\n' :=
    List.forall_mem_cons.2 ⟨by decide, List.forall_mem_cons.2 ⟨by decide, List.forall_mem_nil _⟩⟩
  obtain ⟨hinsert, hreturns, htabs⟩ := ignore_layout hfeed 8 8 ⟨[], []⟩ .unlimited
  have hspaced := hinsert ["if true".toList] ["  b : boolean".toList, "  read b".toList]
    "\t ".toList rfl hspaces
  have hlater : (answers ['\n'] spaced).report.map Report.failure =
      ((answers ['\n'] lines).report.map Report.failure).map
        (Option.map (Diagnostic.renumber (Token.lineAfter 1))) := by
    rw [show answers ['\n'] spaced = _ from hspaced, renumber, Option.map_map, Option.map_map]
    rfl
  rw [hfailure] at hlater
  exact ⟨hfailure, hspaced, hlater, hreturns (by decide), htabs hindented⟩

end Answers

end Offside

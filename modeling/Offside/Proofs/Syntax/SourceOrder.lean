import Offside.Program
import Offside.Proofs.Syntax.Programs
import Offside.Proofs.Token.Places

/-!
The lines of a program. Every line that is not blank is the first line of one statement, or the line
between the two blocks of a condition; and the statements stand in the tree in the order in which
they stand in the text, each at the place where the text of its line begins.
-/

namespace Offside

mutual

/-- The statement and all statements inside it, in the order in which they stand in the text. -/
def Stmt.preorder : Stmt → List Stmt
  | .define loc name params returns body =>
    .define loc name params returns body :: Block.preorder body
  | .cond loc condition thenBlock none =>
    .cond loc condition thenBlock none :: Block.preorder thenBlock
  | .cond loc condition thenBlock (some elseBlock) =>
    .cond loc condition thenBlock (some elseBlock) ::
      (Block.preorder thenBlock ++ Block.preorder elseBlock)
  | .while loc condition body => .while loc condition body :: Block.preorder body
  | .for loc name range body => .for loc name range body :: Block.preorder body
  | stmt => [stmt]

def Block.preorder : List Stmt → List Stmt
  | [] => []
  | stmt :: stmts => stmt.preorder ++ Block.preorder stmts

end

/-- A condition with a second block. -/
def Stmt.hasElse : Stmt → Bool
  | .cond _ _ _ (some _) => true
  | _ => false

/-- The line is not blank. -/
def Text.hasContent (line : List Char) : Bool :=
  line.any fun c => !isSpace c

/-- Where the text of the lines begins, from line `n` on, leaving out the blank ones. -/
def Text.lineStarts (n : Nat) (lines : List (List Char)) : List Location :=
  ((lines.zipIdx n).filter fun p => hasContent p.1).map fun p =>
    ⟨p.2, 1 + (p.1.takeWhile isSpace).length⟩

/-- Where the tokens of the lines begin, behind the indentation. -/
def Token.lineStarts : List Token → List Location
  | [] => []
  | t :: ts =>
    match t.kind with
    | .indent _ => (ts.head?.map Token.location).toList ++ lineStarts ts
    | _ => lineStarts ts

namespace Token

theorem lineStarts_inLine {w : List Token} (h : InLine w) (ts : List Token) :
    lineStarts (w ++ ts) = lineStarts ts := by
  induction w with
  | nil => rfl
  | cons t w ih =>
    obtain ⟨ht, hw⟩ := inLine_cons.1 h
    rw [List.cons_append, lineStarts]
    split
    · case h_1 hk =>
      rw [hk] at ht
      cases ht
    · exact ih hw

/-- A line begins at the token behind its indentation. -/
theorem lineStarts_line {t : Token} {w : List Token} (h : InLine (t :: w)) (width : Nat)
    (l : Location) (ts : List Token) :
    lineStarts (⟨.indent width, l⟩ :: t :: w ++ ts) = t.location :: lineStarts ts := by
  have hrest : lineStarts (t :: w ++ ts) = lineStarts ts := lineStarts_inLine h ts
  rw [List.cons_append, lineStarts]
  dsimp only
  rw [hrest]
  rfl

end Token

/-- The lines of the tokens are the first lines of the statements, in this order, and `elses`
others. The last one is complete. -/
structure Token.Accounts (w : List Token) (stmts : List Stmt) (elses : Nat) : Prop where
  complete : ∀ ts, Token.lineStarts (w ++ ts) = Token.lineStarts w ++ Token.lineStarts ts
  order : (stmts.map Stmt.loc).Sublist (Token.lineStarts w)
  count : (Token.lineStarts w).length = stmts.length + elses

namespace Token.Accounts

variable {t : Token} {w w' : List Token} {stmts stmts' : List Stmt} {elses elses' : Nat}

theorem append (h : Accounts w stmts elses) (h' : Accounts w' stmts' elses') :
    Accounts (w ++ w') (stmts ++ stmts') (elses + elses') where
  complete ts := by
    rw [List.append_assoc, h.complete, h'.complete, h.complete, List.append_assoc]
  order := by
    rw [List.map_append, h.complete]
    exact h.order.append h'.order
  count := by
    rw [h.complete, List.length_append, h.count, h'.count, List.length_append]
    omega

theorem endOfFile (l : Location) : Accounts [⟨.endOfFile, l⟩] [] 0 where
  complete _ := rfl
  order := List.Sublist.slnil
  count := rfl

section Line

variable (hw : InLine (t :: w)) (base : Nat) (l : Location)
include hw

theorem lineStarts_eq : lineStarts (⟨.indent base, l⟩ :: t :: w) = [t.location] := by
  have hline := lineStarts_line hw base l []
  rwa [List.append_nil] at hline

theorem complete_line (ts : List Token) : lineStarts (⟨.indent base, l⟩ :: t :: w ++ ts) =
    lineStarts (⟨.indent base, l⟩ :: t :: w) ++ lineStarts ts := by
  rw [lineStarts_line hw, lineStarts_eq hw base l]
  rfl

/-- The first line of a statement. -/
theorem stmtLine {stmt : Stmt} (hl : t.location = stmt.loc) :
    Accounts (⟨.indent base, l⟩ :: t :: w) [stmt] 0 where
  complete := complete_line hw base l
  order := by
    rw [lineStarts_eq hw base l, hl]
    exact .refl _
  count := by
    rw [lineStarts_eq hw base l]
    rfl

/-- A line that begins no statement. -/
theorem elseLine : Accounts (⟨.indent base, l⟩ :: t :: w) [] 1 where
  complete := complete_line hw base l
  order := List.nil_sublist _
  count := by
    rw [lineStarts_eq hw base l]
    rfl

end Line

/-- Two blocks with the line of the condition in front and another one between them. -/
theorem condElse {v : List Token} {e : Expr} {thenBlock elseBlock : Block} {base : Nat}
    {l₁ l₂ l₃ l₄ l₅ l₆ : Location} (hv : InLine v) (h : Accounts w stmts elses)
    (h' : Accounts w' stmts' elses') :
    Accounts (⟨.indent base, l₁⟩ :: ⟨.keyword .ifWord, l₂⟩ :: (v ++ ⟨.lineFeed, l₃⟩ ::
      (w ++ ⟨.indent base, l₄⟩ :: ⟨.keyword .elseWord, l₅⟩ :: ⟨.lineFeed, l₆⟩ :: w')))
      (.cond l₂ e thenBlock (some elseBlock) :: (stmts ++ stmts')) (elses + elses' + 1) := by
  have hif : InLine (⟨.keyword .ifWord, l₂⟩ :: (v ++ [⟨.lineFeed, l₃⟩])) := by
    simp [hv, TokenKind.inLine]
  have helse : InLine [⟨.keyword .elseWord, l₅⟩, ⟨.lineFeed, l₆⟩] := by
    simp [TokenKind.inLine]
  have hcond : Accounts _ [.cond l₂ e thenBlock (some elseBlock)] 0 :=
    stmtLine hif base l₁ rfl
  have hall := (hcond.append h).append ((elseLine helse base l₄).append h')
  have helses : 0 + elses + (1 + elses') = elses + elses' + 1 := by omega
  rw [helses] at hall
  simpa using hall

end Token.Accounts

namespace Stmt

variable {w : List Token} {stmt : Stmt} {body : Block}

theorem Line.located (h : Line w stmt) :
    ∃ t v, w = t :: v ∧ t.location = stmt.loc ∧ stmt.preorder = [stmt] ∧ stmt.hasElse = false := by
  cases h with
  | _ => exact ⟨_, _, rfl, rfl, by simp [preorder], rfl⟩

theorem Header.located (h : Header w body stmt) : ∃ t v, w = t :: v ∧ t.location = stmt.loc ∧
    stmt.preorder = stmt :: Block.preorder body ∧ stmt.hasElse = false := by
  cases h with
  | _ => exact ⟨_, _, rfl, rfl, by simp [preorder], rfl⟩

end Stmt

mutual

theorem Stmt.Derives.accounts {base : Nat} {w : List Token} {stmt : Stmt}
    (h : Stmt.Derives base w stmt) :
    Token.Accounts w stmt.preorder (stmt.preorder.countP Stmt.hasElse) := by
  match h with
  | .line h =>
    obtain ⟨t, v, rfl, hl, hp, he⟩ := h.located
    rw [hp, List.countP_singleton, he]
    exact .stmtLine h.inLine base _ hl
  | .headed h hw hb =>
    obtain ⟨t, v, rfl, hl, hp, he⟩ := h.located
    rw [hp, List.countP_cons_of_neg (by simp [he]), ← Nat.zero_add (List.countP _ _)]
    exact .append (.stmtLine h.inLine base _ hl) hb.accounts
  | .condElse he hw hb hw' hb' =>
    rw [Stmt.preorder, List.countP_cons_of_pos rfl, List.countP_append]
    exact .condElse he.inLine hb.accounts hb'.accounts

theorem Block.Derives.accounts {width : Nat} {w : List Token} {stmts : Block}
    (h : Block.Derives width w stmts) :
    Token.Accounts w (Block.preorder stmts) ((Block.preorder stmts).countP Stmt.hasElse) := by
  match h with
  | .one h =>
    rw [Block.preorder, Block.preorder, List.append_nil]
    exact h.accounts
  | .more h hs =>
    rw [Block.preorder, List.countP_append]
    exact h.accounts.append hs.accounts

end

/-! The lines of a text, and where their tokens begin. -/

theorem Spells.inLine {text : List Char} {k : TokenKind} (h : Spells text k) : k.inLine := by
  cases h with
  | word =>
    unfold Lexeme.wordKind
    split
    · rfl
    · split
      · rfl
      · split <;> rfl
  | _ => rfl

theorem Covers.inLine {n column : Nat} {s : List Char} {ts : List Token}
    (h : Covers n column s ts) : Token.InLine ts := by
  induction h with
  | done => exact Token.inLine_nil
  | gap hc h ih => exact ih
  | lexeme htext hkind h ih => exact Token.inLine_cons.2 ⟨((hkind _).2 rfl).inLine, ih⟩

namespace Text

variable (n : Nat) (line : List Char) (lines : List (List Char))

theorem lineStarts_cons : lineStarts n (line :: lines) =
    if hasContent line then
      ⟨n, 1 + (line.takeWhile isSpace).length⟩ :: lineStarts (n + 1) lines
    else lineStarts (n + 1) lines := by
  unfold lineStarts
  rw [List.zipIdx_cons, List.filter_cons]
  split
  · rfl
  · rfl

theorem lineStarts_increasing : ((lineStarts n lines).map Location.line).Pairwise (· < ·) := by
  have hall : ((lines.zipIdx n).map Prod.snd).Pairwise (· < ·) := by
    rw [List.zipIdx_map_snd]
    exact List.pairwise_lt_range'
  unfold lineStarts
  rw [List.map_map]
  exact hall.sublist (List.filter_sublist.map Prod.snd)

theorem length_lineStarts :
    (lineStarts n lines).length = lines.countP hasContent := by
  induction lines generalizing n with
  | nil => rfl
  | cons line lines ih =>
    rw [lineStarts_cons, List.countP_cons]
    split
    · rw [List.length_cons, ih]
    · rw [ih]
      rfl

variable {n line lines}

theorem mem_lineStarts {l : Location} (h : l ∈ lineStarts n lines) :
    ∃ line, n ≤ l.line ∧ lines[l.line - n]? = some line ∧ hasContent line ∧
      l.column = 1 + (line.takeWhile isSpace).length := by
  obtain ⟨⟨line, i⟩, hm, rfl⟩ := List.mem_map.1 h
  obtain ⟨hz, hcontent⟩ := List.mem_filter.1 hm
  obtain ⟨hle, hget⟩ := List.mk_mem_zipIdx_iff_le_and_getElem?_sub.1 hz
  exact ⟨line, hle, hget, hcontent, rfl⟩

end Text

/-- The tokens of a line that is not blank are its indentation and at least one token behind it. -/
theorem LineTokens.split {n : Nat} {line : List Char} {ts : List Token} (h : LineTokens n line ts) :
    ∃ width t w, ts = ⟨.indent width, n, 1⟩ :: t :: w ∧ Token.InLine (t :: w) ∧
      t.location = ⟨n, 1 + (line.takeWhile Text.isSpace).length⟩ := by
  obtain ⟨k, rest, hcovers, rfl⟩ := h
  refine ⟨_, _, _, rfl, ?_, ?_⟩
  · have hlineFeed : Token.InLine [⟨.lineFeed, n, line.length + 1⟩] := by simp [TokenKind.inLine]
    exact Token.inLine_append.2 ⟨hcovers.inLine, hlineFeed⟩
  · rw [Nat.add_comm]

namespace Token

/-- Tokens begin at the beginnings of the lines, and end with their only end-of-file token. -/
theorem ofLines_lineStarts {used : Option Char} {n : Nat} {lines : List (List Char)}
    {ts : List Token} (h : ofLines used n lines = .ok ts) (hfeed : ∀ line ∈ lines, '\n' ∉ line) :
    lineStarts ts = Text.lineStarts n lines ∧ Terminated ts := by
  induction lines generalizing used n ts with
  | nil =>
    cases h
    exact ⟨rfl, [], _, rfl, inner_nil⟩
  | cons first lines ih =>
    rw [ofLines] at h
    obtain ⟨⟨used', tokens⟩, hfirst, h⟩ := bind_ok h
    obtain ⟨rest, hrest, h⟩ := bind_ok h
    obtain ⟨hfirstfeed, hfeed⟩ := List.forall_mem_cons.1 hfeed
    obtain ⟨hstarts, w, l, rfl, hw⟩ := ih hrest hfeed
    rw [← pure_ok h, Text.lineStarts_cons, ← hstarts]
    obtain ⟨hblank, rfl⟩ | ⟨⟨c, hc, hcontent⟩, hline⟩ := ofLine_covers hfirst hfirstfeed
    · have hnone : Text.hasContent first = false := by
        simpa [Text.hasContent] using hblank
      rw [hnone]
      exact ⟨rfl, w, l, rfl, hw⟩
    · have hsome : Text.hasContent first = true :=
        List.any_eq_true.2 ⟨c, hc, by rw [hcontent]; rfl⟩
      obtain ⟨width, t, v, rfl, hv, ht⟩ := LineTokens.split hline
      rw [hsome, if_pos rfl, ← ht]
      refine ⟨lineStarts_line hv width ⟨n, 1⟩ _, ⟨.indent width, n, 1⟩ :: (t :: v ++ w), l, ?_, ?_⟩
      · simp
      · exact inner_cons.2 ⟨by simp, inner_append.2 ⟨hv.inner, hw⟩⟩

end Token

namespace Block

theorem Program.accounts {ts : List Token} {program : Block} (h : Program ts program) :
    Token.Accounts ts (preorder program) ((preorder program).countP Stmt.hasElse) := by
  cases h with
  | empty => exact .endOfFile _
  | @block _ _ _ l h =>
    have hall := h.accounts.append (.endOfFile l)
    rwa [List.append_nil, Nat.add_zero] at hall

/-- A program that is read from a text is derived from the tokens of the lines. -/
theorem ofSource_derived {source : String} {program : Block} (h : ofSource source = .ok program) :
    ∃ lines tokens, Token.SourceLines source.toList lines ∧
      Token.lineStarts tokens = Text.lineStarts 1 lines ∧ Program tokens program := by
  have hlines := Token.sourceLines_lines source.toList
  obtain ⟨tokens, htokens, h⟩ := bind_ok h
  obtain ⟨hstarts, hterminated⟩ := Token.ofLines_lineStarts htokens hlines.lineFeed_notMem
  obtain ⟨rest, ha⟩ := Reply.toExcept_eq_ok_iff.1 h
  obtain ⟨w, rfl, hw, -⟩ := (programOfTokens_reads tokens).ok program rest ha
  obtain ⟨l, behind, rfl⟩ := rest_of_program ha
  obtain rfl := hterminated.nothing_behind
  exact ⟨_, _, hlines, hstarts, hw l⟩

/-- The statements of a program that was read stand in the tree as they stand in the text, each at
the beginning of the text of a line of its own; and every line that is not blank is that of one
statement, or stands in front of the second block of one. -/
theorem ofSource_in_order {source : String} {program : Block}
    (h : ofSource source = .ok program) :
    ∃ lines, Token.SourceLines source.toList lines ∧
      ((preorder program).map fun stmt => stmt.loc.line).Pairwise (· < ·) ∧
      (∀ stmt ∈ preorder program, ∃ line, 1 ≤ stmt.loc.line ∧
        lines[stmt.loc.line - 1]? = some line ∧ Text.hasContent line ∧
        stmt.loc.column = 1 + (line.takeWhile Text.isSpace).length) ∧
      (preorder program).length + (preorder program).countP Stmt.hasElse =
        lines.countP Text.hasContent := by
  obtain ⟨lines, tokens, hlines, hstarts, hprogram⟩ := ofSource_derived h
  have horder := hprogram.accounts.order
  have hcount := hprogram.accounts.count
  rw [hstarts] at horder hcount
  refine ⟨lines, hlines, ?_, ?_, ?_⟩
  · have hincreasing := (Text.lineStarts_increasing 1 lines).sublist (horder.map Location.line)
    rwa [List.map_map] at hincreasing
  · intro stmt hstmt
    exact Text.mem_lineStarts (horder.subset (List.mem_map_of_mem hstmt))
  · rw [← hcount, Text.length_lineStarts]

/-- A loop around a condition with two blocks, of three widths, with a blank line in it. -/
theorem ofSource_in_order_of_alternatives :
    let source := "while a\n  if b\n\n    print a\n  else\n   print b\nprint c"
    ∃ program, ofSource source = .ok program ∧
      (preorder program).map Stmt.loc = [⟨1, 1⟩, ⟨2, 3⟩, ⟨4, 5⟩, ⟨6, 4⟩, ⟨7, 1⟩] ∧
      ∃ lines, Token.SourceLines source.toList lines ∧ lines.countP Text.hasContent = 6 := by
  intro source
  have h : ((ofSource source).toOption.map fun program =>
      ((preorder program).map Stmt.loc, (preorder program).countP Stmt.hasElse)) =
      some ([⟨1, 1⟩, ⟨2, 3⟩, ⟨4, 5⟩, ⟨6, 4⟩, ⟨7, 1⟩], 1) := by
    decide +kernel
  cases hp : ofSource source with
  | error fault =>
    rw [hp] at h
    cases h
  | ok program =>
    rw [hp] at h
    obtain ⟨hlocs, helses⟩ := Prod.mk.inj (Option.some.inj h)
    obtain ⟨lines, hlines, -, -, hcount⟩ := ofSource_in_order hp
    have hlength := congrArg List.length hlocs
    rw [List.length_map] at hlength
    rw [hlength, helses] at hcount
    exact ⟨program, rfl, hlocs, lines, hlines, hcount.symm⟩

end Block

end Offside

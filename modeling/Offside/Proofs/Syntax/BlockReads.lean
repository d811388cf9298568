import Offside.Proofs.Syntax.ExprDerived
import Offside.Proofs.Syntax.LineReads

/-!
Statements, blocks and programs are read as the grammar says. Whether a condition has an alternative
is decided by two tokens behind its block, the indentation of a line and its first word; all else is
decided by the next token.
-/

namespace Offside

open Token
open Reply (answer_andThen answer_loosen answer_found)

/-- If the next line has this indentation, then its first token is the same. -/
def SameElse (base : Nat) (ts ts' : List Token) : Prop :=
  (∃ l line, ts = ⟨.indent base, l⟩ :: line) → SameNext ts.tail ts'.tail

namespace Block

/-- A block that is further in than `base`. -/
def Nested (base : Nat) (w : List Token) (stmts : Block) : Prop :=
  ∃ width, base < width ∧ Derives width w stmts

/-- The alternative of a condition that is indented by `base`, or none. -/
inductive Else (base : Nat) : List Token → Option Block → Prop
  | none : Else base [] none
  | some (h : Nested base w stmts) :
      Else base (⟨.indent base, l₁⟩ :: ⟨.keyword .elseWord, l₂⟩ :: ⟨.lineFeed, l₃⟩ :: w)
        (some stmts)

/-- Statements that are all indented by `base`, or none. -/
inductive Further (base : Nat) : List Token → Block → Prop
  | none : Further base [] []
  | some (h : Derives base w stmts) : Further base w stmts

theorem Further.derives (h : Stmt.Derives base w stmt) (hs : Further base w' stmts) :
    Derives base (w ++ w') (stmt :: stmts) := by
  cases hs with
  | none => simpa using .one h
  | some hs => exact .more h hs

end Block

namespace Stmt

/-- A statement that fits everywhere. -/
def sample : List Token :=
  [⟨.keyword .returnWord, ⟨0, 0⟩⟩, ⟨.lineFeed, ⟨0, 0⟩⟩]

theorem sample_derives (base : Nat) (l : Location) :
    Derives base (⟨.indent base, l⟩ :: sample) (.return ⟨0, 0⟩ none) :=
  .line .return

end Stmt

theorem Block.Nested.exists (base : Nat) : ∃ w stmts, Nested base w stmts :=
  ⟨_, _, base + 1, Nat.lt_succ_self _, .one (Stmt.sample_derives _ ⟨0, 0⟩)⟩

theorem Block.elseOfTokens_none
    (h : ∀ l₁ l₂ behind, ts ≠ ⟨.indent base, l₁⟩ :: ⟨.keyword .elseWord, l₂⟩ :: behind) :
    (Block.elseOfTokens base ts).answer = .ok none ts := by
  fun_cases Block.elseOfTokens base ts
  · case case1 l₁ l₂ behind => exact absurd rfl (h l₁ l₂ behind)
  · case case2 hw => rw [Block.elseOfTokens, if_neg hw, answer_found]
  · case case3 hne => rw [Block.elseOfTokens, answer_found]; exact hne

namespace Stmt

/-! What follows the first word of a statement that has a block. -/

theorem ofLine_def (base : Nat) (l l₁ : Location) (ts : List Token) :
    (ofLine base l (⟨.keyword .defWord, l₁⟩ :: ts)).answer =
      (signature ts).answer.andThen fun s rest =>
        (Block.nestedOfTokens base .functionBody rest).answer.andThen fun body rest =>
          .ok (.define l s.1 s.2.1 s.2.2 body) rest := by
  rw [ofLine, answer_loosen, answer_andThen]
  simp only [answer_loosen, answer_andThen, answer_found]

theorem ofLine_if (base : Nat) (l l₁ : Location) (ts : List Token) :
    (ofLine base l (⟨.keyword .ifWord, l₁⟩ :: ts)).answer =
      (operand ts).answer.andThen fun condition rest =>
        (Block.nestedOfTokens base .ifBlock rest).answer.andThen fun thenBlock rest =>
          (Block.elseOfTokens base rest).answer.andThen fun elseBlock rest =>
            .ok (.cond l condition thenBlock elseBlock) rest := by
  rw [ofLine]
  simp only [answer_loosen, answer_andThen, answer_found]

theorem ofLine_while (base : Nat) (l l₁ : Location) (ts : List Token) :
    (ofLine base l (⟨.keyword .whileWord, l₁⟩ :: ts)).answer =
      (operand ts).answer.andThen fun condition rest =>
        (Block.nestedOfTokens base .whileBlock rest).answer.andThen fun body rest =>
          .ok (.while l condition body) rest := by
  rw [ofLine]
  simp only [answer_loosen, answer_andThen, answer_found]

theorem ofLine_for (base : Nat) (l l₁ : Location) (ts : List Token) :
    (ofLine base l (⟨.keyword .forWord, l₁⟩ :: ts)).answer =
      (loopHeader ts).answer.andThen fun s rest =>
        (Block.nestedOfTokens base .forBlock rest).answer.andThen fun body rest =>
          .ok (.for l s.1 s.2 body) rest := by
  rw [ofLine, answer_loosen, answer_andThen]
  simp only [answer_loosen, answer_andThen, answer_found]

/-- A header, and the block behind it. -/
theorem headed_reads {header : List Token → Answer β} {make : β → List Stmt → Stmt}
    (h₁ : Reads (fun w name => Repeats (t :: w) name) (fun _ _ => True) header
      (fun w b => ∀ body, Header (t :: w) body (make b body)) ts)
    (h₂ : ∀ b rest, header ts = .ok b rest → Reads Repeats A
      (fun ts => (Block.nestedOfTokens base what ts).answer) (Block.Nested base) rest) :
    Reads (fun w name => Repeats (t :: w) name) A
      (fun ts => (header ts).andThen fun b rest =>
        (Block.nestedOfTokens base what rest).answer.andThen fun body rest =>
          .ok (make b body) rest)
      (fun w stmt => ∀ l, Derives base (⟨.indent base, l⟩ :: t :: w) stmt) ts := by
  refine .andThen h₁ (fun w b rest hr hw => ?_) fun w b hw => ?_
  · refine .map ((h₂ b rest hr).mono fun w' name h => (h.append w).cons t) ?_
    rintro w' stmts ⟨width, hlt, hb⟩ l
    exact .headed (hw _) hlt hb
  · obtain ⟨w', stmts, width, hlt, hb⟩ := Block.Nested.exists base
    exact ⟨w', make b stmts, fun l => .headed (hw _) hlt hb⟩

/-- A condition, its block and the alternative behind them. -/
theorem cond_reads
    (hn : ∀ rest : List Token, rest.length < ts.length → Reads Repeats (fun _ _ => True)
      (fun ts => (Block.nestedOfTokens base .ifBlock ts).answer) (Block.Nested base) rest)
    (hs : ∀ rest : List Token, rest.length < ts.length → Reads Repeats (SameElse base)
      (fun ts => (Block.elseOfTokens base ts).answer) (Block.Else base) rest) :
    Reads (fun w name => Repeats (⟨.keyword .ifWord, l₁⟩ :: w) name) (SameElse base)
      (fun ts => (operand ts).answer.andThen fun condition rest =>
        (Block.nestedOfTokens base .ifBlock rest).answer.andThen fun thenBlock rest =>
          (Block.elseOfTokens base rest).answer.andThen fun elseBlock rest =>
            .ok (.cond l₁ condition thenBlock elseBlock) rest)
      (fun w stmt => ∀ l, Derives base (⟨.indent base, l⟩ :: ⟨.keyword .ifWord, l₁⟩ :: w) stmt)
      ts := by
  have hd : ∀ w e w' stmts, Expr.Derives .assignment w e → Block.Nested base w' stmts →
      ∀ l l₂, Derives base (⟨.indent base, l⟩ :: ⟨.keyword .ifWord, l₁⟩ ::
        (w ++ ⟨.lineFeed, l₂⟩ :: w')) (.cond l₁ e stmts none) := by
    rintro w e w' stmts he ⟨width, hw, hb⟩ l l₂
    simpa using Derives.headed (.cond he) hw hb
  refine .andThen (operand_reads ts) ?_ ?_
  · rintro w e rest hr ⟨he⟩
    have hrest := Reply.shorter hr
    refine .andThen ((hn rest hrest).mono fun w' name h => (h.append _).cons _)
      (fun w' stmts rest' hr' hb => ?_) fun w' stmts hb => ?_
    · have hrest' := Reply.shorter hr'
      refine .map ((hs rest' (hrest'.trans hrest)).mono
        fun w'' name h => ((h.append w').append _).cons _) ?_
      rintro w'' - (_ | ⟨hb'⟩) l
      · simpa using hd _ _ _ _ he hb l _
      · obtain ⟨width, hw, hb⟩ := hb
        obtain ⟨width', hw', hb'⟩ := hb'
        simpa using Derives.condElse he hw hb hw' hb'
    · exact .of fun l => by simpa using hd _ _ _ _ he hb l _
  · rintro w e ⟨he⟩
    obtain ⟨w', stmts, hb⟩ := Block.Nested.exists base
    exact ⟨w', _, fun l => by simpa using hd _ _ _ _ he hb l _⟩

/-- An expression as a statement, which is where its first token is. -/
def exprLine (ts : List Token) : Answer Stmt :=
  (lastExpr ts).answer.andThen fun e rest => .ok (.expr (here ts) e) rest

theorem exprLine_shorter (h : exprLine ts = .ok stmt rest) : rest.length < ts.length := by
  unfold exprLine at h
  cases hf : (lastExpr ts).answer with
  | error fault rest' => simp [hf] at h
  | ok e rest' =>
    rw [hf, Answer.ok_andThen] at h
    cases h
    exact Reply.shorter hf

theorem lastExpr_derived (h : Expr.Derives .assignment w e) (l : Location) (rest : List Token) :
    (lastExpr (w ++ ⟨.lineFeed, l⟩ :: rest)).answer = .ok e rest := by
  have he := Expr.ofTokens_derived h (t := ⟨.lineFeed, l⟩) rfl rest
  simp only [lastExpr, answer_loosen, answer_andThen, he, Answer.ok_andThen, expectLineEnd,
    answer_found]

theorem exprLine_derived (h : Expr.Derives .assignment (t :: w) e) (l : Location)
    (rest : List Token) :
    exprLine (t :: (w ++ ⟨.lineFeed, l⟩ :: rest)) = .ok (.expr t.location e) rest := by
  have hl := lastExpr_derived h l rest
  rw [List.cons_append] at hl
  rw [exprLine, hl, Answer.ok_andThen, here]

/-- A line that begins with an expression is one, unless it declares a variable. -/
theorem ofLine_of_opens (base : Nat) {t : Token} (ho : Expr.Opens .assignment t.kind)
    (hn : ∀ l rest, ts = ⟨.operator .colon, l⟩ :: rest → ∀ name, t.kind ≠ .identifier name) :
    (ofLine base t.location (t :: ts)).answer = exprLine (t :: ts) := by
  rw [ofLine]
  · simp only [answer_andThen, answer_found, exprLine, here]
  · rintro name l₁ l₂ rest ⟨⟩
    exact hn l₂ rest rfl name rfl
  all_goals
    intros
    rename_i h
    cases h
    cases ho

theorem exprLine_reads (ts : List Token) : Reads R A exprLine Line ts := by
  refine .congr
    (fun ts' => (lastExpr ts').answer.andThen fun e rest => .ok (.expr (here ts) e) rest)
    (.mapPart (lastExpr_reads ts) ?_ ?_) fun ts' hs => ?_
  · rintro w e rest rfl ⟨h⟩
    obtain ⟨t, v, rfl, -⟩ := h.opens
    exact .expr h
  · rintro w e ⟨h⟩
    obtain ⟨t, v, rfl, -⟩ := h.opens
    exact ⟨_, .expr h⟩
  · rw [exprLine, hs.here]

/-- A line that begins with a name may still be a declaration, which the token behind it decides. -/
theorem ofLine_reads_of_name (base : Nat)
    (hn : ∀ l₁ rest, ts ≠ ⟨.operator .colon, l₁⟩ :: rest) :
    Reads Repeats A (fun ts => (ofLine base (here ts) ts).answer)
      (fun w stmt => ∀ l, Derives base (⟨.indent base, l⟩ :: w) stmt)
      (⟨.identifier name, l⟩ :: ts) := by
  refine .congr_behind exprLine ((exprLine_reads _).imp fun w stmt h l => .line h)
    (fun stmt rest hr => ?_) ?_ fun ts' hs => ?_
  · exact Nat.le_of_lt_succ (exprLine_shorter hr)
  · have hd : Expr.Derives .assignment [⟨.identifier name, l⟩] (.identifier name) :=
      Expr.Derives.identifier.looser (by decide)
    exact ⟨[⟨.lineFeed, ⟨0, 0⟩⟩], _, [], exprLine_derived hd _ []⟩
  · refine ofLine_of_opens base .identifier ?_
    rintro l₁ rest rfl
    obtain ⟨rest', rfl⟩ := hs.eq_cons
    exact absurd rfl (hn l₁ rest')

end Stmt

namespace Block

/-- Statements that are all indented by `base`. -/
def linesOfTokens (base : Nat) (ts : List Token) : Answer Block :=
  (Stmt.ofTokens base ts).answer.andThen fun stmt rest =>
    (restOfTokens base rest).answer.andThen fun stmts rest => .ok (stmt :: stmts) rest

theorem restOfTokens_line (base : Nat) (l : Location) (line : List Token) :
    (restOfTokens base (⟨.indent base, l⟩ :: line)).answer =
      linesOfTokens base (⟨.indent base, l⟩ :: line) := by
  rw [restOfTokens, if_neg (Nat.lt_irrefl _), if_neg (Nat.lt_irrefl _)]
  simp only [answer_loosen, answer_andThen, answer_found, linesOfTokens]

/-- Further statements do not stop in front of one of them. -/
theorem restOfTokens_not_stalls (base : Nat) (l : Location) (line : List Token) :
    ¬ Reads.Stalls (fun ts => (restOfTokens base ts).answer) (⟨.indent base, l⟩ :: line) := by
  rintro (⟨stmts, h⟩ | h)
  · change (restOfTokens base _).answer = _ at h
    rw [restOfTokens, if_neg (Nat.lt_irrefl _), if_neg (Nat.lt_irrefl _), answer_loosen] at h
    exact Nat.lt_irrefl _ (Reply.shorter h)
  · obtain ⟨fault, rest, h⟩ := h (⟨.indent base, l⟩ :: Stmt.sample) rfl
    change (restOfTokens base _).answer = _ at h
    simp [Stmt.sample, Stmt.ofTokens, Stmt.ofLine,
      restOfTokens] at h

theorem lines_reads
    (h : Reads Repeats (SameElse base) (fun ts => (Stmt.ofTokens base ts).answer)
      (Stmt.Derives base) ts)
    (hs : ∀ stmt rest, (Stmt.ofTokens base ts).answer = .ok stmt rest →
      Reads Repeats A (fun ts => (restOfTokens base ts).answer) (Further base) rest) :
    Reads Repeats A (linesOfTokens base) (Derives base) ts := by
  refine .andThenAlike h (fun w stmt rest hr hw => ?_) (fun w stmt hw => .of (.one hw))
    fun stmt w' p p' hr hp hst => ?_
  · exact .map ((hs stmt rest hr).mono fun w' name h => h.append w) fun w' stmts h => h.derives hw
  · rintro ⟨l, line, hl⟩
    cases w' with
    | nil =>
      -- The statement ended in front of a line of the same width, which is then the next statement.
      cases hl
      exact absurd (hst rfl).of_map (restOfTokens_not_stalls base l line)
    | cons t w' => exact hp.append w'

end Block

mutual

theorem Block.ofTokens_reads (base : Nat) (l : Location) (line : List Token) :
    Reads Repeats A (fun ts => (Block.ofTokens ts).answer) (Block.Derives base)
      (⟨.indent base, l⟩ :: line) := by
  refine .congr _ (Block.lines_reads (Stmt.ofTokens_reads base l line) fun stmt rest hr => ?_)
    fun ts' hs => ?_
  · have := Reply.shorter hr
    exact Block.restOfTokens_reads base rest
  · obtain ⟨line', rfl⟩ := hs.symm.eq_cons
    rw [Block.ofTokens]
    simp only [answer_andThen, answer_found, Block.linesOfTokens]
termination_by 4 * line.length + 6
decreasing_by all_goals grind

theorem Block.restOfTokens_reads (base : Nat) (ts : List Token) :
    Reads Repeats A (fun ts => (Block.restOfTokens base ts).answer) (Block.Further base) ts := by
  generalize ht : ts = given
  fun_cases Block.restOfTokens base given
  · case case1 width l line hw =>
    refine .stop .unexpectedIndentation nofun ⟨[], [], .none⟩ fun ts' hs => ?_
    obtain ⟨line', rfl⟩ := hs.symm.eq_cons
    rw [Block.restOfTokens, if_pos hw, answer_stop]
  · case case2 width l line hw hw' =>
    refine .found [] .none fun ts' hs => ?_
    obtain ⟨line', rfl⟩ := hs.symm.eq_cons
    rw [Block.restOfTokens, if_neg hw, if_pos hw', answer_found]
  · case case3 width l line hw hw' =>
    obtain rfl : width = base := by omega
    refine .congr _ ((Block.lines_reads (Stmt.ofTokens_reads width l line)
      fun stmt rest hr => ?_).imp fun w stmts h => .some h) fun ts' hs => ?_
    · have := Reply.shorter hr
      exact Block.restOfTokens_reads width rest
    · obtain ⟨line', rfl⟩ := hs.symm.eq_cons
      exact Block.restOfTokens_line width l line'
  · refine .found [] .none fun ts' hs => ?_
    rw [Block.restOfTokens, answer_found]
    grind
termination_by 4 * ts.length + 1
decreasing_by all_goals grind

theorem Block.nestedOfTokens_reads (base : Nat) (what : Expectation) (ts : List Token) :
    Reads Repeats A (fun ts => (Block.nestedOfTokens base what ts).answer) (Block.Nested base)
      ts := by
  generalize ht : ts = given
  fun_cases Block.nestedOfTokens base what given
  · case case1 width l line hw =>
    refine .congr _ ((Block.ofTokens_reads width l line).imp fun w stmts h => ⟨width, hw, h⟩)
      fun ts' hs => ?_
    obtain ⟨line', rfl⟩ := hs.symm.eq_cons
    rw [Block.nestedOfTokens, if_pos hw]
  · case case2 width l line hw =>
    refine .missing what (Block.Nested.exists base) fun ts' hs => ?_
    obtain ⟨line', rfl⟩ := hs.symm.eq_cons
    rw [Block.nestedOfTokens, if_neg hw, answer_missing]
  · refine .missing what (Block.Nested.exists base) fun ts' hs => ?_
    rw [Block.nestedOfTokens, answer_missing]
    grind
termination_by 4 * ts.length + 3
decreasing_by all_goals grind

theorem Block.elseOfTokens_reads (base : Nat) (ts : List Token) :
    Reads Repeats (SameElse base) (fun ts => (Block.elseOfTokens base ts).answer) (Block.Else base)
      ts := by
  generalize ht : ts = given
  fun_cases Block.elseOfTokens base given
  · case case1 l₁ l₂ behind =>
    refine .cons (.cons ?_)
    simp only [Block.elseOfTokens, if_true, answer_loosen, answer_andThen, answer_found]
    refine .andThen (expectLineEnd_reads _ behind) ?_ ?_
    · rintro w ⟨⟩ rest hr ⟨l₃, rfl⟩
      have := Reply.shorter hr
      refine .map ((Block.nestedOfTokens_reads base _ rest).mono fun w name h => ?_)
        fun w stmts h => .some h
      exact ((h.cons _).cons _).cons _
    · rintro w - ⟨l₃, rfl⟩
      obtain ⟨w, stmts, h⟩ := Block.Nested.exists base
      exact ⟨w, some stmts, .some h⟩
  · case case2 width l₁ l₂ behind hw =>
    refine .found none .none fun ts' hs => Block.elseOfTokens_none ?_
    rintro l₃ l₄ behind' rfl
    cases hs
    exact hw rfl
  · case case3 hne =>
    refine .foundAlike none .none ?_ fun ts' hs ha => Block.elseOfTokens_none ?_
    · rw [Block.elseOfTokens, answer_found]
      exact hne
    · rintro l₃ l₄ behind' rfl
      obtain ⟨line, rfl⟩ := hs.eq_cons
      obtain ⟨behind, rfl⟩ := SameNext.eq_cons (ha ⟨l₃, line, rfl⟩)
      exact hne _ _ _ _ rfl
termination_by 4 * ts.length
decreasing_by all_goals grind

theorem Stmt.ofTokens_reads (base : Nat) (l : Location) (line : List Token) :
    Reads Repeats (SameElse base) (fun ts => (Stmt.ofTokens base ts).answer) (Stmt.Derives base)
      (⟨.indent base, l⟩ :: line) := by
  refine .cons ?_
  simp only [Stmt.ofTokens, answer_loosen]
  exact ((Stmt.ofLine_reads base line).mono fun w name h => h.cons _).imp fun w stmt h => h l
termination_by 4 * line.length + 4

theorem Stmt.ofLine_reads (base : Nat) (ts : List Token) :
    Reads Repeats (SameElse base) (fun ts => (Stmt.ofLine base (here ts) ts).answer)
      (fun w stmt => ∀ l, Stmt.Derives base (⟨.indent base, l⟩ :: w) stmt) ts := by
  generalize ht : ts = given
  fun_cases Stmt.ofLine base (here given) given
  · case case1 name l₁ l₂ rest =>
    refine .cons (.cons ?_)
    simp only [Stmt.ofLine, here, answer_loosen]
    exact (Stmt.declaration_reads l₁ name rest).imp fun w stmt h l => .line (h l₂)
  · case case2 l₁ rest =>
    refine .cons ?_
    simp only [Stmt.ofLine_def, here]
    refine Stmt.headed_reads ?_ fun s rest' hr => ?_
    · exact ((Stmt.signature_reads rest).mono fun w name h => h l₁).imp fun w s h => h l₁
    · have := Reply.shorter hr
      exact Block.nestedOfTokens_reads base _ rest'
  · case case3 l₁ rest =>
    refine .cons ?_
    simp only [Stmt.ofLine_if, here]
    exact Stmt.cond_reads (fun rest' _ => Block.nestedOfTokens_reads base _ rest')
      fun rest' _ => Block.elseOfTokens_reads base rest'
  · case case4 l₁ rest =>
    refine .stop .unexpectedElse nofun ⟨Stmt.sample, _, Stmt.sample_derives base⟩ fun ts' hs => ?_
    obtain ⟨rest', rfl⟩ := hs.symm.eq_cons
    rw [Stmt.ofLine, answer_stop]
  · case case5 l₁ rest =>
    refine .cons ?_
    simp only [Stmt.ofLine_while, here]
    refine Stmt.headed_reads ((Stmt.operand_reads rest).imp ?_) fun e rest' hr => ?_
    · rintro w e ⟨he⟩ body
      exact .while he
    · have := Reply.shorter hr
      exact Block.nestedOfTokens_reads base _ rest'
  · case case6 l₁ rest =>
    refine .cons ?_
    simp only [Stmt.ofLine_for, here]
    refine Stmt.headed_reads ((Stmt.loopHeader_reads rest).imp fun w s h => h l₁)
      fun s rest' hr => ?_
    have := Reply.shorter hr
    exact Block.nestedOfTokens_reads base _ rest'
  · case case7 l₁ l₂ rest =>
    refine .cons (.cons (.found _ (fun l => .line .return) fun ts' hs => ?_))
    rw [Stmt.ofLine]
    rfl
  · case case8 l₁ rest hne =>
    refine .cons (.congr _ (.map (f := fun e => .return l₁ (some e)) (Stmt.operand_reads rest) ?_)
      fun ts' hs => ?_)
    · rintro w e ⟨he⟩ l
      exact .line (.returnValue he)
    · rw [Stmt.ofLine]
      · simp only [answer_loosen, answer_andThen, answer_found, here]
      · grind
  · case case9 l₁ rest =>
    refine .cons ?_
    simp only [Stmt.ofLine, here, answer_loosen, answer_andThen, answer_found]
    refine .map (Stmt.operand_reads rest) ?_
    rintro w e ⟨he⟩ l
    exact .line (.print he)
  · case case10 l₁ rest =>
    refine .cons ?_
    simp only [Stmt.ofLine, here, answer_loosen, answer_andThen, answer_found]
    refine .map (Stmt.operand_reads rest) ?_
    rintro w e ⟨he⟩ l
    exact .line (.read he)
  · case case11 hn hd hi he hw hf hrl hr hp hre =>
    by_cases hg : ∃ name l rest, given = ⟨.identifier name, l⟩ :: rest
    · obtain ⟨name, l, rest, rfl⟩ := hg
      refine Stmt.ofLine_reads_of_name base fun l₁ rest' h => ?_
      cases h
      exact hn name l l₁ rest' rfl
    · refine .congr _ ((Stmt.exprLine_reads given).imp fun w stmt h l => .line h) fun ts' hs => ?_
      rw [Stmt.ofLine]
      · simp only [answer_andThen, answer_found, Stmt.exprLine]
      all_goals grind
termination_by 4 * ts.length
decreasing_by all_goals grind

end

namespace Block

theorem outermostOfTokens_reads (ts : List Token) :
    Reads Repeats A (fun ts => (outermostOfTokens ts).answer)
      (fun w program => ∀ l, Program (w ++ [⟨.endOfFile, l⟩]) program) ts := by
  fun_cases outermostOfTokens ts
  · case case1 width l line =>
    refine .congr _ ((ofTokens_reads width l line).imp fun w stmts h l => .block h) fun ts' hs => ?_
    obtain ⟨line', rfl⟩ := hs.symm.eq_cons
    rw [outermostOfTokens, answer_loosen]
  · refine .found [] (fun l => .empty) fun ts' hs => ?_
    rw [outermostOfTokens, answer_found]
    grind

/-- The end of the program, which is not read. -/
def endOfTokens (program : Block) (ts : List Token) : Answer Block :=
  match ts with
  | ⟨.endOfFile, l⟩ :: behind => .ok program (⟨.endOfFile, l⟩ :: behind)
  | ts => .error ⟨.expected .endOfFile, here ts⟩ ts

theorem programOfTokens_answer (ts : List Token) :
    (programOfTokens ts).answer = (outermostOfTokens ts).answer.andThen endOfTokens := by
  rw [programOfTokens]
  cases outermostOfTokens ts with
  | error fault rest => rfl
  | ok program rest shorter =>
    cases rest with
    | nil => rfl
    | cons t behind =>
      obtain ⟨kind, l⟩ := t
      cases kind <;> rfl

theorem programOfTokens_reads (ts : List Token) :
    Reads Repeats (fun _ _ => True) (fun ts => (programOfTokens ts).answer)
      (fun w program => ∀ l, Program (w ++ [⟨.endOfFile, l⟩]) program) ts := by
  simp only [programOfTokens_answer]
  refine .andThen (outermostOfTokens_reads ts) (fun w program rest _ hw => ?_)
    fun w program hw => .of hw
  have hw' : ∀ l, Program ((w ++ []) ++ [⟨.endOfFile, l⟩]) program := by simpa using hw
  fun_cases endOfTokens program rest
  · refine .found program hw' fun ts' hs => ?_
    obtain ⟨behind', rfl⟩ := hs.symm.eq_cons
    rfl
  · refine .missing .endOfFile (.of hw') fun ts' hs => ?_
    rw [endOfTokens]
    grind

end Block

end Offside

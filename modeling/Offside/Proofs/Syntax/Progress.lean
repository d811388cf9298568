import Mathlib.Logic.Relation
import Offside.Proofs.Syntax.DescentRules

/-!
The parser gets on. Wherever it starts and whatever it is called for, one call after the other, also
behind a fault, it returns; it never goes back, nor behind the end of the program; and it descends
only to where fewer tokens are left, or to a rule that binds tighter.
-/

namespace Offside

open Token

theorem Token.Terminated.of_suffix {ts rest : List Token} (h : Terminated ts) (hs : rest <:+ ts)
    (hne : rest ≠ []) : Terminated rest := by
  obtain ⟨w, rfl⟩ := hs
  induction w with
  | nil => exact h
  | cons t w ih =>
    refine ih (h.tail (TokenKind.isEnd_eq_false_iff.2 fun ht => ?_))
    obtain ⟨kind, l⟩ := t
    cases ht
    exact hne (List.append_eq_nil_iff.1 (Terminated.nothing_behind (w := []) h)).2

namespace Parser

/-- What the reader of a rule makes of the tokens in front of the parser, and the parser behind the
ones that were read. -/
def read (p : Parser) (g : Goal) : Except SyntaxFault g.Result × Parser :=
  let r := g.answer (p.tokens.drop p.position)
  (r.result, p.seek r.rest)

/-- The parser after some calls, one after the other. -/
def readAll (p : Parser) (calls : List Goal) : Parser :=
  calls.foldl (fun p g => (p.read g).2) p

/-- In a rule, with the parser in one place, it is descended to a rule, in another place. -/
def Descent (a b : Goal × Parser) : Prop :=
  (a.1.body a.2).Descends b.1 b.2

/-- A call gets on. It returns after finitely many descents; it does not go back, and leaves the end
of the program unread; it reads a token if it finds an expression or a block; and wherever it has
descended to, it descends from there further ahead, or to a rule that binds tighter. -/
structure GetsOn (p : Parser) (g : Goal) : Prop where
  returns : ∃ n, (g.body p).Returns n (p.read g).1 (p.read g).2
  same : (p.read g).2.tokens = p.tokens
  onward : p.position ≤ (p.read g).2.position
  within : (p.read g).2.position < p.tokens.length
  unread : Terminated (p.tokens.drop (p.read g).2.position)
  moved : g = .expr ∨ g = .block → (∃ a, (p.read g).1 = .ok a) →
    p.position < (p.read g).2.position
  descent : ∀ a b, Relation.ReflTransGen Descent (g, p) a → Descent a b →
    b.2.tokens = p.tokens ∧ b.2.position < p.tokens.length ∧
      (a.2.position < b.2.position ∨ a.2.position = b.2.position ∧ b.1.rank < a.1.rank)

namespace Before

variable {p : Parser} {ts : List Token}

theorem read (h : p.Before ts) (g : Goal) :
    p.read g = ((g.answer ts).result, p.seek (g.answer ts).rest) := by
  rw [Parser.read, h.1]

/-- The parser is in front of the rest. -/
theorem read_before (h : p.Before ts) (g : Goal) : (p.read g).2.Before (g.answer ts).rest := by
  have hg := Parse.gives g ts h.2
  rw [h.read]
  exact h.seek hg.suffix hg.terminated

theorem position_read (h : p.Before ts) (g : Goal) :
    (p.read g).2.position + (g.answer ts).rest.length = p.position + ts.length := by
  have hr := (h.read_before g).position_add
  rw [h.position_add, hr, h.read]
  rfl

theorem descent {a b : Goal × Parser} (ha : a.2.Before ts) (h : Descent a b) :
    b.2.tokens = a.2.tokens ∧ ∃ ts', b.2.Before ts' ∧
      (a.2.position < b.2.position ∨ a.2.position = b.2.position ∧ b.1.rank < a.1.rank) := by
  obtain ⟨hsame, ts', hb, hn⟩ := (Parse.gives a.1 ts ha.2).descends a.2 b.1 b.2 ha h
  refine ⟨hsame, ts', hb, ?_⟩
  have hpa := ha.position_add
  have hpb := hb.position_add
  rw [hsame] at hpb
  obtain hlt | ⟨heq, hrank⟩ := hn
  · left
    omega
  · right
    exact ⟨by omega, hrank⟩

theorem getsOn (h : p.Before ts) (g : Goal) : p.GetsOn g := by
  have hg := Parse.gives g ts h.2
  have hread := h.read g
  have hq := h.read_before g
  have hpos := h.position_read g
  have hlen := hg.suffix.length_le
  have hsame : (p.read g).2.tokens = p.tokens := by
    rw [hread]
    rfl
  refine ⟨?_, hsame, by omega, hsame ▸ hq.position_lt, ?_, ?_, ?_⟩
  · rw [hread]
    exact hg.returns p h
  · rw [← hsame, hq.1]
    exact hq.2
  · rintro hkind ⟨a, ha⟩
    have hshorter : (g.answer ts).rest.length < ts.length := by
      rw [hread] at ha
      obtain rfl | rfl := hkind
      all_goals
        generalize hr : Goal.answer _ ts = r at ha ⊢
        cases r with
        | ok a rest => exact Reply.shorter hr
        | error fault rest => cases ha
    omega
  · intro a b ha hab
    have hinv : a.2.tokens = p.tokens ∧ ∃ ts', a.2.Before ts' := by
      clear hab
      induction ha with
      | refl => exact ⟨rfl, ts, h⟩
      | tail _ hab ih =>
        obtain ⟨hs, ts', hb⟩ := ih
        obtain ⟨hs', ts'', hb', -⟩ := hb.descent hab
        exact ⟨hs'.trans hs, ts'', hb'⟩
    obtain ⟨hs, ts', ha⟩ := hinv
    obtain ⟨hs', ts'', hb, hd⟩ := ha.descent hab
    refine ⟨hs'.trans hs, ?_, hd⟩
    rw [← hs, ← hs']
    exact hb.position_lt

/-- In a program, in front of a token that ends an expression, the parser returns with a tree behind
exactly the tokens `w` if and only if they are an expression with that tree. -/
theorem returns_iff_derived {w rest : List Token} {t : Token} (h : p.Before (w ++ t :: rest))
    (ht : t.kind.endsExpr) (e : Expr) :
    (∃ n, (Goal.expr.body p).Returns n (.ok e) ⟨p.tokens, p.position + w.length⟩) ↔
      Expr.Derives .assignment w e := by
  have hg := Parse.gives .expr _ h.2
  obtain ⟨n, hn⟩ := hg.returns p h
  have hlength := h.position_add
  rw [List.length_append] at hlength
  have hplace : p.seek (t :: rest) = ⟨p.tokens, p.position + w.length⟩ := by
    rw [Parser.seek, Parser.mk.injEq]
    exact ⟨rfl, by omega⟩
  rw [← hplace]
  constructor
  · rintro ⟨n', hn'⟩
    obtain ⟨-, hresult, hseek⟩ := hn.unique hn'
    have hsuffix := hg.suffix
    cases hr : Goal.expr.answer (w ++ t :: rest) with
    | error fault behind =>
      rw [hr] at hresult
      cases hresult
    | ok e' behind =>
      rw [hr] at hresult hseek hsuffix
      cases hresult
      -- both are ends of the same tokens, and equally long
      have hbehind : behind.length ≤ (w ++ t :: rest).length := hsuffix.length_le
      have hsame : behind.length = (t :: rest).length := by
        have := congrArg Parser.position hseek
        simp only [Parser.seek, Answer.rest] at this
        rw [List.length_append] at hbehind
        omega
      have he := List.suffix_of_suffix_length_le hsuffix (List.suffix_append w _) hsame.le
      obtain rfl := he.eq_of_length hsame
      exact Expr.derived_of_answer hr
  · intro hd
    have hr : Goal.expr.answer (w ++ t :: rest) = .ok e (t :: rest) :=
      Expr.ofTokens_derived hd ht rest
    rw [hr] at hn
    exact ⟨n, hn⟩

theorem readAll (h : p.Before ts) (calls : List Goal) :
    (p.readAll calls).tokens = p.tokens ∧ p.position ≤ (p.readAll calls).position ∧
      ∃ ts', (p.readAll calls).Before ts' := by
  induction calls generalizing p ts with
  | nil => exact ⟨rfl, Nat.le_refl _, ts, h⟩
  | cons g calls ih =>
    have hg := h.getsOn g
    obtain ⟨hsame, honward, hbefore⟩ := ih (h.read_before g)
    exact ⟨hsame.trans hg.same, hg.onward.trans honward, hbefore⟩

end Before

/-- Wherever a parser starts in a program, any calls, also behind a fault, leave it in the program,
not in front of where it started, and the next call gets on. -/
theorem calls_get_on {tokens : List Token} (ht : Terminated tokens) {start : Nat}
    (hs : start < tokens.length) (calls : List Goal) (g : Goal) :
    (readAll ⟨tokens, start⟩ calls).tokens = tokens ∧
      start ≤ (readAll ⟨tokens, start⟩ calls).position ∧
      (readAll ⟨tokens, start⟩ calls).position < tokens.length ∧
      (readAll ⟨tokens, start⟩ calls).GetsOn g := by
  have hstart : Parser.Before ⟨tokens, start⟩ (tokens.drop start) := by
    refine ⟨rfl, ht.of_suffix (List.drop_suffix _ _) ?_⟩
    rwa [ne_eq, List.drop_eq_nil_iff, not_le]
  obtain ⟨hsame, honward, ts', hbefore⟩ := hstart.readAll calls
  have hlt := hbefore.position_lt
  rw [hsame] at hlt
  exact ⟨hsame, honward, hlt, hbefore.getsOn g⟩

/-- A line that breaks off behind a parenthesis. -/
def brokenOff : List Token :=
  [⟨.indent 0, ⟨1, 1⟩⟩, ⟨.operator .openParen, ⟨1, 1⟩⟩, ⟨.lineFeed, ⟨1, 2⟩⟩, ⟨.endOfFile, ⟨2, 1⟩⟩]

/-- The block stops at the end of its line. It is still the parser's place in the next call. -/
theorem calls_get_on_in_broken_line :
    Terminated brokenOff ∧ 0 < brokenOff.length ∧
      Parser.read ⟨brokenOff, 0⟩ .block =
        (.error ⟨.expected .operand, ⟨1, 2⟩⟩, ⟨brokenOff, 2⟩) ∧
      (readAll ⟨brokenOff, 0⟩ [.block]).GetsOn .expr := by
  have ht : Terminated brokenOff := ⟨brokenOff.take 3, ⟨2, 1⟩, rfl, by simp [brokenOff]⟩
  refine ⟨ht, by decide, ?_, (calls_get_on ht (by decide) [.block] .expr).2.2.2⟩
  cbv

end Parser

end Offside

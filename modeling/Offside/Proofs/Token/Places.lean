import Offside.Proofs.Results
import Offside.Proofs.Token.Lines
import Offside.Proofs.Token.Spelled

/-!
Where the tokens of a text stand. The tokens of a line cover all of it but the indentation and what
may stand between lexemes, each at the column of its own text.
-/

namespace Offside

/-- The tokens cover the rest of line `n` from a column on. The text of each is not empty, and it is
the text of no token of another kind; between two such texts is nothing but blanks. -/
inductive Covers (n : Nat) : Nat → List Char → List Token → Prop where
  | done (column : Nat) : Covers n column [] []
  | gap {column : Nat} {c : Char} {s : List Char} {ts : List Token}
      (hc : c = ' ' ∨ c = '\t' ∨ c = '\r' ∨ c = '\x0c') (h : Covers n (column + 1) s ts) :
      Covers n column (c :: s) ts
  | lexeme {column : Nat} {text s : List Char} {k : TokenKind} {ts : List Token}
      (htext : text ≠ []) (hkind : ∀ other, Spells text other ↔ other = k)
      (h : Covers n (column + text.length) s ts) :
      Covers n column (text ++ s) (⟨k, n, column⟩ :: ts)

/-- The tokens of line `n`: its indentation, one token or more that cover what is behind it, the
first one right there, and the line feed. -/
def LineTokens (n : Nat) (line : List Char) (ts : List Token) : Prop :=
  let width := (line.takeWhile Text.isSpace).length
  ∃ k rest, Covers n (width + 1) (line.drop width) (⟨k, n, width + 1⟩ :: rest) ∧
    ts = ⟨.indent width, n, 1⟩ :: ⟨k, n, width + 1⟩ :: rest ++ [⟨.lineFeed, n, line.length + 1⟩]

/-- The tokens of lines from line `n` on. Every line that is not blank gives its tokens and every
other line none, in the order of the lines, and the end of the text stands behind the last one. -/
def TextTokens (n : Nat) (lines : List (List Char)) (ts : List Token) : Prop :=
  ∃ pieces : List (List Token), pieces.length = lines.length ∧
    ts = pieces.flatten ++ [⟨.endOfFile, n + lines.length, 1⟩] ∧
    ∀ i line piece, lines[i]? = some line → pieces[i]? = some piece →
      (∀ c ∈ line, Text.isSpace c = true) ∧ piece = [] ∨
        (∃ c ∈ line, Text.isSpace c = false) ∧ LineTokens (n + i) line piece

theorem Spells.covers {text s : List Char} {k : TokenKind} {n column : Nat} {ts : List Token}
    (hkind : Spells text k) (h : Covers n (column + text.length) s ts) :
    Covers n column (text ++ s) (⟨k, n, column⟩ :: ts) := by
  obtain ⟨c, r, -, rfl, -⟩ := hkind.cut Lexeme.apart_nil
  refine .lexeme (List.cons_ne_nil c r) (fun other => ⟨fun hother => hother.unique hkind, ?_⟩) h
  rintro rfl
  exact hkind

theorem Covers.adjacent {n : Nat} {s : List Char} {ts : List Token} (ops : List Operator)
    (column : Nat) (h : Covers n (column + (ops.flatMap Operator.characters).length) s ts) :
    Covers n column (ops.flatMap Operator.characters ++ s)
      (Lexeme.adjacent ⟨n, column⟩ ops ++ ts) := by
  induction ops generalizing column with
  | nil => exact h
  | cons op ops ih =>
    rw [List.flatMap_cons, List.append_assoc]
    rw [List.flatMap_cons, List.length_append, ← Nat.add_assoc] at h
    exact (Spells.operator op).covers (ih _ h)

theorem Covers.cut {n column : Nat} {c : Char} {s rest : List Char} {l : Lexeme}
    (hcut : Lexeme.cut c s = some (l, rest)) {ts more : List Token}
    (hts : l.tokens ⟨n, column⟩ rest = .ok ts)
    (h : Covers n (column + l.characters.length) rest more) :
    Covers n column (c :: s) (ts ++ more) := by
  rw [← Lexeme.characters_append_of_cut hcut]
  rcases Lexeme.spells_of_cut hcut hts with ⟨k, hk, rfl⟩ | ⟨run, rfl⟩
  · exact hk.covers h
  · have hrun := Operator.munch_append run
    unfold Lexeme.tokens at hts
    dsimp only at hts
    split at hts
    · case h_1 ops hmunch =>
      cases hts
      rw [hmunch, List.append_nil] at hrun
      dsimp only at hrun
      unfold Lexeme.characters at h ⊢
      dsimp only at h ⊢
      rw [← hrun] at h ⊢
      exact h.adjacent ops column
    · cases hts

/-- A piece of a line that does not begin with white space begins with a token. -/
theorem Covers.head {n column : Nat} {c : Char} {s : List Char} {ts : List Token}
    (h : Covers n column (c :: s) ts) (hc : Text.isSpace c = false) :
    ∃ k rest, ts = ⟨k, n, column⟩ :: rest := by
  generalize hline : c :: s = line at h
  cases h with
  | done => cases hline
  | gap hgap h =>
    obtain ⟨rfl, -⟩ := List.cons.inj hline
    rcases hgap with rfl | rfl | rfl | rfl <;> exact absurd hc (by decide)
  | lexeme htext hkind h => exact ⟨_, _, rfl⟩

namespace Token

/-- The tokens of the rest of a line cover it, and the line feed stands behind it. -/
theorem ofRest_covers {loc : Location} {s : List Char} {ts : List Token} (h : ofRest loc s = .ok ts)
    (hfeed : '\n' ∉ s) :
    ∃ words, Covers loc.line loc.column s words ∧
      ts = words ++ [⟨.lineFeed, loc.line, loc.column + s.length⟩] := by
  induction loc, s using ofRest.induct generalizing ts with
  | case1 loc =>
    rw [ofRest] at h
    cases h
    exact ⟨[], .done _, rfl⟩
  | case2 loc c r hblank ih =>
    rw [ofRest, if_pos hblank] at h
    obtain ⟨hc, hr⟩ := not_or.1 (List.mem_cons.not.1 hfeed)
    obtain ⟨words, hwords, rfl⟩ := ih h hr
    refine ⟨words, .gap ?_ hwords, ?_⟩
    · simpa [Lexeme.isBlank, Ne.symm hc, or_assoc] using hblank
    · simp [Location.advance, Nat.add_comm, Nat.add_left_comm]
  | case3 loc c r hblank hcut =>
    rw [ofRest, if_neg hblank] at h
    split at h
    · cases h
    · case h_2 heq => cases hcut.symm.trans heq
  | case4 loc c r hblank l rest hcut ih =>
    have happend := Lexeme.characters_append_of_cut hcut
    rw [ofRest, if_neg hblank] at h
    split at h
    · cases h
    · case h_2 heq =>
      cases hcut.symm.trans heq
      obtain ⟨first, hfirst, h⟩ := bind_ok h
      obtain ⟨more, hmore, h⟩ := bind_ok h
      have hrest : '\n' ∉ rest := fun hmem => hfeed (happend ▸ List.mem_append_right _ hmem)
      obtain ⟨words, hwords, rfl⟩ := ih hmore hrest
      refine ⟨first ++ words, Covers.cut hcut hfirst hwords, ?_⟩
      rw [← pure_ok h, List.append_assoc, ← happend, List.length_append, ← Nat.add_assoc]
      rfl

/-- A line is blank and gives no tokens, or it has all its tokens. -/
theorem ofLine_covers {used used' : Option Char} {n : Nat} {line : List Char} {ts : List Token}
    (h : ofLine used n line = .ok (used', ts)) (hfeed : '\n' ∉ line) :
    (∀ c ∈ line, Text.isSpace c = true) ∧ ts = [] ∨
      (∃ c ∈ line, Text.isSpace c = false) ∧ LineTokens n line ts := by
  unfold ofLine at h
  dsimp only at h
  split at h
  · case isTrue hblank =>
    cases h
    exact .inl ⟨List.dropWhile_eq_nil_iff.1 (List.isEmpty_iff.1 hblank), rfl⟩
  · case isFalse hcontent =>
    have hsplit := List.takeWhile_append_dropWhile (p := Text.isSpace) (l := line)
    have hdrop : line.drop (line.takeWhile Text.isSpace).length = line.dropWhile Text.isSpace :=
      (congrArg (List.drop _) hsplit.symm).trans List.drop_left
    have hlength : line.length =
        (line.takeWhile Text.isSpace).length + (line.dropWhile Text.isSpace).length := by
      rw [← List.length_append, hsplit]
    split at h
    · cases h
    · obtain ⟨tokens, htokens, h⟩ := bind_ok h
      cases pure_ok h
      obtain ⟨words, hwords, rfl⟩ := ofRest_covers htokens
        fun hmem => hfeed ((List.dropWhile_sublist _).subset hmem)
      obtain ⟨c, r, hcons⟩ := List.exists_cons_of_ne_nil (List.isEmpty_eq_false_iff.1
        (Bool.eq_false_iff.2 hcontent))
      have hc : Text.isSpace c = false := by
        have hhead := List.head?_dropWhile_not Text.isSpace line
        rw [hcons] at hhead
        simpa using hhead
      obtain ⟨k, rest, rfl⟩ := (hcons ▸ hwords).head hc
      refine .inr ⟨⟨c, ?_, hc⟩, k, rest, ?_, ?_⟩
      · rw [← hsplit, hcons]
        exact List.mem_append_right _ List.mem_cons_self
      · rw [hdrop]
        exact hwords
      · rw [hlength, Nat.add_right_comm]
        rfl

theorem ofLines_covers {used : Option Char} {n : Nat} {lines : List (List Char)} {ts : List Token}
    (h : ofLines used n lines = .ok ts) (hfeed : ∀ line ∈ lines, '\n' ∉ line) :
    TextTokens n lines ts := by
  induction lines generalizing used n ts with
  | nil =>
    cases h
    exact ⟨[], rfl, rfl, fun i line piece hline => by simp at hline⟩
  | cons first lines ih =>
    rw [ofLines] at h
    obtain ⟨⟨used', tokens⟩, hfirst, h⟩ := bind_ok h
    obtain ⟨rest, hrest, h⟩ := bind_ok h
    obtain ⟨hfirstfeed, hfeed⟩ := List.forall_mem_cons.1 hfeed
    obtain ⟨pieces, hlength, rfl, hpieces⟩ := ih hrest hfeed
    refine ⟨tokens :: pieces, ?_, ?_, ?_⟩
    · rw [List.length_cons, List.length_cons, hlength]
    · rw [← pure_ok h, List.flatten_cons, List.append_assoc, List.length_cons, Nat.add_assoc,
        Nat.add_comm 1]
    · intro i line piece hline hpiece
      cases i with
      | zero =>
        cases hline
        cases hpiece
        exact ofLine_covers hfirst hfirstfeed
      | succ i =>
        have hi := hpieces i line piece hline hpiece
        rwa [Nat.add_assoc, Nat.add_comm 1] at hi

/-- Nothing of a text is lost in its tokens, and every token stands where its own text does. -/
theorem ofSource_covers {source : String} {tokens : List Token} (h : ofSource source = .ok tokens) :
    ∃ lines, SourceLines source.toList lines ∧ TextTokens 1 lines tokens :=
  have hlines := sourceLines_lines source.toList
  ⟨_, hlines, ofLines_covers h hlines.lineFeed_notMem⟩

/-- Carriage returns, a blank line, a letter of two bytes and operators without a gap. -/
theorem ofSource_covers_mixed :
    let source := "\t\ta\r\r\n \u00a0\n\tprint 'é' \x0c<=-2.50\r"
    let tokens : List Token := [⟨.indent 2, 1, 1⟩, ⟨.identifier "a", 1, 3⟩, ⟨.lineFeed, 1, 4⟩,
      ⟨.indent 1, 3, 1⟩, ⟨.keyword .printWord, 3, 2⟩, ⟨.string "é", 3, 8⟩,
      ⟨.operator .lessThanEquals, 3, 13⟩, ⟨.operator .minus, 3, 15⟩,
      ⟨.number (.ofBits 0x4004000000000000), 3, 16⟩, ⟨.lineFeed, 3, 20⟩, ⟨.endOfFile, 4, 1⟩]
    ofSource source = .ok tokens ∧
      ∃ lines, SourceLines source.toList lines ∧ TextTokens 1 lines tokens :=
  ⟨by decide +kernel, ofSource_covers (by decide +kernel)⟩

end Token

end Offside

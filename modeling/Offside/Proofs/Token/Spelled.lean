import Offside.Proofs.Number.Spelling
import Offside.Proofs.Token.Munching
import Offside.Token.Lexer

/-!
The texts of single tokens. What is cut off a line is such a text, or a run of operators; and such a
text is cut off whole in front of a space and at the end of a line.
-/

namespace Offside

open Number (Numeral)

/-- The text is that of a token of this kind. -/
inductive Spells : List Char → TokenKind → Prop where
  | number {digits : List Char} {x : Float} (hdigits : Numeral digits)
      (hread : Number.read digits = some x) : Spells digits (.number x)
  | word {c : Char} {s : List Char} (hc : Lexeme.isWordStart c)
      (hs : ∀ d ∈ s, Lexeme.isWordChar d) :
      Spells (c :: s) (Lexeme.wordKind (String.ofList (c :: s)))
  | text {quote : Char} {contents : List Char} (hquote : Lexeme.isQuote quote)
      (hcontents : quote ∉ contents) :
      Spells (quote :: contents ++ [quote]) (.string (String.ofList contents))
  | operator (op : Operator) : Spells op.characters (.operator op)

namespace Operator

theorem isSpace_of_mem_characters {op : Operator} {c : Char} (h : c ∈ op.characters) :
    Text.isSpace c = false := by
  have hall : op.characters.all (fun c => !Text.isSpace c) = true := by
    cases op <;> decide
  simpa using List.all_eq_true.1 hall c h

theorem isSymbol_of_mem_characters {op : Operator} {c : Char} (h : c ∈ op.characters) :
    Lexeme.isSymbol c = true := by
  have hall : op.characters.all Lexeme.isSymbol = true := by
    cases op <;> decide
  exact List.all_eq_true.1 hall c h

end Operator

namespace Lexeme

/-! The first character tells the lexemes apart. -/

theorem isWordStart_of_isDigit {c : Char} (h : c.isDigit) : isWordStart c = false := by
  have hne : c ≠ '_' := by rintro rfl; exact absurd h (by decide)
  simp only [Char.isDigit, Bool.and_eq_true, decide_eq_true_eq] at h
  have halpha : ¬ (c.isAlpha = true) := by
    simp only [Char.isAlpha, Char.isUpper, Char.isLower, Bool.or_eq_true, Bool.and_eq_true,
      decide_eq_true_eq]
    rintro (hupper | hlower)
    · exact absurd (UInt32.le_trans hupper.1 h.2) (by decide)
    · exact absurd (UInt32.le_trans hlower.1 h.2) (by decide)
  simp [isWordStart, halpha, hne]

theorem isWordChar_of_isDigit {c : Char} (h : c.isDigit) : isWordChar c = true := by
  simp [isWordChar, Char.isAlphanum, h]

theorem isWordChar_of_isWordStart {c : Char} (h : isWordStart c) : isWordChar c = true := by
  simp only [isWordStart, Bool.or_eq_true] at h
  simp only [isWordChar, Char.isAlphanum, Bool.or_eq_true]
  exact h.imp_left .inl

theorem isQuote_iff {c : Char} : isQuote c = true ↔ c = '"' ∨ c = '\'' := by
  simp [isQuote]

/-! No lexeme begins with white space. -/

theorem isSpace_eq_false {c : Char} (hlow : 0x20 < c.toNat) (hhigh : c.toNat < 0x85) :
    Text.isSpace c = false := by
  rw [Bool.eq_false_iff]
  intro hspace
  obtain ⟨r, hr, hle, hge⟩ := (Text.CharClass.contains_iff _ c).1 hspace
  simp only [Text.whiteSpace, List.mem_cons, List.not_mem_nil, or_false] at hr
  rcases hr with rfl | rfl | rfl | rfl | rfl | rfl | rfl | rfl | rfl | rfl <;>
    dsimp only at hle hge <;> omega

theorem isSpace_of_isBlank {c : Char} (h : isBlank c) : Text.isSpace c = true := by
  simp only [isBlank, Bool.or_eq_true, decide_eq_true_eq] at h
  rcases h with (((rfl | rfl) | rfl) | rfl) | rfl <;> decide

theorem isSpace_of_isWordChar {c : Char} (h : isWordChar c) : Text.isSpace c = false := by
  simp only [isWordChar, Char.isAlphanum, Char.isAlpha, Char.isUpper, Char.isLower, Char.isDigit,
    Bool.or_eq_true, Bool.and_eq_true, decide_eq_true_eq, UInt32.le_iff_toNat_le, ge_iff_le] at h
  rcases h with ((⟨hle, hge⟩ | ⟨hle, hge⟩) | ⟨hle, hge⟩) | rfl
  · exact isSpace_eq_false (Nat.lt_of_lt_of_le (by decide) hle) (Nat.lt_of_le_of_lt hge (by decide))
  · exact isSpace_eq_false (Nat.lt_of_lt_of_le (by decide) hle) (Nat.lt_of_le_of_lt hge (by decide))
  · exact isSpace_eq_false (Nat.lt_of_lt_of_le (by decide) hle) (Nat.lt_of_le_of_lt hge (by decide))
  · decide

/-! Cutting at the first character. -/

theorem cut_digit {c : Char} (h : c.isDigit) (s : List Char) :
    cut c s = some (.number (cutNumber c s).1, (cutNumber c s).2) := by
  simp [cut, h]

theorem cut_word {c : Char} (h : isWordStart c) (s : List Char) :
    cut c s = some (.word (c :: s.takeWhile isWordChar), s.dropWhile isWordChar) := by
  have hdigit : ¬ (c.isDigit = true) := by
    intro hdigit
    rw [isWordStart_of_isDigit hdigit] at h
    exact Bool.false_ne_true h
  simp [cut, h, hdigit]

theorem cut_quote {quote : Char} (h : isQuote quote) {contents : List Char}
    (hcontents : quote ∉ contents) (rest : List Char) :
    cut quote (contents ++ quote :: rest) = some (.text quote contents, rest) := by
  have hother : ¬ (quote.isDigit = true) ∧ ¬ (isWordStart quote = true) := by
    rcases isQuote_iff.1 h with rfl | rfl <;> decide
  have hne : ∀ c ∈ contents, decide (c ≠ quote) = true := by
    intro c hc
    rw [decide_eq_true_eq]
    rintro rfl
    exact hcontents hc
  unfold cut
  rw [if_neg hother.1, if_neg hother.2, if_pos h, List.dropWhile_append_of_pos hne,
    List.takeWhile_append_of_pos hne]
  simp

theorem cut_symbol {c : Char} (h : isSymbol c) (s : List Char) :
    cut c s = some (.symbols (c :: s.takeWhile isSymbol), s.dropWhile isSymbol) := by
  simp only [isSymbol, Bool.not_eq_true', Bool.or_eq_false_iff] at h
  obtain ⟨⟨-, hword⟩, hquote⟩ := h
  have hdigit : ¬ (c.isDigit = true) := by
    intro hdigit
    rw [isWordChar_of_isDigit hdigit] at hword
    exact Bool.false_ne_true hword.symm
  have hstart : ¬ (isWordStart c = true) := by
    intro hstart
    rw [isWordChar_of_isWordStart hstart] at hword
    exact Bool.false_ne_true hword.symm
  simp [cut, hdigit, hstart, hquote]

/-! What is cut off. -/

theorem numeral_cutNumber {c : Char} (h : c.isDigit) (s : List Char) :
    Numeral (cutNumber c s).1 := by
  have hdigits : ∀ r : List Char, ∀ d ∈ r.takeWhile Char.isDigit, d.isDigit :=
    fun r d hd => List.mem_takeWhile_imp hd
  have hwhole : ∀ d ∈ c :: s.takeWhile Char.isDigit, d.isDigit :=
    List.forall_mem_cons.2 ⟨h, hdigits s⟩
  unfold cutNumber
  dsimp only
  split
  · case h_1 r hr => exact .pointed (List.cons_ne_nil _ _) hwhole (hdigits r)
  · case h_2 hr => exact .integer (List.cons_ne_nil _ _) hwhole

/-- A piece that is no run of symbols is the text of a single token. -/
theorem spells_of_cut {c : Char} {s rest : List Char} {l : Lexeme} (h : cut c s = some (l, rest))
    {loc : Location} {ts : List Token} (hts : l.tokens loc rest = .ok ts) :
    (∃ k, Spells l.characters k ∧ ts = [⟨k, loc⟩]) ∨ ∃ run, l = .symbols run := by
  by_cases hdigit : c.isDigit
  · rw [cut_digit hdigit] at h
    obtain ⟨rfl, rfl⟩ := Prod.mk.inj (Option.some.inj h)
    have hnumeral := numeral_cutNumber hdigit s
    obtain ⟨x, hx, -⟩ := hnumeral.read
    unfold tokens at hts
    dsimp only at hts
    rw [hx] at hts
    split at hts
    · cases hts
    · cases hts
      exact .inl ⟨_, .number hnumeral hx, rfl⟩
  · by_cases hstart : isWordStart c
    · rw [cut_word hstart] at h
      cases h
      cases hts
      exact .inl ⟨_, .word hstart fun d hd => List.mem_takeWhile_imp hd, rfl⟩
    · unfold cut at h
      rw [if_neg hdigit, if_neg hstart] at h
      split at h
      · case isTrue hquote =>
        split at h
        · cases h
        · cases h
          cases hts
          refine .inl ⟨_, .text hquote fun hmem => ?_, rfl⟩
          have hne := List.mem_takeWhile_imp hmem
          simp at hne
      · cases h
        exact .inr ⟨_, rfl⟩

/-! A text that ends in front of a space. -/

/-- Nothing or a space follows. -/
def Apart (rest : List Char) : Prop :=
  ∀ c ∈ rest.head?, c = ' '

theorem apart_nil : Apart [] := by
  simp [Apart]

theorem apart_space (s : List Char) : Apart (' ' :: s) := by
  simp [Apart]

theorem takeWhile_of_apart {p : Char → Bool} (hp : p ' ' = false) {rest : List Char}
    (hrest : Apart rest) : rest.takeWhile p = [] ∧ rest.dropWhile p = rest := by
  cases rest with
  | nil => exact ⟨rfl, rfl⟩
  | cons c rest =>
    have hc : c = ' ' := hrest c rfl
    subst hc
    simp [hp]

theorem takeWhile_append_of_apart {p : Char → Bool} (hp : p ' ' = false) {s rest : List Char}
    (hs : ∀ c ∈ s, p c) (hrest : Apart rest) :
    (s ++ rest).takeWhile p = s ∧ (s ++ rest).dropWhile p = rest := by
  obtain ⟨htake, hdrop⟩ := takeWhile_of_apart hp hrest
  rw [List.takeWhile_append_of_pos hs, List.dropWhile_append_of_pos hs, htake, hdrop,
    List.append_nil]
  exact ⟨rfl, rfl⟩

theorem cutNumber_apart {c : Char} {s rest : List Char} (h : Numeral (c :: s))
    (hrest : Apart rest) : cutNumber c (s ++ rest) = (c :: s, rest) := by
  generalize hnumeral : c :: s = numeral at h
  cases h with
  | integer hne hwhole =>
    subst hnumeral
    have hs := (List.forall_mem_cons.1 hwhole).2
    obtain ⟨htake, hdrop⟩ := takeWhile_append_of_apart (p := Char.isDigit) rfl hs hrest
    unfold cutNumber
    rw [htake, hdrop]
    dsimp only
    split
    · case h_1 r => cases hrest '.' rfl
    · rfl
  | @pointed whole fraction hne hwhole hfraction =>
    obtain ⟨d, whole, rfl⟩ := List.exists_cons_of_ne_nil hne
    rw [List.cons_append] at hnumeral
    obtain ⟨rfl, rfl⟩ := List.cons.inj hnumeral
    have hs := (List.forall_mem_cons.1 hwhole).2
    obtain ⟨htake, hdrop⟩ := takeWhile_append_of_apart (p := Char.isDigit) rfl hfraction hrest
    unfold cutNumber
    rw [List.append_assoc, List.takeWhile_append_of_pos hs, List.dropWhile_append_of_pos hs,
      List.cons_append, List.takeWhile_cons_of_neg (by decide),
      List.dropWhile_cons_of_neg (by decide)]
    change (c :: (whole ++ []) ++ '.' :: (fraction ++ rest).takeWhile Char.isDigit,
      (fraction ++ rest).dropWhile Char.isDigit) = _
    rw [htake, hdrop, List.append_nil]

theorem runsIntoWord_apart {rest : List Char} (hrest : Apart rest) :
    runsIntoWord rest = false := by
  cases rest with
  | nil => rfl
  | cons c rest =>
    have hc : c = ' ' := hrest c rfl
    subst hc
    have hspace : Text.alphabetic.contains ' ' = false := by decide +kernel
    simp [runsIntoWord, hspace]

end Lexeme

namespace Spells

variable {s : List Char} {k : TokenKind}

/-- A text of a token is cut off whole when nothing or a space follows, and gives the token. -/
theorem cut (h : Spells s k) {rest : List Char} (hrest : Lexeme.Apart rest) :
    ∃ c r l, s = c :: r ∧ Text.isSpace c = false ∧ Lexeme.cut c (r ++ rest) = some (l, rest) ∧
      l.characters = s ∧ ∀ loc, l.tokens loc rest = .ok [⟨k, loc⟩] := by
  cases h with
  | @number digits x hdigits hread =>
    obtain ⟨c, r, rfl, hc⟩ := hdigits.head
    refine ⟨c, r, .number (c :: r), rfl, ?_, ?_, rfl, fun loc => ?_⟩
    · exact Lexeme.isSpace_of_isWordChar (Lexeme.isWordChar_of_isDigit hc)
    · rw [Lexeme.cut_digit hc, Lexeme.cutNumber_apart hdigits hrest]
    · simp [Lexeme.tokens, Lexeme.runsIntoWord_apart hrest, hread]
  | @word c r hc hr =>
    obtain ⟨htake, hdrop⟩ :=
      Lexeme.takeWhile_append_of_apart (p := Lexeme.isWordChar) rfl hr hrest
    refine ⟨c, r, .word (c :: r), rfl, ?_, ?_, rfl, fun loc => rfl⟩
    · exact Lexeme.isSpace_of_isWordChar (Lexeme.isWordChar_of_isWordStart hc)
    · rw [Lexeme.cut_word hc, htake, hdrop]
  | @text quote contents hquote hcontents =>
    refine ⟨quote, contents ++ [quote], .text quote contents, rfl, ?_, ?_, rfl, fun loc => rfl⟩
    · rcases Lexeme.isQuote_iff.1 hquote with rfl | rfl <;> decide
    · rw [List.append_assoc]
      exact Lexeme.cut_quote hquote hcontents rest
  | operator op =>
    have hsymbols : ∀ c ∈ op.characters, Lexeme.isSymbol c = true :=
      fun c hc => Operator.isSymbol_of_mem_characters hc
    have hspaces : ∀ c ∈ op.characters, Text.isSpace c = false :=
      fun c hc => Operator.isSpace_of_mem_characters hc
    have hmunch := Operator.munch_characters op
    generalize hs : op.characters = s at hsymbols hspaces hmunch
    obtain ⟨c, r, rfl⟩ : ∃ c r, s = c :: r := by
      subst hs
      cases op <;> exact ⟨_, _, rfl⟩
    obtain ⟨hc, hr⟩ := List.forall_mem_cons.1 hsymbols
    obtain ⟨htake, hdrop⟩ :=
      Lexeme.takeWhile_append_of_apart (p := Lexeme.isSymbol) rfl hr hrest
    refine ⟨c, r, .symbols (c :: r), rfl, ?_, ?_, rfl, fun loc => ?_⟩
    · exact hspaces c List.mem_cons_self
    · rw [Lexeme.cut_symbol hc, htake, hdrop]
    · simp [Lexeme.tokens, hmunch, Lexeme.adjacent]

/-- The kind of a token is determined by its text. -/
theorem unique {other : TokenKind} (h : Spells s k) (h' : Spells s other) : k = other := by
  obtain ⟨c, r, l, hs, -, hcut, -, htokens⟩ := h.cut Lexeme.apart_nil
  obtain ⟨c', r', l', hs', -, hcut', -, htokens'⟩ := h'.cut Lexeme.apart_nil
  rw [hs] at hs'
  obtain ⟨rfl, rfl⟩ := List.cons.inj hs'
  rw [hcut] at hcut'
  cases hcut'
  have heq := (htokens ⟨1, 1⟩).symm.trans (htokens' ⟨1, 1⟩)
  simpa using heq

/-- No carriage return at the end of a line belongs to a token. -/
theorem return_notLast (h : Spells s k) : s.getLast? ≠ some '\r' := by
  cases h with
  | number hdigits hread =>
    intro hlast
    exact absurd (hdigits.isDigit_or_point (List.mem_of_getLast? hlast)) (by decide)
  | word hc hs =>
    intro hlast
    rcases List.mem_cons.1 (List.mem_of_getLast? hlast) with heq | hmem
    · exact absurd (heq ▸ hc) (by decide)
    · exact absurd (hs _ hmem) (by decide)
  | text hquote hcontents =>
    rw [List.getLast?_append]
    rcases Lexeme.isQuote_iff.1 hquote with rfl | rfl <;> simp
  | operator op => cases op <;> decide

end Spells

end Offside

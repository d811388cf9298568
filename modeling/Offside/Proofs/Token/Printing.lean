import Offside.Proofs.Token.Lines
import Offside.Proofs.Token.Spelled

/-!
Texts printed from tokens. Every line is an indentation, the spellings of its tokens with one space
between them, and a line feed. Reading such a text gives the tokens of each line again.
-/

namespace Offside

/-- The tokens of one line of a text, without those of its layout. -/
structure TokenLine where
  width : Nat
  words : List TokenKind

namespace TokenLine

/-- The spellings with single spaces between them. -/
def joined (words : List TokenKind) : List Char :=
  [' '].intercalate (words.filterMap fun k => k.spelling.map String.toList)

def text (line : TokenLine) : List Char :=
  List.replicate line.width ' ' ++ joined line.words

def kinds (line : TokenLine) : List TokenKind :=
  .indent line.width :: line.words ++ [.lineFeed]

/-- The text of lines, with a line feed behind each of them. -/
def print (lines : List TokenLine) : String :=
  String.ofList (lines.flatMap fun line => line.text ++ ['\n'])

/-- The kinds of all tokens of a text with these lines. -/
def layout (lines : List TokenLine) : List TokenKind :=
  lines.flatMap kinds ++ [.endOfFile]

end TokenLine

/-- The token has a spelling, on one line, that is the text of a token of the other kind. -/
def TokenKind.Rereads (k other : TokenKind) : Prop :=
  ∃ s : String, k.spelling = some s ∧ Spells s.toList other ∧ '\n' ∉ s.toList

namespace TokenLine

/-! The text of a line. -/

variable {again : TokenKind → TokenKind} {words : List TokenKind}

/-- The first word ends the line, or a space and the other words follow. -/
theorem joined_cases {k : TokenKind} (h : ∀ other ∈ k :: words, other.Rereads (again other)) :
    ∃ s, Spells s (again k) ∧ '\n' ∉ s ∧
      (words = [] ∧ joined (k :: words) = s ∨ joined (k :: words) = s ++ ' ' :: joined words) := by
  obtain ⟨⟨s, hs, hspells, hfeed⟩, hwords⟩ := List.forall_mem_cons.1 h
  refine ⟨s.toList, hspells, hfeed, ?_⟩
  cases words with
  | nil =>
    left
    simp [joined, hs]
  | cons next words =>
    obtain ⟨⟨t, ht, -⟩, -⟩ := List.forall_mem_cons.1 hwords
    right
    simp [joined, hs, ht]

theorem lineFeed_notMem_joined (h : ∀ k ∈ words, k.Rereads (again k)) : '\n' ∉ joined words := by
  induction words with
  | nil => exact List.not_mem_nil
  | cons k words ih =>
    have hrest := ih (List.forall_mem_cons.1 h).2
    obtain ⟨s, -, hfeed, ⟨-, hjoined⟩ | hjoined⟩ := joined_cases h
    · rwa [hjoined]
    · rw [hjoined]
      intro hmem
      rcases List.mem_append.1 hmem with hmem | hmem
      · exact hfeed hmem
      · exact hrest (List.mem_of_ne_of_mem (by decide) hmem)

theorem return_notLast_joined (h : ∀ k ∈ words, k.Rereads (again k)) :
    (joined words).getLast? ≠ some '\r' := by
  induction words with
  | nil => simp [joined]
  | cons k words ih =>
    have hrest := ih (List.forall_mem_cons.1 h).2
    obtain ⟨s, hspells, -, ⟨-, hjoined⟩ | hjoined⟩ := joined_cases h
    · rw [hjoined]
      exact hspells.return_notLast
    · rw [hjoined, List.getLast?_append, List.getLast?_cons]
      generalize (joined words).getLast? = last at hrest
      cases last with
      | none => simp
      | some c => simpa using hrest

theorem joined_head (hne : words ≠ []) (h : ∀ k ∈ words, k.Rereads (again k)) :
    ∃ c s, joined words = c :: s ∧ Text.isSpace c = false := by
  obtain ⟨k, words, rfl⟩ := List.exists_cons_of_ne_nil hne
  obtain ⟨s, hspells, -, hjoined⟩ := joined_cases h
  obtain ⟨c, r, -, rfl, hc, -⟩ := hspells.cut Lexeme.apart_nil
  rcases hjoined with ⟨-, hjoined⟩ | hjoined
  · exact ⟨c, r, hjoined, hc⟩
  · exact ⟨c, _, hjoined, hc⟩

/-! Reading a line. -/

theorem ofRest_spells {s rest : List Char} {k : TokenKind} (h : Spells s k)
    (hrest : Lexeme.Apart rest) {loc : Location} {ts : List Token}
    (hts : Token.ofRest (loc.advance s.length) rest = .ok ts) :
    Token.ofRest loc (s ++ rest) = .ok (⟨k, loc⟩ :: ts) := by
  obtain ⟨c, r, l, rfl, hc, hcut, hcharacters, htokens⟩ := h.cut hrest
  have hblank : ¬ (Lexeme.isBlank c = true) := by
    intro hblank
    rw [Lexeme.isSpace_of_isBlank hblank] at hc
    exact Bool.false_ne_true hc.symm
  rw [List.cons_append, Token.ofRest, if_neg hblank]
  split
  · case h_1 heq => cases hcut.symm.trans heq
  · case h_2 heq =>
    cases hcut.symm.trans heq
    rw [htokens, hcharacters, hts]
    rfl

/-- The words of a line are read as tokens of the other kinds. -/
theorem ofRest_joined (h : ∀ k ∈ words, k.Rereads (again k)) (loc : Location) :
    ∃ ts, Token.ofRest loc (joined words) = .ok ts ∧
      ts.map Token.kind = words.map again ++ [.lineFeed] := by
  have hnil : ∀ loc, Token.ofRest loc [] = .ok [⟨.lineFeed, loc⟩] := fun loc => by
    rw [Token.ofRest]
  induction words generalizing loc with
  | nil => exact ⟨_, hnil loc, rfl⟩
  | cons k words ih =>
    obtain ⟨s, hspells, -, ⟨rfl, hjoined⟩ | hjoined⟩ := joined_cases h
    · have hread := ofRest_spells hspells Lexeme.apart_nil (hnil (loc.advance s.length))
      rw [List.append_nil] at hread
      rw [hjoined]
      exact ⟨_, hread, rfl⟩
    · obtain ⟨ts, hts, hkinds⟩ :=
        ih (List.forall_mem_cons.1 h).2 ((loc.advance s.length).advance 1)
      have hspace : Token.ofRest (loc.advance s.length) (' ' :: joined words) = .ok ts := by
        rw [Token.ofRest, if_pos (by decide), hts]
      rw [hjoined]
      refine ⟨_, ofRest_spells hspells (Lexeme.apart_space _) hspace, ?_⟩
      rw [List.map_cons, hkinds]
      rfl

/-- Only spaces indent. -/
theorem indentedBy_spaces {used : Option Char} (hused : used = none ∨ used = some ' ')
    (width : Nat) : ∃ used', Token.indentedBy used (List.replicate width ' ') = .ok used' ∧
      (used' = none ∨ used' = some ' ') := by
  have hnone : (List.replicate width ' ').findIdx? (· ≠ ' ') = none := by
    rw [List.findIdx?_eq_none_iff]
    intro c hc
    simp [List.eq_of_mem_replicate hc]
  have hfirst : used.or (List.replicate width ' ').head? = none ∨
      used.or (List.replicate width ' ').head? = some ' ' := by
    rcases hused with rfl | rfl
    · cases width with
      | zero => exact .inl rfl
      | succ width => exact .inr rfl
    · exact .inr rfl
  unfold Token.indentedBy
  rcases hfirst with hfirst | hfirst
  · rw [hfirst]
    exact ⟨none, rfl, .inl rfl⟩
  · rw [hfirst]
    dsimp only
    rw [hnone]
    exact ⟨some ' ', rfl, .inr rfl⟩

theorem ofLine_text {line : TokenLine} (hne : line.words ≠ [])
    (h : ∀ k ∈ line.words, k.Rereads (again k)) {used : Option Char}
    (hused : used = none ∨ used = some ' ') (n : Nat) :
    ∃ used' ts, Token.ofLine used n line.text = .ok (used', ts) ∧
      (used' = none ∨ used' = some ' ') ∧
      ts.map Token.kind = kinds ⟨line.width, line.words.map again⟩ := by
  obtain ⟨c, s, hcons, hc⟩ := joined_head hne h
  have hspaces : ∀ d ∈ List.replicate line.width ' ', Text.isSpace d = true := by
    intro d hd
    rw [List.eq_of_mem_replicate hd]
    decide
  have hneg : ¬ (Text.isSpace c = true) := Bool.eq_false_iff.1 hc
  have htake : line.text.takeWhile Text.isSpace = List.replicate line.width ' ' := by
    rw [text, List.takeWhile_append_of_pos hspaces, hcons, List.takeWhile_cons_of_neg hneg,
      List.append_nil]
  have hdrop : line.text.dropWhile Text.isSpace = joined line.words := by
    rw [text, List.dropWhile_append_of_pos hspaces, hcons, List.dropWhile_cons_of_neg hneg]
  have hcontent : ¬ ((joined line.words).isEmpty = true) := by
    rw [hcons]
    exact Bool.false_ne_true
  obtain ⟨used', hindent, hused'⟩ := indentedBy_spaces hused line.width
  obtain ⟨ts, hts, hkinds⟩ := ofRest_joined h ⟨n, line.width + 1⟩
  refine ⟨used', ⟨.indent line.width, n, 1⟩ :: ts, ?_, hused', ?_⟩
  · unfold Token.ofLine
    rw [htake, hdrop]
    dsimp only
    rw [if_neg hcontent, hindent, List.length_replicate]
    dsimp only
    rw [hts]
    rfl
  · rw [List.map_cons, hkinds]
    rfl

/-! Reading a text. -/

/-- Lines that have words, and words that can be read. -/
def Readable (again : TokenKind → TokenKind) (lines : List TokenLine) : Prop :=
  ∀ line ∈ lines, line.words ≠ [] ∧ ∀ k ∈ line.words, k.Rereads (again k)

theorem ofLines_text {lines : List TokenLine} (h : Readable again lines) {used : Option Char}
    (hused : used = none ∨ used = some ' ') (n : Nat) :
    ∃ ts, Token.ofLines used n (lines.map text) = .ok ts ∧
      ts.map Token.kind = layout (lines.map fun line => ⟨line.width, line.words.map again⟩) := by
  induction lines generalizing used n with
  | nil => exact ⟨_, rfl, rfl⟩
  | cons line lines ih =>
    obtain ⟨⟨hne, hwords⟩, hlines⟩ := List.forall_mem_cons.1 h
    obtain ⟨used', ts, hts, hused', hkinds⟩ := ofLine_text hne hwords hused n
    obtain ⟨more, hmore, hmorekinds⟩ := ih hlines hused' (n + 1)
    refine ⟨ts ++ more, ?_, ?_⟩
    · rw [List.map_cons, Token.ofLines, hts]
      change (do
        let rest ← Token.ofLines used' (n + 1) (lines.map text)
        return ts ++ rest) = _
      rw [hmore]
      rfl
    · rw [List.map_append, hkinds, hmorekinds, layout, layout, List.map_cons, List.flatMap_cons,
        List.append_assoc]

theorem lines_print {lines : List TokenLine} (h : Readable again lines) :
    (Text.lines (print lines).toList).map Token.dropReturn = lines.map text := by
  rw [print, String.toList_ofList]
  induction lines with
  | nil => rfl
  | cons line lines ih =>
    obtain ⟨⟨hne, hwords⟩, hlines⟩ := List.forall_mem_cons.1 h
    have hfeed : '\n' ∉ line.text := by
      intro hmem
      rcases List.mem_append.1 hmem with hmem | hmem
      · exact absurd (List.eq_of_mem_replicate hmem) (by decide)
      · exact lineFeed_notMem_joined hwords hmem
    have hreturn : line.text.getLast? ≠ some '\r' := by
      obtain ⟨c, s, hcons, -⟩ := joined_head hne hwords
      have hlast := return_notLast_joined hwords
      rw [text, List.getLast?_append]
      rw [hcons, List.getLast?_cons] at hlast ⊢
      exact hlast
    rw [List.flatMap_cons, List.append_assoc, List.singleton_append, Token.lines_append hfeed,
      Token.dropReturn_eq_self hreturn, List.map_cons, ih hlines, Token.dropReturn_eq_self hreturn,
      List.map_cons]

/-- A printed text is read, line by line, as tokens of the other kinds. -/
theorem ofSource_readable {lines : List TokenLine} (h : Readable again lines) :
    ∃ ts, Token.ofSource (print lines) = .ok ts ∧
      ts.map Token.kind = layout (lines.map fun line => ⟨line.width, line.words.map again⟩) := by
  unfold Token.ofSource
  rw [lines_print h]
  exact ofLines_text h (.inl rfl) 1

end TokenLine

/-! Tokens that are read again as themselves. -/

namespace Lexeme

/-- A letter or an underscore, then letters, digits and underscores. -/
def isWord : List Char → Bool
  | [] => false
  | c :: s => isWordStart c && s.all isWordChar

end Lexeme

namespace TokenKind

/-- The tokens that can be written. Numbers are finite and not negative, not even a negative zero;
a string stands on one line and leaves out one of the quotes; a name is not reserved. -/
def Written : TokenKind → Prop
  | .boolean _ | .operator _ | .keyword _ => True
  | .number x => ∃ significand exponent, Number.exact x = .finite false significand exponent
  | .string s => '\n' ∉ s.toList ∧ ¬ ('"' ∈ s.toList ∧ '\'' ∈ s.toList)
  | .identifier name =>
    Lexeme.isWord name.toList ∧ Keyword.ofSpelling? name = none ∧ name ≠ "true" ∧ name ≠ "false"
  | .indent _ | .lineFeed | .endOfFile => False

instance : DecidablePred Written
  | .boolean _ | .operator _ | .keyword _ => isTrue trivial
  | .number x =>
    match h : Number.exact x with
    | .finite false significand exponent => isTrue ⟨significand, exponent, h⟩
    | .finite true _ _ | .infinite _ | .nan => isFalse (by simp [Written, h])
  | .string s =>
    inferInstanceAs (Decidable ('\n' ∉ s.toList ∧ ¬ ('"' ∈ s.toList ∧ '\'' ∈ s.toList)))
  | .identifier name =>
    inferInstanceAs (Decidable (Lexeme.isWord name.toList ∧ Keyword.ofSpelling? name = none ∧
      name ≠ "true" ∧ name ≠ "false"))
  | .indent _ | .lineFeed | .endOfFile => isFalse id

theorem rereads_word {k : TokenKind} {word : String} (hk : k.spelling = some word)
    (hword : Lexeme.isWord word.toList) : k.Rereads (Lexeme.wordKind word) := by
  obtain ⟨c, s, hcons⟩ : ∃ c s, word.toList = c :: s := by
    cases hlist : word.toList with
    | nil =>
      rw [hlist] at hword
      cases hword
    | cons c s => exact ⟨c, s, rfl⟩
  rw [hcons, Lexeme.isWord, Bool.and_eq_true, List.all_eq_true] at hword
  have hspells := Spells.word hword.1 hword.2
  rw [← hcons, String.ofList_toList] at hspells
  refine ⟨word, hk, hspells, ?_⟩
  rw [hcons]
  intro hmem
  rcases List.mem_cons.1 hmem with heq | hmem
  · exact absurd (heq ▸ hword.1) (by decide)
  · exact absurd (hword.2 _ hmem) (by decide)

theorem rereads_boolean (b : Bool) : (boolean b).Rereads (boolean b) := by
  cases b with
  | true =>
    have hword : Lexeme.isWord "true".toList = true := by decide
    exact rereads_word rfl hword
  | false =>
    have hword : Lexeme.isWord "false".toList = true := by decide
    exact rereads_word rfl hword

theorem rereads_keyword (word : Keyword) : (keyword word).Rereads (keyword word) := by
  have hword : Lexeme.isWord word.spelling.toList = true := by cases word <;> decide
  have hkind : Lexeme.wordKind word.spelling = .keyword word := by cases word <;> decide +kernel
  have h := rereads_word (k := .keyword word) rfl hword
  rwa [hkind] at h

theorem rereads_identifier {name : String} (h : (identifier name).Written) :
    (identifier name).Rereads (identifier name) := by
  obtain ⟨hword, hkeyword, htrue, hfalse⟩ := h
  have hkind : Lexeme.wordKind name = .identifier name := by
    simp [Lexeme.wordKind, htrue, hfalse, hkeyword]
  have h := rereads_word (k := .identifier name) rfl hword
  rwa [hkind] at h

theorem rereads_operator (op : Operator) : (operator op).Rereads (operator op) := by
  have hlist : op.spelling.toList = op.characters := String.toList_ofList
  refine ⟨op.spelling, rfl, ?_, ?_⟩
  · rw [hlist]
    exact .operator op
  · rw [hlist]
    intro hmem
    exact absurd (Operator.isSpace_of_mem_characters hmem) (by decide)

theorem rereads_number {x : Float} {s : Nat} {e : Int} (h : Number.exact x = .finite false s e) :
    (number x).Rereads (number x) := by
  obtain ⟨hnumeral, hread⟩ := Number.read_spelling h
  refine ⟨Number.spelling x, rfl, .number hnumeral hread, fun hmem => ?_⟩
  exact absurd (hnumeral.isDigit_or_point hmem) (by decide)

theorem rereads_string {s : String} (h : (string s).Written) : (string s).Rereads (string s) := by
  obtain ⟨hfeed, hquotes⟩ := h
  -- the quotes are those that the string leaves out
  obtain ⟨quote, hquote, hnotMem, hspelling⟩ : ∃ quote, Lexeme.isQuote quote = true ∧
      quote ∉ s.toList ∧
      (string s).spelling = some (String.ofList (quote :: s.toList ++ [quote])) := by
    by_cases hdouble : '"' ∈ s.toList
    · refine ⟨'\'', rfl, fun hsingle => hquotes ⟨hdouble, hsingle⟩, congrArg some ?_⟩
      rw [if_pos hdouble]
      apply String.toList_injective
      simp
    · refine ⟨'"', rfl, hdouble, congrArg some ?_⟩
      rw [if_neg hdouble]
      apply String.toList_injective
      simp
  have hspells := Spells.text hquote hnotMem
  rw [String.ofList_toList] at hspells
  refine ⟨_, hspelling, ?_, ?_⟩
  · rwa [String.toList_ofList]
  · rw [String.toList_ofList]
    intro hmem
    rcases List.mem_append.1 hmem with hmem | hmem
    · rcases List.mem_cons.1 hmem with rfl | hmem
      · exact absurd hquote (by decide)
      · exact hfeed hmem
    · rw [← List.mem_singleton.1 hmem] at hquote
      exact absurd hquote (by decide)

theorem rereads_of_written {k : TokenKind} (h : k.Written) : k.Rereads k := by
  cases k with
  | boolean b => exact rereads_boolean b
  | number x =>
    obtain ⟨s, e, hx⟩ := h
    exact rereads_number hx
  | string s => exact rereads_string h
  | operator op => exact rereads_operator op
  | keyword word => exact rereads_keyword word
  | identifier name => exact rereads_identifier h
  | indent width => cases h
  | lineFeed => cases h
  | endOfFile => cases h

end TokenKind

namespace TokenLine

/-- A text that is printed from tokens that can be written is read as these tokens. -/
theorem ofSource_print {lines : List TokenLine}
    (h : ∀ line ∈ lines, line.words ≠ [] ∧ ∀ k ∈ line.words, k.Written) :
    ∃ tokens, Token.ofSource (print lines) = .ok tokens ∧
      tokens.map Token.kind = layout lines := by
  have hread : Readable id lines := fun line hline =>
    ⟨(h line hline).1, fun k hk => TokenKind.rereads_of_written ((h line hline).2 k hk)⟩
  obtain ⟨tokens, htokens, hkinds⟩ := ofSource_readable hread
  refine ⟨tokens, htokens, ?_⟩
  simpa using hkinds

/-- A string with a quote, spaces and a carriage return, operators that could be joined, and the
greatest and the smallest positive number. -/
def mixedLines : List TokenLine :=
  [⟨0, [.keyword .printWord, .string "it\r 's <= ", .operator .lessThan, .operator .equals,
      .number (.ofBits 0x7FEFFFFFFFFFFFFF)]⟩,
    ⟨3, [.identifier "inf", .operator .dot, .number (.ofBits 1), .string "", .boolean false]⟩]

theorem ofSource_print_mixedLines :
    (∀ line ∈ mixedLines, line.words ≠ [] ∧ ∀ k ∈ line.words, k.Written) ∧
      ∃ tokens, Token.ofSource (print mixedLines) = .ok tokens ∧
        tokens.map Token.kind = layout mixedLines :=
  have hwritten : ∀ line ∈ mixedLines, line.words ≠ [] ∧ ∀ k ∈ line.words, k.Written := by
    decide +kernel
  ⟨hwritten, ofSource_print hwritten⟩

end TokenLine

end Offside

import Offside.Proofs.Token.Places
import Offside.Proofs.Token.Printing

/-!
A text rebuilt from the tokens of another one. It has the same tokens, except that a number beyond
the range of the format is spelled as a name.
-/

namespace Offside

/-- The text of tokens of these kinds: each indentation in spaces, the spellings of a line with
single spaces between them, and a line feed. The spellings of the line so far are carried along. -/
def TokenKind.rebuilt (spellings : List (List Char)) : List TokenKind → List Char
  | [] => []
  | .indent width :: ks => List.replicate width ' ' ++ rebuilt spellings ks
  | .lineFeed :: ks => [' '].intercalate spellings ++ '\n' :: rebuilt [] ks
  | k :: ks => rebuilt (spellings ++ (k.spelling.map String.toList).toList) ks

def Token.rebuilt (tokens : List Token) : String :=
  String.ofList (TokenKind.rebuilt [] (tokens.map Token.kind))

/-- What the spelling of a token is read as. -/
def TokenKind.reread (k : TokenKind) : TokenKind :=
  if k = .number Number.infinity then .identifier "inf" else k

theorem Number.exact_infinity : exact infinity = .infinite false := by
  have hbits : infinity.toBits.toNat = 0x7FF0000000000000 := toBits_ofBits (Nat.le_refl _)
  unfold exact
  rw [hbits]
  rfl

namespace TokenKind

variable {k : TokenKind}

theorem reread_of_written (h : k.Written) : k.reread = k := by
  refine if_neg ?_
  rintro rfl
  obtain ⟨s, e, hfinite⟩ := h
  rw [Number.exact_infinity] at hfinite
  cases hfinite

theorem rereads_infinity : (number Number.infinity).Rereads (.identifier "inf") := by
  have hspelling : Number.spelling Number.infinity = "inf" := by
    unfold Number.spelling
    rw [Number.exact_infinity]
    rfl
  have hword : Lexeme.isWord "inf".toList = true := by decide
  have hinfinity : (number Number.infinity).spelling = some "inf" := congrArg some hspelling
  exact rereads_word hinfinity hword

/-- A token that is read from a line can be written, or it is a number that is too large. -/
theorem written_or_infinity {text : List Char} (h : Spells text k) (hfeed : '\n' ∉ text) :
    k.Written ∨ k = .number Number.infinity := by
  cases h with
  | number hdigits hread =>
    obtain ⟨x, hx, hvalue⟩ := hdigits.read
    cases hread.symm.trans hx
    rcases hvalue with rfl | hfinite
    · exact .inr rfl
    · exact .inl hfinite
  | @word c s hc hs =>
    left
    unfold Lexeme.wordKind
    split
    · trivial
    · split
      · trivial
      · split
        · trivial
        · case h_2 htrue hfalse _ hkeyword =>
          refine ⟨?_, hkeyword, htrue, hfalse⟩
          rw [String.toList_ofList, Lexeme.isWord, hc, Bool.true_and, List.all_eq_true]
          exact hs
  | @text quote contents hquote hcontents =>
    refine .inl ⟨?_, ?_⟩
    · rw [String.toList_ofList]
      exact fun hmem => hfeed (List.mem_append_left _ (List.mem_cons_of_mem _ hmem))
    · rw [String.toList_ofList]
      rintro ⟨hdouble, hsingle⟩
      rcases Lexeme.isQuote_iff.1 hquote with rfl | rfl
      · exact hcontents hdouble
      · exact hcontents hsingle
  | operator op => exact .inl trivial

theorem rereads_of_spells {text : List Char} (h : Spells text k) (hfeed : '\n' ∉ text) :
    k.Rereads k.reread := by
  rcases written_or_infinity h hfeed with hwritten | rfl
  · rw [reread_of_written hwritten]
    exact rereads_of_written hwritten
  · rw [reread, if_pos rfl]
    exact rereads_infinity

end TokenKind

theorem Covers.rereads {n column : Nat} {s : List Char} {ts : List Token}
    (h : Covers n column s ts) (hfeed : '\n' ∉ s) : ∀ t ∈ ts, t.kind.Rereads t.kind.reread := by
  induction h with
  | done column => exact fun t ht => absurd ht List.not_mem_nil
  | gap hc h ih => exact ih (List.not_mem_of_not_mem_cons hfeed)
  | lexeme htext hkind h ih =>
    refine List.forall_mem_cons.2 ⟨?_, ih fun hmem => hfeed (List.mem_append_right _ hmem)⟩
    exact TokenKind.rereads_of_spells ((hkind _).2 rfl)
      fun hmem => hfeed (List.mem_append_left _ hmem)

open TokenLine (Readable layout)

theorem LineTokens.readable {n : Nat} {line : List Char} {ts : List Token}
    (h : LineTokens n line ts) (hfeed : '\n' ∉ line) :
    ∃ l : TokenLine, ts.map Token.kind = l.kinds ∧ l.words ≠ [] ∧
      ∀ k ∈ l.words, k.Rereads k.reread := by
  obtain ⟨k, rest, hcovers, rfl⟩ := h
  have hreads := hcovers.rereads fun hmem => hfeed (List.mem_of_mem_drop hmem)
  refine ⟨⟨(line.takeWhile Text.isSpace).length, k :: rest.map Token.kind⟩, ?_,
    List.cons_ne_nil _ _, ?_⟩
  · rw [List.map_append, List.map_cons, List.map_cons]
    rfl
  · refine List.forall_mem_cons.2 ⟨(List.forall_mem_cons.1 hreads).1, fun other hother => ?_⟩
    obtain ⟨t, ht, rfl⟩ := List.mem_map.1 hother
    exact (List.forall_mem_cons.1 hreads).2 t ht

theorem TextTokens.readable {n : Nat} {lines : List (List Char)} {ts : List Token}
    (h : TextTokens n lines ts) (hfeed : ∀ line ∈ lines, '\n' ∉ line) :
    ∃ ls, Readable TokenKind.reread ls ∧ ts.map Token.kind = layout ls := by
  obtain ⟨pieces, hlength, rfl, hpieces⟩ := h
  induction lines generalizing n pieces with
  | nil =>
    cases List.length_eq_zero_iff.1 hlength
    exact ⟨[], fun l hl => absurd hl List.not_mem_nil, rfl⟩
  | cons line lines ih =>
    obtain ⟨hline, hlines⟩ := List.forall_mem_cons.1 hfeed
    obtain ⟨piece, pieces, rfl⟩ := List.exists_cons_of_length_eq_add_one hlength
    have hrest : ∀ i l p, lines[i]? = some l → pieces[i]? = some p →
        (∀ c ∈ l, Text.isSpace c = true) ∧ p = [] ∨
          (∃ c ∈ l, Text.isSpace c = false) ∧ LineTokens (n + 1 + i) l p := by
      intro i l p hl hp
      rw [Nat.add_assoc, Nat.add_comm 1]
      exact hpieces (i + 1) l p hl hp
    obtain ⟨ls, hread, hkinds⟩ := ih hlines pieces (Nat.succ.inj hlength) hrest
    rw [List.map_append, List.map_singleton] at hkinds ⊢
    rw [List.flatten_cons, List.map_append, List.append_assoc]
    rcases hpieces 0 line piece rfl rfl with ⟨-, rfl⟩ | ⟨-, htokens⟩
    · exact ⟨ls, hread, hkinds⟩
    · obtain ⟨l, hl, hne, hwords⟩ := htokens.readable hline
      refine ⟨l :: ls, List.forall_mem_cons.2 ⟨⟨hne, hwords⟩, hread⟩, ?_⟩
      rw [hl, layout, List.flatMap_cons, List.append_assoc]
      exact congrArg (l.kinds ++ ·) hkinds

/-! The rebuilt text. -/

namespace TokenLine

theorem rebuilt_word {k : TokenKind} {s : String} (hk : k.spelling = some s)
    (spellings : List (List Char)) (ks : List TokenKind) :
    TokenKind.rebuilt spellings (k :: ks) = TokenKind.rebuilt (spellings ++ [s.toList]) ks := by
  cases k with
  | indent width => cases hk
  | lineFeed => cases hk
  | endOfFile => cases hk
  | _ =>
    exact congrArg (fun spelling : Option String =>
      TokenKind.rebuilt (spellings ++ (spelling.map String.toList).toList) ks) hk

theorem rebuilt_words {words : List TokenKind} (h : ∀ k ∈ words, ∃ s : String, k.spelling = some s)
    (spellings : List (List Char)) (ks : List TokenKind) :
    TokenKind.rebuilt spellings (words ++ .lineFeed :: ks) =
      [' '].intercalate (spellings ++ words.filterMap fun k => k.spelling.map String.toList) ++
        '\n' :: TokenKind.rebuilt [] ks := by
  induction words generalizing spellings with
  | nil =>
    rw [List.filterMap_nil, List.append_nil]
    rfl
  | cons k words ih =>
    obtain ⟨⟨s, hs⟩, hwords⟩ := List.forall_mem_cons.1 h
    rw [List.cons_append, rebuilt_word hs, ih hwords, List.append_assoc]
    simp [hs]

theorem rebuilt_layout {again : TokenKind → TokenKind} {lines : List TokenLine}
    (h : Readable again lines) :
    String.ofList (TokenKind.rebuilt [] (layout lines)) = print lines := by
  unfold print
  congr 1
  induction lines with
  | nil => rfl
  | cons line lines ih =>
    obtain ⟨⟨-, hwords⟩, hlines⟩ := List.forall_mem_cons.1 h
    have hspelled : ∀ k ∈ line.words, ∃ s : String, k.spelling = some s := by
      intro k hk
      obtain ⟨s, hs, -⟩ := hwords k hk
      exact ⟨s, hs⟩
    have hrest := ih hlines
    rw [layout] at hrest ⊢
    rw [List.flatMap_cons, List.flatMap_cons, ← hrest]
    change List.replicate line.width ' ' ++ TokenKind.rebuilt []
      (line.words ++ [.lineFeed] ++ lines.flatMap kinds ++ [.endOfFile]) = _
    rw [List.append_assoc, List.append_assoc, List.singleton_append, rebuilt_words hspelled]
    simp only [text, joined, List.nil_append, List.append_assoc, List.singleton_append]

theorem layout_map {again : TokenKind → TokenKind} (hindent : ∀ n, again (.indent n) = .indent n)
    (hfeed : again .lineFeed = .lineFeed) (hend : again .endOfFile = .endOfFile)
    (lines : List TokenLine) :
    layout (lines.map fun line => ⟨line.width, line.words.map again⟩) =
      (layout lines).map again := by
  induction lines with
  | nil => exact congrArg (fun k => [k]) hend.symm
  | cons line lines ih =>
    rw [layout] at ih ⊢
    rw [layout, List.map_cons, List.flatMap_cons, List.append_assoc, ih, List.flatMap_cons,
      List.append_assoc, List.map_append, layout]
    refine congrArg (· ++ _) ?_
    simp [kinds, hindent, hfeed]

end TokenLine

theorem TokenKind.reread_eq_self_iff {k : TokenKind} :
    k.reread = k ↔ k ≠ .number Number.infinity := by
  unfold reread
  split
  · case isTrue h =>
    subst h
    simp
  · case isFalse h => simp [h]

/-- The text rebuilt from the tokens of a text is read, and as the same tokens, but for the numbers
that are too large for the format. These are spelled `inf` and read as a name. -/
theorem Token.ofSource_rebuilt {source : String} {tokens : List Token}
    (h : ofSource source = .ok tokens) :
    ∃ again, ofSource (rebuilt tokens) = .ok again ∧
      again.map kind = tokens.map (fun t => t.kind.reread) ∧
      (again.map kind = tokens.map kind ↔ ∀ t ∈ tokens, t.kind ≠ .number Number.infinity) := by
  obtain ⟨lines, hlines, htokens⟩ := ofSource_covers h
  obtain ⟨ls, hread, hkinds⟩ := htokens.readable hlines.lineFeed_notMem
  obtain ⟨again, hagain, hagainkinds⟩ := TokenLine.ofSource_readable hread
  have hlayout := @TokenLine.layout_map TokenKind.reread (fun n => if_neg (by simp))
    (if_neg (by simp)) (if_neg (by simp)) ls
  have hreread : again.map kind = tokens.map fun t => t.kind.reread := by
    rw [hagainkinds, hlayout, ← hkinds, List.map_map]
    rfl
  refine ⟨again, ?_, hreread, ?_⟩
  · rw [rebuilt, hkinds, TokenLine.rebuilt_layout hread, hagain]
  · rw [hreread, List.map_inj_left]
    exact forall₂_congr fun t ht => TokenKind.reread_eq_self_iff

/-- A number with 309 digits, which is beyond the range of the format. -/
def largeNumber : String :=
  String.ofList ('2' :: List.replicate 308 '0')

theorem Token.ofSource_largeNumber : ofSource largeNumber =
    .ok [⟨.indent 0, 1, 1⟩, ⟨.number Number.infinity, 1, 1⟩, ⟨.lineFeed, 1, 310⟩,
      ⟨.endOfFile, 2, 1⟩] := by
  unfold ofSource largeNumber
  rw [String.toList_ofList]
  decide +kernel

theorem Token.ofSource_rebuilt_largeNumber : ∃ tokens again, ofSource largeNumber = .ok tokens ∧
    ofSource (rebuilt tokens) = .ok again ∧
    again.map kind = [.indent 0, .identifier "inf", .lineFeed, .endOfFile] := by
  obtain ⟨again, hagain, hkinds, -⟩ := ofSource_rebuilt ofSource_largeNumber
  exact ⟨_, again, ofSource_largeNumber, hagain, hkinds.trans (by decide +kernel)⟩

theorem Token.not_all_rebuilt : ¬ ∀ source tokens, ofSource source = .ok tokens →
    ∃ again, ofSource (rebuilt tokens) = .ok again ∧ again.map kind = tokens.map kind := by
  intro hall
  obtain ⟨again, hagain, hkinds⟩ := hall largeNumber _ ofSource_largeNumber
  have hname : ofSource (rebuilt [⟨.indent 0, 1, 1⟩, ⟨.number Number.infinity, 1, 1⟩,
      ⟨.lineFeed, 1, 310⟩, ⟨.endOfFile, 2, 1⟩]) =
      .ok [⟨.indent 0, 1, 1⟩, ⟨.identifier "inf", 1, 1⟩, ⟨.lineFeed, 1, 4⟩, ⟨.endOfFile, 2, 1⟩] := by
    decide +kernel
  cases hname.symm.trans hagain
  simp at hkinds

end Offside

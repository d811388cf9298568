import Offside.Token.Lexer

/-!
The lines of a source text. A line feed ends a line, up to two carriage returns in front of it and
one at the end of the text are left out, and all else belongs to the lines.
-/

namespace Offside.Token

open Text (lines attach)

/-- How a text consists of its lines. -/
inductive SourceLines : List Char → List (List Char) → Prop where
  | nil : SourceLines [] []
  | last {line : List Char} (hne : line ≠ []) (hfeed : '\n' ∉ line) :
      SourceLines line [dropReturn line]
  | line {line s : List Char} {rest : List (List Char)} (hfeed : '\n' ∉ line)
      (h : SourceLines s rest) :
      SourceLines (line ++ '\n' :: s) (dropReturn (dropReturn line) :: rest)

theorem dropReturn_eq_self {line : List Char} (h : line.getLast? ≠ some '\r') :
    dropReturn line = line :=
  if_neg h

theorem mem_of_mem_dropReturn {line : List Char} {c : Char} (h : c ∈ dropReturn line) :
    c ∈ line := by
  unfold dropReturn at h
  split at h
  · exact (List.dropLast_sublist line).subset h
  · exact h

theorem dropReturn_cons_cons (c d : Char) (line : List Char) :
    dropReturn (c :: d :: line) = c :: dropReturn (d :: line) := by
  unfold dropReturn
  rw [List.getLast?_cons_cons, List.dropLast_cons_cons]
  split <;> rfl

theorem lines_cons {c : Char} {s : List Char} (hfeed : c ≠ '\n')
    (hreturn : ∀ r, c = '\r' → s ≠ '\n' :: r) : lines (c :: s) = attach c (lines s) := by
  rw [lines]
  · exact hfeed
  · exact hreturn

theorem lines_last {line : List Char} (hne : line ≠ []) (hfeed : '\n' ∉ line) :
    lines line = [line] := by
  induction line with
  | nil => exact absurd rfl hne
  | cons c line ih =>
    have hc : '\n' ≠ c := List.ne_of_not_mem_cons hfeed
    have hline : '\n' ∉ line := List.not_mem_of_not_mem_cons hfeed
    have hreturn : ∀ r, c = '\r' → line ≠ '\n' :: r := by
      rintro r - rfl
      exact hline List.mem_cons_self
    rw [lines_cons (Ne.symm hc) hreturn]
    cases line with
    | nil => rfl
    | cons d line => rw [ih (List.cons_ne_nil d line) hline, attach]

theorem lines_append {line : List Char} (hfeed : '\n' ∉ line) (s : List Char) :
    lines (line ++ '\n' :: s) = dropReturn line :: lines s := by
  induction line with
  | nil => rfl
  | cons c line ih =>
    have hc : '\n' ≠ c := List.ne_of_not_mem_cons hfeed
    have hline : '\n' ∉ line := List.not_mem_of_not_mem_cons hfeed
    cases line with
    | nil =>
      by_cases hreturn : c = '\r'
      · subst hreturn
        rfl
      · rw [List.singleton_append, lines_cons (Ne.symm hc) fun r heq => absurd heq hreturn, lines,
          attach, dropReturn_eq_self (by simpa using hreturn)]
    | cons d line =>
      have hback : ∀ r, c = '\r' → d :: line ++ '\n' :: s ≠ '\n' :: r := by
        rintro r - heq
        exact hline ((List.cons.inj heq).1 ▸ List.mem_cons_self)
      rw [List.cons_append, lines_cons (Ne.symm hc) hback, ih hline, attach, dropReturn_cons_cons]

theorem exists_lineFeed {s : List Char} (h : '\n' ∈ s) :
    ∃ line rest, s = line ++ '\n' :: rest ∧ '\n' ∉ line := by
  induction s with
  | nil => cases h
  | cons c s ih =>
    by_cases hc : c = '\n'
    · exact ⟨[], s, by rw [hc]; rfl, List.not_mem_nil⟩
    · obtain ⟨line, rest, rfl, hline⟩ := ih ((List.mem_cons.1 h).resolve_left (Ne.symm hc))
      exact ⟨c :: line, rest, rfl, List.not_mem_cons_of_ne_of_not_mem (Ne.symm hc) hline⟩

/-- The lines that tokens are read from are those of the text. -/
theorem sourceLines_lines (s : List Char) : SourceLines s ((lines s).map dropReturn) := by
  by_cases hfeed : '\n' ∈ s
  · obtain ⟨line, rest, hs, hline⟩ := exists_lineFeed hfeed
    have hlt : rest.length < s.length := by
      rw [hs, List.length_append, List.length_cons]
      omega
    rw [hs, lines_append hline, List.map_cons]
    exact .line hline (sourceLines_lines rest)
  · by_cases hne : s = []
    · subst hne
      exact .nil
    · rw [lines_last hne hfeed]
      exact .last hne hfeed
termination_by s.length

theorem SourceLines.lineFeed_notMem {s : List Char} {ls : List (List Char)}
    (h : SourceLines s ls) : ∀ line ∈ ls, '\n' ∉ line := by
  induction h with
  | nil => exact fun line hline => absurd hline List.not_mem_nil
  | last hne hfeed =>
    refine List.forall_mem_cons.2 ⟨fun hmem => hfeed (mem_of_mem_dropReturn hmem), ?_⟩
    exact fun line hline => absurd hline List.not_mem_nil
  | line hfeed h ih =>
    refine List.forall_mem_cons.2 ⟨fun hmem => hfeed ?_, ih⟩
    exact mem_of_mem_dropReturn (mem_of_mem_dropReturn hmem)

end Offside.Token

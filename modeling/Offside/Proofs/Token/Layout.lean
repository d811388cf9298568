import Mathlib.Data.List.TakeWhile
import Offside.Proofs.Token.Lines
import Offside.Proofs.Token.Renumbering

/-!
Layout that the tokens of a text do not show: lines of white space, carriage returns that end lines,
and whether lines are indented by spaces or by tabs.
-/

namespace Offside

namespace Token

open Text (isSpace)

/-- The text of these lines, each with `ending` behind it. -/
def textOf (ending : List Char) (lines : List (List Char)) : String :=
  String.ofList (lines.flatMap (· ++ ending))

theorem lines_flatMap {lines : List (List Char)} (hfeed : ∀ line ∈ lines, '\n' ∉ line) :
    Text.lines (lines.flatMap (· ++ ['\n'])) = lines.map dropReturn := by
  induction lines with
  | nil => rfl
  | cons line lines ih =>
    obtain ⟨hline, hlines⟩ := List.forall_mem_cons.1 hfeed
    rw [List.flatMap_cons, List.append_assoc, List.singleton_append, lines_append hline,
      ih hlines, List.map_cons]

theorem ofSource_textOf {lines : List (List Char)} (hfeed : ∀ line ∈ lines, '\n' ∉ line) :
    ofSource (textOf ['\n'] lines) =
      ofLines none 1 (lines.map fun line => dropReturn (dropReturn line)) := by
  rw [ofSource, textOf, String.toList_ofList, lines_flatMap hfeed, List.map_map]
  rfl

/-! Lines of white space. -/

theorem ofLine_blank {line : List Char} (h : ∀ c ∈ line, isSpace c) (used : Option Char) (n : Nat) :
    ofLine used n line = .ok (used, []) := by
  unfold ofLine
  rw [List.dropWhile_eq_nil_iff.2 h]
  rfl

/-- The numbers of the lines when there is one more line behind line `k`. -/
def lineAfter (k n : Nat) : Nat :=
  if k < n then n + 1 else n

theorem ofLines_insert {blank : List Char} (hblank : ∀ c ∈ blank, isSpace c) {k n : Nat}
    (before after : List (List Char)) (hn : n + before.length = k + 1) (used : Option Char) :
    ofLines used n (before ++ blank :: after) =
      renumbered (lineAfter k) (ofLines used n (before ++ after)) := by
  induction before generalizing used n with
  | nil =>
    have hlater : ∀ i, n ≤ i → lineAfter k i = i + 1 := fun i hi => if_pos (by
      rw [List.length_nil] at hn
      omega)
    have hrest := ofLines_renumber (g := lineAfter k) (n := n) (fun i hi => by
      rw [hlater i hi, hlater (i + 1) (Nat.le_succ_of_le hi)]) used after
    rw [hlater n (Nat.le_refl n)] at hrest
    rw [List.nil_append, ofLines, ofLine_blank hblank]
    refine Eq.trans ?_ hrest
    change (ofLines used (n + 1) after >>= fun rest => Pure.pure ([] ++ rest)) = _
    cases ofLines used (n + 1) after <;> rfl
  | cons line before ih =>
    have hsame : lineAfter k n = n := if_neg (by
      rw [List.length_cons] at hn
      omega)
    have hline := ofLine_renumber (lineAfter k) used n line
    rw [hsame] at hline
    rw [List.cons_append, List.cons_append, ofLines, ofLines]
    refine (congrArg (· >>= _) hline).trans (mapBoth_bind _ fun read => ?_)
    obtain ⟨used', tokens⟩ := read
    have hrest := ih (n := n + 1) (by
      rw [← hn, List.length_cons]
      omega) used'
    refine (congrArg (· >>= _) hrest).trans (mapBoth_bind _ fun rest => ?_)
    exact congrArg Except.ok List.map_append.symm

/-- A line of white space gives no tokens. -/
theorem ofSource_insert {before after : List (List Char)} {blank : List Char}
    (hbefore : ∀ line ∈ before, '\n' ∉ line) (hafter : ∀ line ∈ after, '\n' ∉ line)
    (hblank : ∀ c ∈ blank, isSpace c ∧ c ≠ '\n') :
    ofSource (textOf ['\n'] (before ++ blank :: after)) =
      renumbered (lineAfter before.length) (ofSource (textOf ['\n'] (before ++ after))) := by
  have hfeed : '\n' ∉ blank := fun h => (hblank _ h).2 rfl
  have hspace : ∀ c ∈ dropReturn (dropReturn blank), isSpace c := fun c hc =>
    (hblank c (mem_of_mem_dropReturn (mem_of_mem_dropReturn hc))).1
  rw [ofSource_textOf (List.forall_mem_append.2 ⟨hbefore, hafter⟩),
    ofSource_textOf (List.forall_mem_append.2 ⟨hbefore, List.forall_mem_cons.2 ⟨hfeed, hafter⟩⟩),
    List.map_append, List.map_append, List.map_cons]
  refine ofLines_insert hspace _ _ ?_ none
  rw [List.length_map, Nat.add_comm]

/-! Carriage returns. -/

/-- A carriage return in front of a line feed belongs to it. -/
theorem ofSource_returns {lines : List (List Char)} (hfeed : ∀ line ∈ lines, '\n' ∉ line)
    (hreturn : ∀ line ∈ lines, '\r' ∉ line) :
    ofSource (textOf ['\r', '\n'] lines) = ofSource (textOf ['\n'] lines) := by
  have hsplit : textOf ['\r', '\n'] lines = textOf ['\n'] (lines.map (· ++ ['\r'])) := by
    simp only [textOf, List.flatMap_map, List.append_assoc]
    rfl
  have hends : ∀ line ∈ lines.map (· ++ ['\r']), '\n' ∉ line := by
    rintro _ hmem
    obtain ⟨line, hline, rfl⟩ := List.mem_map.1 hmem
    exact List.not_mem_append (hfeed line hline) (by decide)
  rw [hsplit, ofSource_textOf hends, ofSource_textOf hfeed, List.map_map]
  refine congrArg (ofLines none 1) (List.map_congr_left fun line hline => ?_)
  have hlast : line.getLast? ≠ some '\r' := fun h => hreturn line hline (List.mem_of_getLast? h)
  have hdrop : dropReturn (line ++ ['\r']) = line := by
    rw [dropReturn, if_pos List.getLast?_concat, List.dropLast_concat]
  rw [Function.comp, hdrop, dropReturn_eq_self hlast, dropReturn_eq_self hlast]

/-! Tabs for spaces. -/

/-- A tab for every space at the beginning of the line. -/
def tabbed (line : List Char) : List Char :=
  List.replicate (line.takeWhile (· = ' ')).length '\t' ++ line.dropWhile (· = ' ')

/-- The line is blank or indented by spaces. -/
def SpaceIndented (line : List Char) : Prop :=
  (∃ c ∈ line, ¬ isSpace c) → ∀ c ∈ line.takeWhile isSpace, c = ' '

theorem dropReturn_append (s : List Char) {t : List Char} (ht : t ≠ []) :
    dropReturn (s ++ t) = s ++ dropReturn t := by
  obtain ⟨start, c, rfl⟩ := (List.eq_nil_or_concat t).resolve_left ht
  unfold dropReturn
  rw [List.concat_eq_append, ← List.append_assoc, List.getLast?_concat, List.getLast?_concat]
  split
  · rw [List.dropLast_concat, List.dropLast_concat]
  · exact List.append_assoc _ _ _

theorem head?_dropReturn {s : List Char} {c : Char} (h : s.head? ≠ some c) :
    (dropReturn s).head? ≠ some c := by
  match s with
  | [] => exact h
  | [d] =>
    unfold dropReturn
    split
    · nofun
    · exact h
  | d :: e :: s =>
    rw [dropReturn_cons_cons]
    exact h

theorem exists_spaces (line : List Char) :
    ∃ k rest, line = List.replicate k ' ' ++ rest ∧ rest.head? ≠ some ' ' := by
  refine ⟨(line.takeWhile (· = ' ')).length, line.dropWhile (· = ' '), ?_, ?_⟩
  · have hspaces : ∀ c ∈ line.takeWhile (· = ' '), c = ' ' := fun c hc => by
      simpa using List.mem_takeWhile_imp hc
    rw [← List.eq_replicate_of_mem hspaces, List.takeWhile_append_dropWhile]
  · have hhead := List.head?_dropWhile_not (fun c => decide (c = ' ')) line
    intro h
    rw [h] at hhead
    simp at hhead

theorem tabbed_append (k : Nat) {rest : List Char} (h : rest.head? ≠ some ' ') :
    tabbed (List.replicate k ' ' ++ rest) = List.replicate k '\t' ++ rest := by
  have hspaces : ∀ c ∈ List.replicate k ' ', decide (c = ' ') = true := fun c hc =>
    decide_eq_true (List.eq_of_mem_replicate hc)
  have hrest : rest.takeWhile (· = ' ') = [] ∧ rest.dropWhile (· = ' ') = rest := by
    cases rest with
    | nil => exact ⟨rfl, rfl⟩
    | cons c rest =>
      have hc : ¬ (decide (c = ' ') = true) := fun hc => h (congrArg some (of_decide_eq_true hc))
      exact ⟨List.takeWhile_cons_of_neg hc, List.dropWhile_cons_of_neg hc⟩
  rw [tabbed, List.takeWhile_append_of_pos hspaces, List.dropWhile_append_of_pos hspaces, hrest.1,
    hrest.2, List.append_nil, List.length_replicate]

theorem dropReturn_tabbed (line : List Char) :
    dropReturn (tabbed line) = tabbed (dropReturn line) := by
  obtain ⟨k, rest, rfl, hhead⟩ := exists_spaces line
  rw [tabbed_append k hhead]
  by_cases hrest : rest = []
  · have hlast {c : Char} (hc : c ≠ '\r') :
        dropReturn (List.replicate k c ++ []) = List.replicate k c ++ [] :=
      dropReturn_eq_self fun h => by
        rw [List.append_nil] at h
        exact hc (List.eq_of_mem_replicate (List.mem_of_getLast? h)).symm
    rw [hrest, hlast (by decide), hlast (by decide), tabbed_append k (by simp)]
  · rw [dropReturn_append _ hrest, dropReturn_append _ hrest,
      tabbed_append k (head?_dropReturn hhead)]

theorem SpaceIndented.dropReturn {line : List Char} (h : SpaceIndented line) :
    SpaceIndented (dropReturn line) := by
  unfold Token.dropReturn
  split
  · case isTrue hlast =>
    obtain ⟨start, rfl⟩ := List.getLast?_eq_some_iff.1 hlast
    rw [List.dropLast_concat]
    rintro ⟨c, hc, hspace⟩ d hd
    refine h ⟨c, List.mem_append_left _ hc, hspace⟩ d ?_
    rw [List.takeWhile_append]
    split
    · exact List.mem_append_left _ ((List.takeWhile_sublist _).subset hd)
    · exact hd
  · exact h

/-- Of what indents, only the first character is looked at when all are the same. -/
theorem indentedBy_replicate {c : Char} {used : Option Char} (hused : ∀ d ∈ used, d = c) (k : Nat) :
    indentedBy used (List.replicate k c) = .ok (used.or (List.replicate k c).head?) := by
  have hnone : (List.replicate k c).findIdx? (· ≠ c) = none := by
    rw [List.findIdx?_eq_none_iff]
    intro d hd
    simp [List.eq_of_mem_replicate hd]
  unfold indentedBy
  cases hor : used.or (List.replicate k c).head? with
  | none => rfl
  | some d =>
    have hd : d = c := by
      cases used with
      | none => exact List.eq_of_mem_replicate (List.mem_of_head? hor)
      | some e => exact hused d hor
    subst hd
    dsimp only
    rw [hnone]

/-- A line that is indented by one character, as those before it. -/
theorem ofLine_indented {d c : Char} (hd : isSpace d) (hc : ¬ isSpace c) {used : Option Char}
    (hused : ∀ e ∈ used, e = d) (n k : Nat) (s : List Char) :
    ofLine used n (List.replicate k d ++ c :: s) =
      ofRest ⟨n, k + 1⟩ (c :: s) >>= fun tokens =>
        Pure.pure (used.or (List.replicate k d).head?, ⟨.indent k, n, 1⟩ :: tokens) := by
  have hspaces : ∀ e ∈ List.replicate k d, isSpace e := fun e he =>
    List.eq_of_mem_replicate he ▸ hd
  unfold ofLine
  rw [List.takeWhile_append_of_pos hspaces, List.takeWhile_cons_of_neg hc, List.append_nil,
    List.dropWhile_append_of_pos hspaces, List.dropWhile_cons_of_neg hc]
  dsimp only
  rw [indentedBy_replicate hused, List.length_replicate]
  rfl

/-- A line is read alike when tabs indent it, and those before it. -/
theorem ofLine_tabbed {line : List Char} (h : SpaceIndented line) {used : Option Char}
    (hused : ∀ c ∈ used, c = ' ') (n : Nat) : ∃ used' r,
    (∀ c ∈ used', c = ' ') ∧
      ofLine used n line = mapBoth id (used', ·) r ∧
      ofLine (used.map fun _ => '\t') n (tabbed line) =
        mapBoth id (used'.map fun _ => '\t', ·) r := by
  by_cases hblank : ∀ c ∈ line, isSpace c
  · refine ⟨used, .ok [], hused, ofLine_blank hblank used n, ofLine_blank (fun c hc => ?_) _ n⟩
    rcases List.mem_append.1 hc with hc | hc
    · exact List.eq_of_mem_replicate hc ▸ rfl
    · exact hblank c ((List.dropWhile_sublist _).subset hc)
  · obtain ⟨c, hc, hspace⟩ : ∃ c ∈ line, ¬ isSpace c := by simpa using hblank
    have hindent : line.takeWhile isSpace =
        List.replicate (line.takeWhile isSpace).length ' ' :=
      List.eq_replicate_of_mem (h ⟨c, hc, hspace⟩)
    obtain ⟨d, s, hcons⟩ := List.exists_cons_of_ne_nil
      (l := line.dropWhile isSpace) fun hnil => hspace (List.dropWhile_eq_nil_iff.1 hnil c hc)
    have hd : ¬ isSpace d := by
      have hhead := List.head?_dropWhile_not isSpace line
      rw [hcons] at hhead
      simpa using hhead
    have hne : (d :: s).head? ≠ some ' ' := fun heq => hd (Option.some.inj heq ▸ rfl)
    have hsplit := List.takeWhile_append_dropWhile (p := isSpace) (l := line)
    rw [hindent, hcons] at hsplit
    generalize (line.takeWhile isSpace).length = k at hsplit
    have htabs : ∀ e ∈ used.map fun _ => '\t', e = '\t' := by simp
    rw [← hsplit, tabbed_append k hne, ofLine_indented rfl hd hused, ofLine_indented rfl hd htabs]
    refine ⟨used.or (List.replicate k ' ').head?,
      ofRest ⟨n, k + 1⟩ (d :: s) >>= fun tokens => Pure.pure (⟨.indent k, n, 1⟩ :: tokens),
      fun e he => ?_, ?_, ?_⟩
    · cases used with
      | none => exact List.eq_of_mem_replicate (List.mem_of_head? he)
      | some e => exact hused _ he
    · cases ofRest ⟨n, k + 1⟩ (d :: s) <;> rfl
    · have hused' : (used.map fun _ => '\t').or (List.replicate k '\t').head? =
          (used.or (List.replicate k ' ').head?).map fun _ => '\t' := by
        cases used <;> cases k <;> rfl
      rw [hused']
      cases ofRest ⟨n, k + 1⟩ (d :: s) <;> rfl

theorem ofLines_tabbed {lines : List (List Char)} (h : ∀ line ∈ lines, SpaceIndented line)
    {used : Option Char} (hused : ∀ c ∈ used, c = ' ') (n : Nat) :
    ofLines (used.map fun _ => '\t') n (lines.map tabbed) = ofLines used n lines := by
  induction lines generalizing used n with
  | nil => rfl
  | cons line lines ih =>
    obtain ⟨hline, hlines⟩ := List.forall_mem_cons.1 h
    obtain ⟨used', r, hused', hspaces, htabs⟩ := ofLine_tabbed hline hused n
    rw [List.map_cons, ofLines, ofLines, hspaces, htabs]
    cases r with
    | error fault => rfl
    | ok tokens =>
      exact congrArg (· >>= fun rest => Pure.pure (tokens ++ rest)) (ih hlines hused' (n + 1))

/-- Spaces and tabs indent alike. -/
theorem ofSource_tabbed {lines : List (List Char)} (hfeed : ∀ line ∈ lines, '\n' ∉ line)
    (h : ∀ line ∈ lines, SpaceIndented line) :
    ofSource (textOf ['\n'] (lines.map tabbed)) = ofSource (textOf ['\n'] lines) := by
  have hends : ∀ line ∈ lines.map tabbed, '\n' ∉ line := by
    rintro _ hmem
    obtain ⟨line, hline, rfl⟩ := List.mem_map.1 hmem
    refine List.not_mem_append (fun hfeeds => ?_) fun hfeeds => ?_
    · exact absurd (List.eq_of_mem_replicate hfeeds) (by decide)
    · exact hfeed line hline ((List.dropWhile_sublist _).subset hfeeds)
  have hspaces : ∀ line ∈ lines.map fun line => dropReturn (dropReturn line),
      SpaceIndented line := by
    rintro _ hmem
    obtain ⟨line, hline, rfl⟩ := List.mem_map.1 hmem
    exact (h line hline).dropReturn.dropReturn
  rw [ofSource_textOf hends, ofSource_textOf hfeed, ← ofLines_tabbed hspaces (by simp) 1,
    List.map_map, List.map_map]
  refine congrArg (ofLines none 1) (List.map_congr_left fun line _ => ?_)
  simp only [Function.comp, dropReturn_tabbed]

end Token

end Offside

import Offside.Token.Lexeme

/-!
How a run of symbols is cut into operators. Each operator is the longest that fits at its place, and
the cutting goes on up to the first character that no operator is spelled with. It cannot get stuck
before that, because every character of a spelling is an operator of its own.
-/

namespace Offside

namespace Operator

theorem characters_injective {op other : Operator} (h : op.characters = other.characters) :
    op = other := by
  have hop := ofCharacters?_characters op
  rw [h, ofCharacters?_characters] at hop
  exact (Option.some.inj hop).symm

theorem length_characters_pos (op : Operator) : 0 < op.characters.length := by
  have := op.length_characters
  omega

/-- There is an operator that is spelled with the character. -/
def Known (c : Char) : Prop :=
  ∃ op : Operator, c ∈ op.characters

/-- The spellings are closed: whatever they are made of is a spelling. -/
theorem Known.alone {c : Char} (h : Known c) : ∃ op : Operator, op.characters = [c] := by
  obtain ⟨op, hc⟩ := h
  have hclosed :
      op.characters.all (fun c => all.any fun other => other.characters = [c]) = true := by
    cases op <;> decide
  obtain ⟨other, -, hother⟩ := List.any_eq_true.1 (List.all_eq_true.1 hclosed c hc)
  exact ⟨other, by simpa using hother⟩

/-- The operator fits at the front of the run, and no longer one does. -/
structure Longest (run : List Char) (op : Operator) : Prop where
  fits : op.characters <+: run
  longest : ∀ other : Operator, other.characters <+: run →
    other.characters.length ≤ op.characters.length

/-- What is the longest in a run is so in the first part of it, if it fits there. -/
theorem Longest.shorten {run front : List Char} {op : Operator} (h : Longest run op)
    (hfront : front <+: run) (hfits : op.characters <+: front) : Longest front op :=
  ⟨hfits, fun other hother => h.longest other (hother.trans hfront)⟩

theorem mem_all (op : Operator) : op ∈ all := by
  cases op <;> decide

theorem first?_some {run : List Char} {n : Nat} {op : Operator} (h : first? run n = some op) :
    op.characters.length = n ∧ op.characters <+: run := by
  simpa using List.find?_some h

theorem first?_none {run : List Char} {n : Nat} (h : first? run n = none) (op : Operator)
    (hfits : op.characters <+: run) : op.characters.length ≠ n := by
  have hop := List.find?_eq_none.1 h op op.mem_all
  simp only [Bool.and_eq_true, decide_eq_true_eq, List.isPrefixOf_iff_prefix, not_and] at hop
  exact fun hlength => hop hlength hfits

/-- Backing off from the first `n` characters stops at the longest operator among them. -/
theorem backOff_some {run : List Char} {n : Nat} {op : Operator} (h : backOff run n = some op) :
    op.characters <+: run ∧ ∀ other : Operator, other.characters <+: run →
      other.characters.length ≤ n → other.characters.length ≤ op.characters.length := by
  induction n with
  | zero => cases h
  | succ n ih =>
    cases hfound : first? run (n + 1) with
    | some found =>
      rw [backOff, hfound] at h
      obtain rfl := Option.some.inj h
      obtain ⟨hlength, hfits⟩ := first?_some hfound
      exact ⟨hfits, fun other hother hle => hlength ▸ hle⟩
    | none =>
      rw [backOff, hfound] at h
      obtain ⟨hfits, hlongest⟩ := ih h
      refine ⟨hfits, fun other hother hle => hlongest other hother ?_⟩
      -- an operator of just this length would have been found
      exact Nat.le_of_lt_succ (Nat.lt_of_le_of_ne hle (first?_none hfound other hother))

theorem backOff_none {run : List Char} {n : Nat} (h : backOff run n = none) (op : Operator)
    (hfits : op.characters <+: run) : n < op.characters.length := by
  induction n with
  | zero => exact op.length_characters_pos
  | succ n ih =>
    cases hfound : first? run (n + 1) with
    | some found =>
      rw [backOff, hfound] at h
      cases h
    | none =>
      rw [backOff, hfound] at h
      exact Nat.lt_of_le_of_ne (ih h) (first?_none hfound op hfits).symm

theorem longest?_eq_none_iff {run : List Char} :
    longest? run = none ↔ ∀ op : Operator, ¬ op.characters <+: run := by
  constructor
  · intro h op hfits
    exact absurd hfits.length_le (Nat.not_le.2 (backOff_none h op hfits))
  · intro h
    cases hfound : longest? run with
    | none => rfl
    | some op => exact absurd (backOff_some hfound).1 (h op)

theorem longest?_eq_some_iff {run : List Char} {op : Operator} :
    longest? run = some op ↔ Longest run op := by
  have of_some {found : Operator} (h : longest? run = some found) : Longest run found :=
    ⟨(backOff_some h).1, fun other hother =>
      (backOff_some h).2 other hother hother.length_le⟩
  refine ⟨of_some, fun h => ?_⟩
  cases hfound : longest? run with
  | none => exact absurd h.fits (longest?_eq_none_iff.1 hfound op)
  | some found =>
    have hlength := Nat.le_antisymm (h.longest found (of_some hfound).fits)
      ((of_some hfound).longest op h.fits)
    have hchars := (List.prefix_of_prefix_length_le (of_some hfound).fits h.fits
      (Nat.le_of_eq hlength)).eq_of_length hlength
    rw [characters_injective hchars]

/-- Some operator fits in front of a text exactly if its first character is known. -/
theorem fits_iff {c : Char} {s : List Char} :
    (∃ op : Operator, op.characters <+: c :: s) ↔ Known c := by
  constructor
  · rintro ⟨op, hfits⟩
    cases hchars : op.characters with
    | nil => exact absurd (hchars ▸ op.length_characters_pos) (Nat.lt_irrefl _)
    | cons d rest =>
      rw [hchars, List.cons_prefix_cons] at hfits
      exact ⟨op, by rw [hchars, hfits.1]; exact List.mem_cons_self⟩
  · intro h
    obtain ⟨op, hop⟩ := h.alone
    exact ⟨op, by rw [hop]; exact List.cons_prefix_cons.2 ⟨rfl, List.nil_prefix⟩⟩

/-- The run is cut into the operators, each the longest at its place, up to a rest where no operator
fits. -/
inductive Cuts : List Char → List Operator → List Char → Prop
  | stop (h : ∀ op : Operator, ¬ op.characters <+: rest) : Cuts rest [] rest
  | cut (h : Longest (op.characters ++ s) op) (hs : Cuts s ops rest) :
      Cuts (op.characters ++ s) (op :: ops) rest

theorem munch_of_longest {run : List Char} {op : Operator} (h : Longest run op) :
    munch run = (op :: (munch (run.drop op.characters.length)).1,
      (munch (run.drop op.characters.length)).2) := by
  cases run with
  | nil => exact absurd h.fits.length_le (Nat.not_le.2 op.length_characters_pos)
  | cons c s => rw [munch, longest?_eq_some_iff.2 h]

theorem munch_of_not_fits {run : List Char} (h : ∀ op : Operator, ¬ op.characters <+: run) :
    munch run = ([], run) := by
  cases run with
  | nil => rw [munch]
  | cons c s => rw [munch, longest?_eq_none_iff.2 h]

theorem not_fits_nil (op : Operator) : ¬ op.characters <+: [] :=
  fun h => absurd h.length_le (Nat.not_le.2 op.length_characters_pos)

theorem munch_cuts (run : List Char) : Cuts run (munch run).1 (munch run).2 := by
  induction run using munch.induct with
  | case1 =>
    rw [munch_of_not_fits not_fits_nil]
    exact .stop not_fits_nil
  | case2 c s op h ops rest hrest ih =>
    have hlongest := longest?_eq_some_iff.1 h
    obtain ⟨behind, hbehind⟩ := hlongest.fits
    rw [munch_of_longest hlongest]
    rw [← hbehind, List.drop_left] at ih ⊢
    rw [← hbehind] at hlongest
    exact .cut hlongest ih
  | case3 c s h =>
    have hfits := longest?_eq_none_iff.1 h
    rw [munch_of_not_fits hfits]
    exact .stop hfits

namespace Cuts

variable {run rest : List Char} {ops : List Operator}

theorem munch_eq (h : Cuts run ops rest) : munch run = (ops, rest) := by
  induction h with
  | stop h => exact munch_of_not_fits h
  | cut h hs ih => rw [munch_of_longest h, List.drop_left, ih]

theorem append (h : Cuts run ops rest) : ops.flatMap characters ++ rest = run := by
  induction h with
  | stop h => rfl
  | cut h hs ih => rw [List.flatMap_cons, List.append_assoc, ih]

theorem longest {before after : List Operator} {op : Operator}
    (h : Cuts run (before ++ op :: after) rest) :
    Longest (run.drop (before.flatMap characters).length) op := by
  induction before generalizing run with
  | nil =>
    cases h with
    | cut h hs => exact h
  | cons first before ih =>
    cases h with
    | cut h hs =>
      rw [List.flatMap_cons, List.length_append, ← List.drop_drop, List.drop_left]
      exact ih hs

/-- The operators of a run are those of the part of it that is cut. -/
theorem front (h : Cuts run ops rest) : Cuts (ops.flatMap characters) ops [] := by
  induction h with
  | stop h => exact .stop not_fits_nil
  | cut h hs ih =>
    rw [List.flatMap_cons]
    refine .cut (h.shorten ?_ (List.prefix_append _ _)) ih
    rw [List.prefix_append_right_inj, ← hs.append]
    exact List.prefix_append _ _

/-- The cutting stops at the first character that is not known, if there is one. -/
theorem stops (h : Cuts run ops rest) :
    (∀ c ∈ ops.flatMap characters, Known c) ∧ ∀ c s, rest = c :: s → ¬ Known c := by
  constructor
  · intro c hc
    obtain ⟨op, -, hop⟩ := List.mem_flatMap.1 hc
    exact ⟨op, hop⟩
  · induction h with
    | stop h =>
      rintro c s rfl hc
      obtain ⟨op, hfits⟩ := fits_iff.2 hc
      exact h op hfits
    | cut h hs ih => exact ih

theorem rest_eq_nil_iff (h : Cuts run ops rest) : rest = [] ↔ ∀ c ∈ run, Known c := by
  obtain ⟨hknown, hstop⟩ := h.stops
  rw [← h.append]
  constructor
  · rintro rfl
    simpa using hknown
  · intro hall
    cases rest with
    | nil => rfl
    | cons c s => exact absurd (hall c (by simp)) (hstop c s rfl)

theorem rest_eq {before after : List Char} {c : Char} (h : Cuts (before ++ c :: after) ops rest)
    (hbefore : ∀ d ∈ before, Known d) (hc : ¬ Known c) :
    ops.flatMap characters = before ∧ rest = c :: after := by
  obtain ⟨hknown, hstop⟩ := h.stops
  obtain ⟨more, hmore, hrest⟩ | ⟨more, hmore, hrest⟩ := List.append_eq_append_iff.1 h.append
  · cases more with
    | nil => exact ⟨by simpa using hmore.symm, by simpa using hrest⟩
    | cons d more =>
      -- the cutting would have gone on to the known character `d`
      exact absurd (hbefore d (by simp [hmore])) (hstop d _ hrest)
  · cases more with
    | nil => exact ⟨by simpa using hmore, by simpa using hrest.symm⟩
    | cons d more =>
      obtain ⟨rfl, -⟩ := List.cons.inj hrest
      exact absurd (hknown c (by simp [hmore])) hc

end Cuts

/-- The operators at the front of a run and what is left of it make up the run. -/
theorem munch_append (run : List Char) :
    (munch run).1.flatMap characters ++ (munch run).2 = run :=
  (munch_cuts run).append

theorem munch_characters (op : Operator) : munch op.characters = ([op], []) := by
  have hlongest : Longest (op.characters ++ []) op := by
    rw [List.append_nil]
    exact ⟨List.prefix_rfl, fun other hother => hother.length_le⟩
  have hcuts := Cuts.cut hlongest (.stop not_fits_nil)
  rw [List.append_nil] at hcuts
  exact hcuts.munch_eq

end Operator

namespace Lexeme

open Operator (Known Longest munch)

theorem adjacent_append (loc : Location) (before after : List Operator) :
    adjacent loc (before ++ after) =
      adjacent loc before ++
        adjacent (loc.advance (before.flatMap Operator.characters).length) after := by
  induction before generalizing loc with
  | nil => rfl
  | cons op before ih =>
    simp only [List.cons_append, adjacent, ih, List.flatMap_cons, List.length_append,
      Location.advance, Nat.add_assoc]

theorem length_adjacent (loc : Location) (ops : List Operator) :
    (adjacent loc ops).length = ops.length := by
  induction ops generalizing loc with
  | nil => rfl
  | cons op ops ih => rw [adjacent, List.length_cons, ih, List.length_cons]

/-- A run of symbols that begins at `loc` gives tokens exactly if every character of it is known.
Then the spellings of the tokens make up the run, each token is the longest operator that fits at
its place, and its column is that of the place. If there is a character that is not known, the first
one is at fault; up to it the operators are those of the run in front of it. -/
theorem runs_are_munched (loc : Location) (behind run : List Char) :
    ((∃ ts, tokens loc behind (.symbols run) = .ok ts) ↔ ∀ c ∈ run, Known c) ∧
      (∀ ts, tokens loc behind (.symbols run) = .ok ts → ∃ ops : List Operator,
        ops.flatMap Operator.characters = run ∧ ts.length = ops.length ∧
          ∀ before op after, ops = before ++ op :: after →
            Longest (run.drop (before.flatMap Operator.characters).length) op ∧
              ts[before.length]? =
                some ⟨.operator op, loc.advance (before.flatMap Operator.characters).length⟩) ∧
      (∀ before c after, run = before ++ c :: after → (∀ d ∈ before, Known d) → ¬ Known c →
        tokens loc behind (.symbols run) =
            .error ⟨.unknownSymbol, loc.advance before.length⟩ ∧
          munch run = ((munch before).1, c :: after) ∧ (munch before).2 = []) ∧
      SyntaxError.unknownSymbol.message = "unknown symbol" := by
  have hcuts := Operator.munch_cuts run
  generalize (munch run).1 = ops, (munch run).2 = rest at hcuts
  have hmunch := hcuts.munch_eq
  refine ⟨?_, ?_, ?_, rfl⟩
  · rw [← hcuts.rest_eq_nil_iff]
    cases rest with
    | nil => simp [tokens, hmunch]
    | cons c s => simp [tokens, hmunch]
  · intro ts hts
    cases rest with
    | cons c s => simp [tokens, hmunch] at hts
    | nil =>
      simp only [tokens, hmunch, Except.ok.injEq] at hts
      subst hts
      refine ⟨ops, by simpa using hcuts.append, length_adjacent loc ops, ?_⟩
      rintro before op after rfl
      refine ⟨hcuts.longest, ?_⟩
      rw [adjacent_append, List.getElem?_append_right (Nat.le_of_eq (length_adjacent loc before)),
        length_adjacent, Nat.sub_self, adjacent, List.getElem?_cons_zero]
  · rintro before c after rfl hbefore hc
    obtain ⟨hfront, rfl⟩ := hcuts.rest_eq hbefore hc
    have hshort := hcuts.front.munch_eq
    rw [hfront] at hshort
    refine ⟨?_, by rw [hmunch, hshort], by rw [hshort]⟩
    simp only [tokens, hmunch, List.length_append, Nat.add_sub_cancel]

/-- Two operators stand in front of the first character that none is spelled with. -/
theorem runs_are_munched_up_to_arrow :
    tokens ⟨3, 5⟩ [] (.symbols ['<', '=', '-', '→', '=']) =
        .error ⟨.unknownSymbol, ⟨3, 8⟩⟩ ∧
      munch ['<', '=', '-', '→', '='] = ([.lessThanEquals, .minus], ['→', '=']) := by
  have hknown : ∀ d ∈ ['<', '=', '-'], Known d := by
    simp only [List.forall_mem_cons, List.not_mem_nil, false_imp_iff, implies_true, and_true]
    exact ⟨⟨.lessThan, by decide⟩, ⟨.equals, by decide⟩, ⟨.minus, by decide⟩⟩
  have hunknown : ¬ Known '→' := by
    rintro ⟨op, hop⟩
    cases op <;> exact absurd hop (by decide)
  obtain ⟨herror, hmunch, -⟩ := (runs_are_munched ⟨3, 5⟩ [] ['<', '=', '-', '→', '=']).2.2.1
    ['<', '=', '-'] '→' ['='] rfl hknown hunknown
  have hfront : (munch ['<', '=', '-']).1 = [.lessThanEquals, .minus] := by decide +kernel
  exact ⟨herror, hfront ▸ hmunch⟩

end Lexeme

end Offside

import Offside.Proofs.Syntax.Programs

/-!
Where the reader gives up. It does at the first token that no program has there, except when a
parameter repeats the name of an earlier one and has no type: the name is only looked at behind the
type, so the fault is then a later one.
-/

namespace Offside

open Token
open Reply (answer_andThen answer_loosen answer_found)

namespace Block

/-- The tokens are those of a program. -/
def Accepted (ts : List Token) : Prop :=
  Terminated ts ∧ ∃ program, (programOfTokens ts).toExcept = .ok program

/-- Some program begins with the tokens. -/
def Viable (w : List Token) : Prop :=
  ∃ v, Accepted (w ++ v)

/-- The token at which a fault is raised when `rest` is to be read next, and the tokens behind it.
It is the next one, or the name of the parameter that ends there if that name is the fault. -/
inductive RaisedAt (fault : SyntaxFault) (rest : List Token) : Token → List Token → Prop
  | next (hc : fault.cause ≠ .duplicateParameter) (hr : rest = t :: behind) :
      RaisedAt fault rest t behind
  | name (hc : fault.cause = .duplicateParameter) (hp : Param.Derives (t :: w) p) :
      RaisedAt fault rest t (w ++ rest)

theorem Program.accepted (h : Program ts program) : Accepted ts := by
  obtain ⟨l, hr⟩ := h.read
  exact ⟨h.terminated, program, Reply.toExcept_eq_ok_iff.2 ⟨_, hr⟩⟩

theorem viable_of_completable
    (h : Completable (fun w program => ∀ l, Program (w ++ [⟨.endOfFile, l⟩]) program) w) :
    Viable w := by
  obtain ⟨v, program, h⟩ := h
  refine ⟨v ++ [⟨.endOfFile, ⟨0, 0⟩⟩], ?_⟩
  rw [← List.append_assoc]
  exact (h _).accepted

theorem inner_of_completable
    (h : Completable (fun w program => ∀ l, Program (w ++ [⟨.endOfFile, l⟩]) program) w) :
    Token.Inner w := by
  obtain ⟨v, program, h⟩ := h
  exact (inner_append.1 (h ⟨0, 0⟩).terminated.inner).1

theorem Viable.of_append (h : Viable (w ++ v)) : Viable w := by
  obtain ⟨v', h⟩ := h
  exact ⟨v ++ v', by rwa [List.append_assoc] at h⟩

/-- Where every continuation is a fault, no program begins. -/
theorem not_viable {t : Token} (h : ∀ ts, SameNext (t :: behind) ts →
    ∃ fault rest, (programOfTokens (w ++ ts)).answer = .error fault rest) :
    ¬ Viable (w ++ [t]) := by
  rintro ⟨v, -, program, hp⟩
  rw [List.append_assoc, Reply.toExcept_eq_ok_iff] at hp
  obtain ⟨rest, hp⟩ := hp
  obtain ⟨fault, rest', hf⟩ := h (t :: v) rfl
  cases hf.symm.trans hp

/-- The tokens end within a parameter with the name of an earlier one, behind that name and before
the end of its type. No program begins with the name there. -/
def EndsInRepetition (before : List Token) : Prop :=
  ∃ front name w v p, before = front ++ name :: w ∧ Param.Derives (name :: (w ++ v)) p ∧ v ≠ [] ∧
    Repeats front p.name ∧ Viable front ∧ ¬ Viable (front ++ [name])

/-- A fault is raised at a token with which no program goes on. The tokens in front of it are those of
some program, unless they end within a parameter that repeats the name of an earlier one. -/
theorem faults_are_early {ts : List Token} (ht : Terminated ts) {fault : SyntaxFault}
    {rest : List Token} (hf : programOfTokens ts = .error fault rest) :
    ∃ before t behind, ts = before ++ t :: behind ∧ fault.location = t.location ∧
      RaisedAt fault rest t behind ∧ ¬ Viable (before ++ [t]) ∧
      (Viable before ∨ EndsInRepetition before) := by
  have ha : (programOfTokens ts).answer = .error fault rest := by rw [hf]; rfl
  obtain ⟨w, blamed, rfl, hw, hb, hl⟩ := (programOfTokens_reads ts).error fault rest ha
  cases hb with
  | here hc =>
    obtain ⟨t, behind, rfl⟩ := ht.exists_next (inner_of_completable hw)
    exact ⟨w, t, behind, rfl, rfl, .next hc rfl, not_viable hl, .inl (viable_of_completable hw)⟩
  | @repeated name w' ty l₁ _ l₂ hn hty =>
    refine ⟨w, _, _, rfl, rfl, ?_, not_viable hl, .inl (viable_of_completable hw)⟩
    exact .name (w := ⟨.operator .colon, l₂⟩ :: w') rfl (.intro hty)
  | @unfinished name cause l₁ w' v p _ hn hc hp hv =>
    have hi : Token.Inner (w ++ ⟨.identifier name, l₁⟩ :: w') := by
      have := inner_of_completable hw
      have := hp.inLine.inner
      simp_all
    have he : w ++ ⟨.identifier name, l₁⟩ :: (w' ++ rest) =
        (w ++ ⟨.identifier name, l₁⟩ :: w') ++ rest := by simp
    rw [he] at ht ⊢
    obtain ⟨t, behind, rfl⟩ := ht.exists_next hi
    obtain rfl : name = p.name := by
      obtain ⟨l, u, hu⟩ := hp.opens
      cases hu
      rfl
    have hnv := not_viable hl
    refine ⟨_, t, behind, rfl, rfl, .next hc rfl, fun h => hnv ?_, .inr ?_⟩
    · exact Viable.of_append (v := w' ++ [t]) (by simpa using h)
    · exact ⟨w, _, w', v, p, rfl, hp, hv, hn, viable_of_completable hw, hnv⟩

/-! A function of which the second parameter has the name of the first and no type: the fault is
raised at the parenthesis behind it. -/

def repetition : List Token :=
  [⟨.indent 0, ⟨1, 1⟩⟩, ⟨.keyword .defWord, ⟨1, 1⟩⟩, ⟨.identifier "f", ⟨1, 5⟩⟩,
   ⟨.operator .openParen, ⟨1, 6⟩⟩, ⟨.identifier "a", ⟨1, 7⟩⟩, ⟨.operator .colon, ⟨1, 9⟩⟩,
   ⟨.keyword .numberWord, ⟨1, 11⟩⟩, ⟨.operator .comma, ⟨1, 17⟩⟩, ⟨.identifier "a", ⟨1, 19⟩⟩]

def untyped : List Token :=
  [⟨.operator .closeParen, ⟨1, 20⟩⟩, ⟨.lineFeed, ⟨1, 21⟩⟩, ⟨.indent 2, ⟨2, 1⟩⟩,
   ⟨.keyword .returnWord, ⟨2, 3⟩⟩, ⟨.lineFeed, ⟨2, 9⟩⟩, ⟨.endOfFile, ⟨3, 1⟩⟩]

theorem repetition_error
    (h : (Stmt.paramsAfter ["a"] (⟨.identifier "a", ⟨1, 19⟩⟩ :: ts)).answer = .error fault rest) :
    (programOfTokens (repetition ++ ts)).answer = .error fault rest := by
  simp only [repetition, List.cons_append, List.nil_append, programOfTokens_answer,
    outermostOfTokens, ofTokens, Stmt.ofTokens_answer, Stmt.ofLine_def, Stmt.signature,
    Stmt.params, Stmt.paramsAfter_answer [], Param.typeOfTokens, Ty.ofTokens, Stmt.paramsRest,
    expectName, expect, if_true, List.not_mem_nil, if_false, answer_loosen, answer_andThen,
    answer_found, h, Answer.ok_andThen, Answer.error_andThen]

theorem repetition_not_viable : ¬ Viable repetition := by
  rintro ⟨v, -, program, hp⟩
  obtain ⟨rest, hp⟩ := Reply.toExcept_eq_ok_iff.1 hp
  obtain ⟨fault, rest', hf⟩ :=
    Stmt.paramsAfter_taken (List.mem_singleton.2 (rfl : "a" = "a")) ⟨1, 19⟩ v
  cases (repetition_error hf).symm.trans hp

theorem repetition_untyped_error :
    programOfTokens (repetition ++ untyped) = .error ⟨.expected .colon, ⟨1, 20⟩⟩ untyped := by
  have h : (programOfTokens (repetition ++ untyped)).answer =
      .error ⟨.expected .colon, ⟨1, 20⟩⟩ untyped := by
    refine repetition_error ?_
    simp [Stmt.paramsAfter_answer, Param.typeOfTokens, untyped, expect, here]
  cases hr : programOfTokens (repetition ++ untyped) with
  | ok program rest shorter => rw [hr] at h; cases h
  | error fault rest => rw [hr] at h; cases h; rfl

theorem repetition_untyped_terminated : Terminated (repetition ++ untyped) :=
  ⟨repetition ++ untyped.dropLast, ⟨3, 1⟩, rfl, by simp [repetition, untyped]⟩

theorem faults_are_early_in_repetition :
    Terminated (repetition ++ untyped) ∧
      programOfTokens (repetition ++ untyped) = .error ⟨.expected .colon, ⟨1, 20⟩⟩ untyped ∧
      ∃ before t behind, repetition ++ untyped = before ++ t :: behind ∧
        (⟨1, 20⟩ : Location) = t.location ∧
        RaisedAt ⟨.expected .colon, ⟨1, 20⟩⟩ untyped t behind ∧ ¬ Viable (before ++ [t]) ∧
        (Viable before ∨ EndsInRepetition before) :=
  ⟨repetition_untyped_terminated, repetition_untyped_error,
    faults_are_early repetition_untyped_terminated repetition_untyped_error⟩

/-- The tokens in front of the parenthesis begin no program either. -/
theorem repetition_is_noticed_late :
    Terminated (repetition ++ untyped) ∧
      programOfTokens (repetition ++ untyped) = .error ⟨.expected .colon, ⟨1, 20⟩⟩ untyped ∧
      ∀ before t behind, repetition ++ untyped = before ++ t :: behind →
        RaisedAt ⟨.expected .colon, ⟨1, 20⟩⟩ untyped t behind → ¬ Viable before := by
  refine ⟨repetition_untyped_terminated, repetition_untyped_error, ?_⟩
  rintro before t behind he (⟨-, hr⟩ | ⟨hc, -⟩)
  · rw [← hr] at he
    rw [← List.append_cancel_right he]
    exact repetition_not_viable
  · cases hc

end Block

end Offside

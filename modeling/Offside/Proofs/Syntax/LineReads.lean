import Mathlib.Data.Fintype.EquivFin
import Offside.Proofs.Syntax.ExprReads
import Offside.Syntax.BlockOfTokens

/-!
Types, parameters and lines are read as the grammar says. A name that is taken among the parameters
is only refused behind its type.
-/

namespace Offside

open Token
open Reply (answer_andThen answer_loosen answer_found)

theorem Ty.ofTokens_reads (ts : List Token) :
    Reads R A (fun ts => (Ty.ofTokens ts).answer) Ty.Derives ts := by
  generalize ht : ts = given
  fun_cases Ty.ofTokens given
  · refine .cons ?_
    simp only [Ty.ofTokens, answer_found]
    exact .found _ .boolean fun _ _ => rfl
  · refine .cons ?_
    simp only [Ty.ofTokens, answer_found]
    exact .found _ .number fun _ _ => rfl
  · refine .cons ?_
    simp only [Ty.ofTokens, answer_found]
    exact .found _ .string fun _ _ => rfl
  · case case4 l₁ rest =>
    have hd : ∀ w element l₂, Ty.Derives w element → Completable (fun w' =>
        Ty.Derives (⟨.keyword .arrayWord, l₁⟩ :: ([⟨.operator .lessThan, l₂⟩] ++ w'))) w :=
      fun w element l₂ h => ⟨[⟨.operator .greaterThan, ⟨0, 0⟩⟩], _, .array h⟩
    refine .cons ?_
    simp only [Ty.ofTokens, answer_loosen, answer_andThen, answer_found]
    refine .andThen (expect_reads _ _ rest) ?_ ?_
    · rintro w ⟨⟩ rest' hr ⟨l₂, rfl⟩
      have := Reply.shorter hr
      refine .andThen (Ty.ofTokens_reads rest') (fun w element rest'' _ hw => ?_)
        fun w element hw => hd w element l₂ hw
      refine .map (expect_reads _ _ rest'') ?_
      rintro w' - ⟨l₃, rfl⟩
      exact .array hw
    · rintro w - ⟨l₂, rfl⟩
      have hb : Ty.Derives [⟨.keyword .booleanWord, ⟨0, 0⟩⟩] .boolean := .boolean
      obtain ⟨v, ty, h⟩ := hd _ _ l₂ hb
      exact ⟨_, ty, h⟩
  · refine .missing .typeName ⟨[⟨.keyword .booleanWord, ⟨0, 0⟩⟩], _, .boolean⟩ fun ts' hs => ?_
    rw [Ty.ofTokens, answer_missing] <;> grind
termination_by ts.length
decreasing_by all_goals grind

theorem Ty.ofTokens_derived (h : Ty.Derives w ty) (rest : List Token) :
    (Ty.ofTokens (w ++ rest)).answer = .ok ty rest := by
  induction h generalizing rest with
  | boolean | number | string => simp only [List.cons_append, Ty.ofTokens, answer_found]; rfl
  | array h ih =>
    simp only [List.cons_append, List.append_assoc, Ty.ofTokens, answer_loosen, answer_andThen,
      expect, if_true, answer_found, Answer.ok_andThen, ih]
    rfl

namespace Param

variable {name : String}

/-- Parameters with a comma behind each. -/
inductive Followed : List Token → List Param → Prop
  | none : Followed [] []
  | more (h : Derives w p) (hs : Followed w' ps) :
      Followed (w ++ ⟨.operator .comma, l₁⟩ :: w') (p :: ps)

/-- Parameters with names of their own, which are not taken, and what closes their list. -/
structure Behind (taken : List String) (w : List Token) (ps : List Param) : Prop where
  closed : Ended (.operator .closeParen) Separated w ps
  distinct : (ps.map Param.name).Nodup
  fresh : ∀ p ∈ ps, p.name ∉ taken

/-- Behind the tokens, which list parameters, the name is taken. -/
def Taken (taken : List String) (w : List Token) (name : String) : Prop :=
  ∃ ps, Followed w ps ∧ (name ∈ taken ∨ name ∈ ps.map Param.name)

theorem Taken.more (h : Taken (p.name :: taken) w name) (hp : Derives w₀ p) :
    Taken taken (w₀ ++ ⟨.operator .comma, l⟩ :: w) name := by
  obtain ⟨ps, hf, hn⟩ := h
  exact ⟨p :: ps, .more hp hf, by grind⟩

theorem Behind.one (hp : Derives w p) (hn : p.name ∉ taken) :
    Behind taken (w ++ [⟨.operator .closeParen, l⟩]) [p] where
  closed := ⟨.one hp⟩
  distinct := List.nodup_singleton _
  fresh := by simpa using hn

theorem Behind.more (hp : Derives w₀ p) (hn : p.name ∉ taken)
    (h : Behind (p.name :: taken) w ps) :
    Behind taken (w₀ ++ ⟨.operator .comma, l⟩ :: w) (p :: ps) where
  closed := by
    obtain ⟨h⟩ := h.closed
    simpa using Ended.intro (Separated.more hp h)
  distinct := by
    refine List.nodup_cons.2 ⟨?_, h.distinct⟩
    intro hm
    obtain ⟨q, hq, he⟩ := List.mem_map.1 hm
    exact h.fresh q hq (by simp [he])
  fresh q hq := by
    rcases List.mem_cons.1 hq with rfl | hq
    · exact hn
    · exact fun hm => h.fresh q hq (List.mem_cons_of_mem _ hm)

/-- There is always a name that is not taken. -/
theorem Behind.exists (taken : List String) : ∃ w ps, Behind taken w ps := by
  obtain ⟨name, hn⟩ := Infinite.exists_notMem_finset taken.toFinset
  have hp : Derives [⟨.identifier name, ⟨0, 0⟩⟩, ⟨.operator .colon, ⟨0, 0⟩⟩,
      ⟨.keyword .booleanWord, ⟨0, 0⟩⟩] ⟨name, .boolean⟩ := .intro .boolean
  exact ⟨_ ++ [⟨.operator .closeParen, ⟨0, 0⟩⟩], _, .one hp (by simpa using hn)⟩

/-- What stands behind the name of a parameter. -/
def typeOfTokens (ts : List Token) : Answer Ty :=
  (expect .colon .colon ts).answer.andThen fun _ rest => (Ty.ofTokens rest).answer

theorem typeOfTokens_reads (name : String) (l : Location) (ts : List Token) :
    Reads R A typeOfTokens (fun w ty => Derives (⟨.identifier name, l⟩ :: w) ⟨name, ty⟩) ts := by
  refine .andThen (expect_reads _ _ ts) ?_ ?_
  · rintro w ⟨⟩ rest - ⟨l₂, rfl⟩
    exact (Ty.ofTokens_reads rest).imp fun w ty h => .intro h
  · rintro w - ⟨l₂, rfl⟩
    exact ⟨[⟨.keyword .booleanWord, ⟨0, 0⟩⟩], _, .intro .boolean⟩

theorem typeOfTokens_shorter {ty : Ty} (h : typeOfTokens ts = .ok ty rest) :
    rest.length < ts.length := by
  unfold typeOfTokens at h
  cases hc : (expect .colon .colon ts).answer with
  | error fault rest' => simp [hc] at h
  | ok a rest' =>
    rw [hc, Answer.ok_andThen] at h
    exact (Reply.shorter h).trans (Reply.shorter hc)

theorem typeOfTokens_derived (h : Derives (⟨.identifier name, l⟩ :: w) p) (rest : List Token) :
    typeOfTokens (w ++ rest) = .ok p.ty rest := by
  cases h with
  | intro h =>
    simp only [typeOfTokens, List.cons_append, expect, if_true, answer_found, Answer.ok_andThen]
    exact Ty.ofTokens_derived h rest

end Param

namespace Stmt

open Param (Taken Behind typeOfTokens typeOfTokens_reads typeOfTokens_derived
  typeOfTokens_shorter)

theorem paramsAfter_answer (taken : List String) (name : String) (l : Location) (ts : List Token) :
    (paramsAfter taken (⟨.identifier name, l⟩ :: ts)).answer =
      (typeOfTokens ts).andThen fun ty rest =>
        if name ∈ taken then .error ⟨.duplicateParameter, l⟩ rest
        else (paramsRest (name :: taken) ⟨name, ty⟩ rest).answer := by
  rw [paramsAfter, typeOfTokens]
  simp only [expectName, answer_loosen, answer_andThen, answer_found, Answer.ok_andThen]
  cases (expect .colon .colon ts).answer with
  | error fault rest => rfl
  | ok a rest =>
    simp only [Answer.ok_andThen, Token.here]
    congr
    funext ty rest'
    split
    · rfl
    · simp only [answer_loosen]

/-- Behind a name that is taken, there is no way to go on. -/
theorem paramsAfter_taken {name : String} (hn : name ∈ taken) (l : Location) (ts : List Token) :
    ∃ fault rest, (paramsAfter taken (⟨.identifier name, l⟩ :: ts)).answer = .error fault rest := by
  rw [paramsAfter_answer]
  cases typeOfTokens ts with
  | error fault rest => exact ⟨_, _, rfl⟩
  | ok ty rest => exact ⟨_, _, by rw [Answer.ok_andThen, if_pos hn]⟩

theorem paramsAfter_taken_reads {name : String} (hn : name ∈ taken) (l : Location)
    (ts : List Token) :
    Reads (Taken taken) A (fun ts => (paramsAfter taken ts).answer) (Behind taken)
      (⟨.identifier name, l⟩ :: ts) where
  ok ps rest hr := by
    obtain ⟨fault, rest', he⟩ := paramsAfter_taken hn l ts
    cases hr.symm.trans he
  error fault rest hr := by
    have ht : Taken taken [] name := ⟨[], .none, .inl hn⟩
    refine ⟨[], _, rfl, Behind.exists taken, ?_, fun blamed' hs => ?_⟩
    · have hk : Reads (fun _ _ => False) (fun _ _ => True) typeOfTokens _ ts :=
        typeOfTokens_reads name l ts
      simp only [paramsAfter_answer] at hr
      cases hf : typeOfTokens ts with
      | ok ty between =>
        rw [hf, Answer.ok_andThen, if_pos hn] at hr
        cases hr
        obtain ⟨w, rfl, hp, -⟩ := hk.ok ty rest hf
        cases hp with
        | intro h => exact .repeated ht h
      | error fault' between =>
        rw [hf, Answer.error_andThen] at hr
        cases hr
        obtain ⟨w, blamed, rfl, ⟨v, ty, hp⟩, hb, -⟩ := hk.error fault rest hf
        cases hb with
        | repeated hn => exact hn.elim
        | unfinished hn => exact hn.elim
        | here hc =>
          -- What is read of the type is not all of it, or there would be no fault.
          refine .unfinished ht hc hp ?_
          rintro rfl
          rw [List.append_nil] at hp
          cases hf.symm.trans (typeOfTokens_derived hp rest)
    · obtain ⟨ts', rfl⟩ := hs.symm.eq_cons
      exact paramsAfter_taken hn l ts'

mutual

theorem paramsAfter_reads (taken : List String) (ts : List Token) :
    Reads (Taken taken) A (fun ts => (paramsAfter taken ts).answer) (Behind taken) ts := by
  generalize ht : ts = given
  fun_cases expectName .parameterName given
  · case case1 name l rest =>
    by_cases hn : name ∈ taken
    · exact paramsAfter_taken_reads hn l rest
    · refine .cons ?_
      simp only [paramsAfter_answer, if_neg hn]
      refine .andThen (typeOfTokens_reads name l rest) (fun w ty rest' hr hw => ?_)
        fun w ty hw => ⟨[⟨.operator .closeParen, ⟨0, 0⟩⟩], _, .one hw hn⟩
      have := typeOfTokens_shorter hr
      exact ((paramsRest_reads (p := ⟨name, ty⟩) hn rest').mono fun w' name' h => h _ hw).imp
        fun w' ps h => h _ hw
  · refine .missing .parameterName (Behind.exists taken) fun ts' hs => ?_
    rw [paramsAfter, expectName]
    · rfl
    · grind
termination_by 2 * ts.length + 1
decreasing_by all_goals grind

theorem paramsRest_reads {p : Param} (hn : p.name ∉ taken) (ts : List Token) :
    Reads (fun w name => ∀ w₀, Param.Derives w₀ p → Taken taken (w₀ ++ w) name) A
      (fun ts => (paramsRest (p.name :: taken) p ts).answer)
      (fun w ps => ∀ w₀, Param.Derives w₀ p → Behind taken (w₀ ++ w) ps) ts := by
  generalize ht : ts = given
  fun_cases paramsRest (p.name :: taken) p given
  · refine .cons ?_
    simp only [paramsRest, answer_found]
    exact .found _ (fun w₀ hp => .one hp hn) fun _ _ => rfl
  · case case2 rest =>
    refine .cons ?_
    simp only [paramsRest, answer_loosen, answer_andThen, answer_found]
    exact .map ((paramsAfter_reads (p.name :: taken) rest).mono fun w name h w₀ hp => h.more hp)
      fun w ps h w₀ hp => h.more hp hn
  · refine .missing .commaOrCloseParen
      ⟨[⟨.operator .closeParen, ⟨0, 0⟩⟩], [p], fun w₀ hp => .one hp hn⟩ fun ts' hs => ?_
    rw [paramsRest, answer_missing] <;> grind
termination_by 2 * ts.length
decreasing_by all_goals grind

end

theorem params_reads (ts : List Token) :
    Reads (Taken []) A (fun ts => (params ts).answer)
      (Ended (.operator .closeParen) Param.Elements) ts := by
  fun_cases params ts
  · refine .cons ?_
    simp only [params, answer_found]
    exact .found _ (.intro Param.Elements.none) fun _ _ => rfl
  · refine .congr _ ((paramsAfter_reads [] ts).imp fun w ps h => ?_) fun ts' hs => ?_
    · obtain ⟨hc⟩ := h.closed
      exact ⟨.some hc h.distinct⟩
    · rw [params]
      grind

theorem returns_reads (ts : List Token) :
    Reads R A (fun ts => (returns ts).answer) (Ended .lineFeed Result) ts := by
  fun_cases returns ts
  · refine .cons ?_
    simp only [returns, answer_loosen, answer_andThen, answer_found]
    refine .andThen (Ty.ofTokens_reads _) (fun w ty rest' _ hw => ?_)
      fun w ty hw => Ended.completable (Result.some hw)
    refine .map (expectLineEnd_reads _ rest') ?_
    rintro w' - ⟨l, rfl⟩
    exact Ended.intro (Result.some hw)
  · refine .congr _ (.map (f := fun _ => Ty.none) (expectLineEnd_reads .lineEnd ts) ?_)
      fun ts' hs => ?_
    · rintro w - ⟨l, rfl⟩
      exact Ended.intro Result.none
    · rw [returns, answer_andThen]
      · rfl
      · grind

theorem lastExpr_reads (ts : List Token) :
    Reads R A (fun ts => (lastExpr ts).answer) (Ended .lineFeed (Expr.Derives .assignment))
      ts := by
  simp only [lastExpr, answer_loosen, answer_andThen, answer_found]
  refine .andThen (Expr.ofTokens_reads ts) (fun w e rest _ hw => ?_) fun w e hw =>
    Ended.completable hw
  refine .map (expectLineEnd_reads _ rest) ?_
  rintro w' - ⟨l, rfl⟩
  exact ⟨hw⟩

theorem operand_reads (ts : List Token) :
    Reads R A (fun ts => (operand ts).answer) (Ended .lineFeed (Expr.Derives .assignment))
      ts := by
  fun_cases operand ts
  · refine .missing .expression ⟨Expr.sample ++ [⟨.lineFeed, ⟨0, 0⟩⟩], _,
      ⟨Expr.sample_derives _⟩⟩ fun ts' hs => ?_
    obtain ⟨rest', rfl⟩ := hs.symm.eq_cons
    rw [operand, answer_missing]
  · refine .congr _ (lastExpr_reads ts) fun ts' hs => ?_
    rw [operand]
    grind

theorem initializer_reads (ts : List Token) :
    Reads R A (fun ts => (initializer ts).answer)
      (fun w value => ∀ l₁ name l₂ w₀ ty, Ty.Derives w₀ ty →
        Line (⟨.identifier name, l₁⟩ :: ⟨.operator .colon, l₂⟩ :: (w₀ ++ w))
          (.declare l₁ name (some ty) value)) ts := by
  fun_cases initializer ts
  · refine .cons ?_
    simp only [initializer, answer_loosen, answer_andThen, answer_found]
    refine .map (lastExpr_reads _) ?_
    rintro w e ⟨he⟩ l₁ name l₂ w₀ ty ht
    exact .declareBoth ht he
  · refine .congr _ (.map (f := fun _ => none) (expectLineEnd_reads .operatorOrLineEnd ts) ?_)
      fun ts' hs => ?_
    · rintro w - ⟨l, rfl⟩ l₁ name l₂ w₀ ty ht
      exact .declareTyped ht
    · rw [initializer, answer_andThen]
      · rfl
      · grind

theorem declaration_reads (l₁ : Location) (name : String) (ts : List Token) :
    Reads R A (fun ts => (declaration l₁ name ts).answer)
      (fun w stmt => ∀ l₂,
        Line (⟨.identifier name, l₁⟩ :: ⟨.operator .colon, l₂⟩ :: w) stmt) ts := by
  fun_cases declaration l₁ name ts
  · refine .cons ?_
    simp only [declaration, answer_loosen, answer_andThen, answer_found]
    refine .map (lastExpr_reads _) ?_
    rintro w e ⟨he⟩ l₂
    exact .declareInferred he
  · refine .congr (fun ts => (Ty.ofTokens ts).answer.andThen fun ty rest =>
        (initializer rest).answer.andThen fun value rest =>
          .ok (.declare l₁ name (some ty) value) rest)
      (.andThen (Ty.ofTokens_reads ts) (fun w ty rest _ hw => ?_) fun w ty hw => ?_)
      fun ts' hs => ?_
    · exact .map (initializer_reads rest) fun w' value h l₂ => h l₁ name l₂ w ty hw
    · exact ⟨[⟨.lineFeed, ⟨0, 0⟩⟩], _, fun l₂ => .declareTyped hw⟩
    · rw [declaration]
      · simp only [answer_loosen, answer_andThen, answer_found]
      · grind

end Stmt

/-- The tokens end within the parameters of a function, of which one has the name. -/
def Repeats (w : List Token) (name : String) : Prop :=
  ∃ before l₁ f l₂ l₃ w' ps, w = before ++ ⟨.keyword .defWord, l₁⟩ :: ⟨.identifier f, l₂⟩ ::
    ⟨.operator .openParen, l₃⟩ :: w' ∧ Param.Followed w' ps ∧ name ∈ ps.map Param.name

namespace Repeats

variable {name : String}

theorem append (h : Repeats w' name) (w : List Token) : Repeats (w ++ w') name := by
  obtain ⟨before, l₁, f, l₂, l₃, w'', ps, rfl, h⟩ := h
  exact ⟨w ++ before, l₁, f, l₂, l₃, w'', ps, by simp, h⟩

theorem cons (h : Repeats w name) (t : Token) : Repeats (t :: w) name :=
  h.append [t]

theorem of_taken (h : Param.Taken [] w name) :
    Repeats (⟨.keyword .defWord, l₁⟩ :: ⟨.identifier f, l₂⟩ :: ⟨.operator .openParen, l₃⟩ :: w)
      name := by
  obtain ⟨ps, hf, hn | hn⟩ := h
  · cases hn
  · exact ⟨[], l₁, f, l₂, l₃, w, ps, rfl, hf, hn⟩

end Repeats

namespace Stmt

theorem signature_reads (ts : List Token) :
    Reads (fun w name => ∀ l₁, Repeats (⟨.keyword .defWord, l₁⟩ :: w) name) A
      (fun ts => (signature ts).answer)
      (fun w s => ∀ l₁ body,
        Header (⟨.keyword .defWord, l₁⟩ :: w) body (.define l₁ s.1 s.2.1 s.2.2 body)) ts := by
  simp only [signature, answer_loosen, answer_andThen, answer_found]
  refine .andThen (expectName_reads _ ts) ?_ ?_
  · rintro w name rest - ⟨l₂, rfl⟩
    refine .andThen (expect_reads _ _ rest) ?_ ?_
    · rintro w ⟨⟩ rest' - ⟨l₃, rfl⟩
      refine .andThen ((params_reads rest').mono fun w name' h l₁ => .of_taken h) ?_ ?_
      · rintro w ps rest'' - ⟨hp⟩
        refine .map (returns_reads rest'') ?_
        rintro w' ty ⟨ht⟩ l₁ body
        simpa using Header.define hp ht
      · rintro w ps ⟨hp⟩
        exact ⟨[⟨.lineFeed, ⟨0, 0⟩⟩], (name, ps, .none), fun l₁ body => by
          simpa using Header.define hp .none⟩
    · rintro w - ⟨l₃, rfl⟩
      exact ⟨[⟨.operator .closeParen, ⟨0, 0⟩⟩, ⟨.lineFeed, ⟨0, 0⟩⟩], (name, [], .none),
        fun l₁ body => .define .none .none⟩
  · rintro w name ⟨l₂, rfl⟩
    exact ⟨[⟨.operator .openParen, ⟨0, 0⟩⟩, ⟨.operator .closeParen, ⟨0, 0⟩⟩, ⟨.lineFeed, ⟨0, 0⟩⟩],
      (name, [], .none), fun l₁ body => .define .none .none⟩

theorem loopHeader_reads (ts : List Token) :
    Reads R A (fun ts => (loopHeader ts).answer)
      (fun w s => ∀ l₁ body,
        Header (⟨.keyword .forWord, l₁⟩ :: w) body (.for l₁ s.1 s.2 body)) ts := by
  simp only [loopHeader, answer_loosen, answer_andThen, answer_found]
  refine .andThen (expectName_reads _ ts) ?_ ?_
  · rintro w name rest - ⟨l₂, rfl⟩
    refine .andThen (expect_reads _ _ rest) ?_ ?_
    · rintro w ⟨⟩ rest' - ⟨l₃, rfl⟩
      refine .map (operand_reads rest') ?_
      rintro w e ⟨he⟩ l₁ body
      exact .for he
    · rintro w - ⟨l₃, rfl⟩
      exact ⟨Expr.sample ++ [⟨.lineFeed, ⟨0, 0⟩⟩], (name, _),
        fun l₁ body => .for (Expr.sample_derives _)⟩
  · rintro w name ⟨l₂, rfl⟩
    exact ⟨⟨.operator .colon, ⟨0, 0⟩⟩ :: (Expr.sample ++ [⟨.lineFeed, ⟨0, 0⟩⟩]), (name, _),
      fun l₁ body => .for (Expr.sample_derives _)⟩

end Stmt

end Offside

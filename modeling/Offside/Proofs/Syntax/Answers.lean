import Offside.Proofs.Syntax.Grammar
import Offside.Syntax.Reply

/-!
What a reader does with all its inputs. `Reads` says of a reader and a list of tokens that what is
read is derived by a grammar; that a fault is raised where no other tokens behind the same next one
help, although those in front can be completed; and that neither depends on the tokens further on.
-/

namespace Offside

variable {α β : Type} {n : Nat}

/-- A reply without the bound on the tokens that are left. -/
inductive Answer (α : Type) where
  | ok (a : α) (rest : List Token)
  | error (fault : SyntaxFault) (rest : List Token)

namespace Answer

def andThen (r : Answer α) (next : α → List Token → Answer β) : Answer β :=
  match r with
  | .ok a rest => next a rest
  | .error fault rest => .error fault rest

@[simp]
theorem ok_andThen (a : α) (rest : List Token) (next : α → List Token → Answer β) :
    (ok a rest).andThen next = next a rest :=
  rfl

@[simp]
theorem error_andThen (fault : SyntaxFault) (rest : List Token)
    (next : α → List Token → Answer β) : (error fault rest).andThen next = error fault rest :=
  rfl

end Answer

namespace Reply

def answer : Reply α n → Answer α
  | .ok a rest _ => .ok a rest
  | .error fault rest => .error fault rest

@[simp]
theorem answer_found (a : α) (rest : List Token) : (found a rest).answer = .ok a rest :=
  rfl

@[simp]
theorem answer_loosen (r : Reply α n) : r.loosen.answer = r.answer := by
  cases r <;> rfl

@[simp]
theorem answer_andThen (r : Reply α n)
    (next : α → (rest : List Token) → Reply β (rest.length + 1)) :
    (r.andThen fun a rest _ => next a rest).answer =
      r.answer.andThen fun a rest => (next a rest).answer := by
  cases r with
  | error fault rest => rfl
  | ok a rest shorter =>
    simp only [andThen, answer, Answer.ok_andThen]
    cases next a rest <;> rfl

theorem shorter {r : Reply α n} {a : α} {rest : List Token} (h : r.answer = .ok a rest) :
    rest.length < n := by
  cases r with
  | ok a rest shorter =>
    cases h
    exact shorter
  | error fault rest => cases h

theorem toExcept_eq_ok_iff {r : Reply α n} {a : α} :
    r.toExcept = .ok a ↔ ∃ rest, r.answer = .ok a rest := by
  cases r <;> simp [toExcept, answer]

end Reply

@[simp]
theorem Token.answer_stop (cause : SyntaxError) (ts : List Token) :
    (stop cause ts : Reply α n).answer = .error ⟨cause, here ts⟩ ts :=
  rfl

@[simp]
theorem Token.answer_missing (what : Expectation) (ts : List Token) :
    (missing what ts : Reply α n).answer = .error ⟨.expected what, here ts⟩ ts :=
  rfl

/-- The next token is the same, or there is none. -/
def SameNext (ts ts' : List Token) : Prop :=
  ts.head? = ts'.head?

namespace SameNext

theorem symm (h : SameNext ts ts') : SameNext ts' ts :=
  Eq.symm h

theorem append (h : SameNext ts ts') (w : List Token) : SameNext (w ++ ts) (w ++ ts') := by
  cases w with
  | nil => exact h
  | cons t w => exact rfl

@[grind →]
theorem eq_cons (h : SameNext ts (t :: rest)) : ∃ rest', ts = t :: rest' := by
  cases ts with
  | nil => cases h
  | cons t' ts =>
    cases h
    exact ⟨ts, rfl⟩

theorem here (h : SameNext ts ts') : Token.here ts = Token.here ts' := by
  cases ts' with
  | nil => rw [List.head?_eq_none_iff.1 h]
  | cons t rest =>
    obtain ⟨rest', rfl⟩ := h.eq_cons
    rfl

end SameNext

/-- The tokens are the first ones of something that is derived. -/
def Completable (Derives : List Token → α → Prop) (w : List Token) : Prop :=
  ∃ v a, Derives (w ++ v) a

theorem Completable.of {G : List Token → α → Prop} (h : G w a) : Completable G w :=
  ⟨[], a, by simpa using h⟩

/-- Something that is derived, and a token of this kind behind it. -/
inductive Ended (kind : TokenKind) (Derives : List Token → α → Prop) : List Token → α → Prop
  | intro (h : Derives w a) : Ended kind Derives (w ++ [⟨kind, l₁⟩]) a

theorem Ended.completable {G : List Token → α → Prop} {kind : TokenKind} (h : G w a) :
    Completable (Ended kind G) w :=
  ⟨[⟨kind, ⟨0, 0⟩⟩], a, ⟨h⟩⟩

/-- Behind the tokens `w`, a fault is raised with `rest` to be read next, and the tokens from the
one that is to blame on are `blamed`. That is the next token, unless a parameter repeats the name of
an earlier one: then it is that name, both when it is found to be repeated behind the type, and when
no type can be read behind it. -/
inductive Raised (Repeats : List Token → String → Prop) (w : List Token) :
    SyntaxFault → (rest blamed : List Token) → Prop
  | here (hc : cause ≠ .duplicateParameter) : Raised Repeats w ⟨cause, Token.here rest⟩ rest rest
  | repeated (hn : Repeats w name) (ht : Ty.Derives w' ty) :
      Raised Repeats w ⟨.duplicateParameter, l₁⟩ rest
        (⟨.identifier name, l₁⟩ :: ⟨.operator .colon, l₂⟩ :: (w' ++ rest))
  | unfinished (hn : Repeats w name) (hc : cause ≠ .duplicateParameter)
      (hp : Param.Derives (⟨.identifier name, l₁⟩ :: (w' ++ v)) p) (hv : v ≠ []) :
      Raised Repeats w ⟨cause, Token.here rest⟩ rest (⟨.identifier name, l₁⟩ :: (w' ++ rest))

theorem Raised.mono (h : Raised R w fault rest blamed) (hR : ∀ name, R w name → R' w' name) :
    Raised R' w' fault rest blamed := by
  cases h with
  | here hc => exact .here hc
  | repeated hn ht => exact .repeated (hR _ hn) ht
  | unfinished hn hc hp hv => exact .unfinished (hR _ hn) hc hp hv

/-- The reader, on the tokens `ts`, keeps to the grammar. What it reads depends on what comes next
behind it, and it may be on more, which `Alike` says. -/
structure Reads (Repeats : List Token → String → Prop) (Alike : List Token → List Token → Prop)
    (read : List Token → Answer α) (Derives : List Token → α → Prop) (ts : List Token) : Prop where
  ok : ∀ a rest, read ts = .ok a rest → ∃ w, ts = w ++ rest ∧ Derives w a ∧
    ∀ rest', SameNext rest rest' → Alike rest rest' → read (w ++ rest') = .ok a rest'
  error : ∀ fault rest, read ts = .error fault rest → ∃ w blamed, ts = w ++ blamed ∧
    Completable Derives w ∧ Raised Repeats w fault rest blamed ∧
    ∀ blamed', SameNext blamed blamed' → ∃ fault' rest', read (w ++ blamed') = .error fault' rest'

namespace Reads

variable {R R' : List Token → String → Prop} {A : List Token → List Token → Prop}
  {read : List Token → Answer α} {G G' : List Token → α → Prop} {ts : List Token}

theorem imp (h : Reads R A read G' ts) (hG : ∀ w a, G' w a → G w a) : Reads R A read G ts where
  ok a rest hr := by
    obtain ⟨w, rfl, hw, hl⟩ := h.ok a rest hr
    exact ⟨w, rfl, hG w a hw, hl⟩
  error fault rest hr := by
    obtain ⟨w, blamed, rfl, ⟨v, a, hv⟩, hb, hl⟩ := h.error fault rest hr
    exact ⟨w, blamed, rfl, ⟨v, a, hG _ a hv⟩, hb, hl⟩

theorem mono (h : Reads R' A read G ts) (hR : ∀ w name, R' w name → R w name) :
    Reads R A read G ts where
  ok := h.ok
  error fault rest hr := by
    obtain ⟨w, blamed, rfl, hw, hb, hl⟩ := h.error fault rest hr
    exact ⟨w, blamed, rfl, hw, hb.mono (hR w), hl⟩

/-- Only the next token decides which reader it is. -/
theorem congr (read' : List Token → Answer α) (h : Reads R A read' G ts)
    (he : ∀ ts', SameNext ts ts' → read ts' = read' ts') :
    Reads R A read G ts where
  ok a rest hr := by
    rw [he ts rfl] at hr
    obtain ⟨w, rfl, hw, hl⟩ := h.ok a rest hr
    refine ⟨w, rfl, hw, fun rest' hs ha => ?_⟩
    rw [he _ (hs.append w)]
    exact hl rest' hs ha
  error fault rest hr := by
    rw [he ts rfl] at hr
    obtain ⟨w, blamed, rfl, hw, hb, hl⟩ := h.error fault rest hr
    refine ⟨w, blamed, rfl, hw, hb, fun blamed' hs => ?_⟩
    rw [he _ (hs.append w)]
    exact hl blamed' hs

/-- Nothing more is to be read, which may depend on tokens behind the next one. -/
theorem foundAlike (a : α) (hG : G [] a) (hr : read ts = .ok a ts)
    (he : ∀ ts', SameNext ts ts' → A ts ts' → read ts' = .ok a ts') : Reads R A read G ts where
  ok b rest h := by
    rw [hr] at h
    cases h
    exact ⟨[], rfl, hG, he⟩
  error fault rest h := by
    rw [hr] at h
    cases h

/-- Nothing more is to be read. -/
theorem found (a : α) (hG : G [] a) (he : ∀ ts', SameNext ts ts' → read ts' = .ok a ts') :
    Reads R A read G ts :=
  foundAlike a hG (he ts rfl) fun ts' hs _ => he ts' hs

/-- The next token is not one that may follow. -/
theorem stop (cause : SyntaxError) (hc : cause ≠ .duplicateParameter) (hG : Completable G [])
    (he : ∀ ts', SameNext ts ts' → read ts' = .error ⟨cause, Token.here ts'⟩ ts') :
    Reads R A read G ts where
  ok b rest h := by
    rw [he ts rfl] at h
    cases h
  error fault rest h := by
    rw [he ts rfl] at h
    cases h
    exact ⟨[], ts, rfl, hG, .here hc, fun ts' hs => ⟨_, _, he ts' hs⟩⟩

theorem missing (what : Expectation) (hG : Completable G [])
    (he : ∀ ts', SameNext ts ts' → read ts' = .error ⟨.expected what, Token.here ts'⟩ ts') :
    Reads R A read G ts :=
  stop (.expected what) nofun hG he

/-- One token and the next decide which reader it is, of which each reads something behind the
first. -/
theorem congr_behind {t : Token} (read' : List Token → Answer α) (h : Reads R A read' G (t :: ts))
    (hs : ∀ a rest, read' (t :: ts) = .ok a rest → rest.length ≤ ts.length)
    (hf : ∃ ts' a rest, read' (t :: ts') = .ok a rest)
    (he : ∀ ts', SameNext ts ts' → read (t :: ts') = read' (t :: ts')) :
    Reads R A read G (t :: ts) where
  ok a rest hr := by
    rw [he ts rfl] at hr
    obtain ⟨w, hw, hd, hl⟩ := h.ok a rest hr
    cases w with
    | nil =>
      cases hw
      exact absurd (hs a _ hr) (by simp)
    | cons t' w =>
      cases hw
      refine ⟨t :: w, rfl, hd, fun rest' hn ha => ?_⟩
      exact (he _ (hn.append w)).trans (hl rest' hn ha)
  error fault rest hr := by
    rw [he ts rfl] at hr
    obtain ⟨w, blamed, hw, hd, hb, hl⟩ := h.error fault rest hr
    cases w with
    | nil =>
      cases hw
      obtain ⟨ts', a, rest', hf⟩ := hf
      obtain ⟨fault', rest'', hl⟩ := hl (t :: ts') rfl
      cases hl.symm.trans hf
    | cons t' w =>
      cases hw
      refine ⟨t :: w, blamed, rfl, hd, hb, fun blamed' hn => ?_⟩
      obtain ⟨fault', rest', hl⟩ := hl blamed' hn
      exact ⟨fault', rest', (he _ (hn.append w)).trans hl⟩

/-- Read one token. -/
theorem cons {t : Token} (h : Reads (fun w name => R (t :: w) name) A (fun ts => read (t :: ts))
    (fun w a => G (t :: w) a) ts) : Reads R A read G (t :: ts) where
  ok a rest hr := by
    obtain ⟨w, rfl, hw, hl⟩ := h.ok a rest hr
    exact ⟨t :: w, rfl, hw, hl⟩
  error fault rest hr := by
    obtain ⟨w, blamed, rfl, hw, hb, hl⟩ := h.error fault rest hr
    exact ⟨t :: w, blamed, rfl, hw, hb.mono fun _ hn => hn, hl⟩

/-- Make something of what is read, given which tokens are read. -/
theorem mapPart {first : List Token → Answer β} {f : β → α} {G₁ : List Token → β → Prop}
    (h : Reads R A first G₁ ts) (hG : ∀ w b rest, ts = w ++ rest → G₁ w b → G w (f b))
    (hv : ∀ w b, G₁ w b → ∃ a, G w a) :
    Reads R A (fun ts => (first ts).andThen fun b rest => .ok (f b) rest) G ts where
  ok a rest hr := by
    cases hf : first ts with
    | error fault rest => simp [hf] at hr
    | ok b between =>
      simp only [hf, Answer.ok_andThen, Answer.ok.injEq] at hr
      obtain ⟨rfl, rfl⟩ := hr
      obtain ⟨w, rfl, hw, hl⟩ := h.ok b between hf
      exact ⟨w, rfl, hG w b _ rfl hw, fun rest' hs ha => by simp [hl rest' hs ha]⟩
  error fault rest hr := by
    cases hf : first ts with
    | ok b between => simp [hf] at hr
    | error fault rest =>
      simp only [hf, Answer.error_andThen, Answer.error.injEq] at hr
      obtain ⟨rfl, rfl⟩ := hr
      obtain ⟨w, blamed, rfl, ⟨v, b, hw⟩, hb, hl⟩ := h.error _ _ hf
      refine ⟨w, blamed, rfl, ⟨v, hv _ b hw⟩, hb, fun blamed' hs => ?_⟩
      obtain ⟨fault', rest', he⟩ := hl blamed' hs
      exact ⟨fault', rest', by simp [he]⟩

/-- Make something of what is read. -/
theorem map {first : List Token → Answer β} {f : β → α} {G₁ : List Token → β → Prop}
    (h : Reads R A first G₁ ts) (hG : ∀ w b, G₁ w b → G w (f b)) :
    Reads R A (fun ts => (first ts).andThen fun b rest => .ok (f b) rest) G ts :=
  h.mapPart (fun w b _ _ hw => hG w b hw) fun w b hw => ⟨f b, hG w b hw⟩

/-- The reader may stop in front of the tokens. -/
def Stalls (read : List Token → Answer α) (ts : List Token) : Prop :=
  (∃ a, read ts = .ok a ts) ∨ ∀ ts', SameNext ts ts' → ∃ fault rest, read ts' = .error fault rest

theorem Stalls.of_map {first : List Token → Answer β} {f : β → α}
    (h : Stalls (fun ts => (first ts).andThen fun b rest => .ok (f b) rest) ts) :
    Stalls first ts := by
  obtain ⟨a, h⟩ | h := h
  · cases hf : first ts with
    | error fault rest => simp [hf] at h
    | ok b rest =>
      simp only [hf, Answer.ok_andThen, Answer.ok.injEq] at h
      exact .inl ⟨b, by rw [hf, h.2]⟩
  · refine .inr fun ts' hs => ?_
    obtain ⟨fault, rest, h⟩ := h ts' hs
    cases hf : first ts' with
    | error fault' rest' => exact ⟨fault', rest', rfl⟩
    | ok b rest' => simp [hf] at h

/-- Go on behind what was read first, of which the end may depend on more than the next token. -/
theorem andThenAlike {first : List Token → Answer β} {second : β → List Token → Answer α}
    {G₁ : List Token → β → Prop} {A₁ : List Token → List Token → Prop}
    (h₁ : Reads R A₁ first G₁ ts)
    (h₂ : ∀ w b rest, first ts = .ok b rest → G₁ w b →
      Reads (fun w' name => R (w ++ w') name) A (second b) (fun w' a => G (w ++ w') a) rest)
    (hv : ∀ w b, G₁ w b → Completable G w)
    (hA : ∀ b w' p p', first ts = .ok b (w' ++ p) → SameNext p p' →
      (w' = [] → Stalls (second b) p) → A₁ (w' ++ p) (w' ++ p')) :
    Reads R A (fun ts => (first ts).andThen second) G ts where
  ok a rest hr := by
    cases hf : first ts with
    | error fault rest => simp [hf] at hr
    | ok b between =>
      simp only [hf, Answer.ok_andThen] at hr
      obtain ⟨w, rfl, hw, hl⟩ := h₁.ok b between hf
      obtain ⟨w', rfl, hw', hl'⟩ := (h₂ w b between hf hw).ok a rest hr
      refine ⟨w ++ w', by simp, hw', fun rest' hs ha => ?_⟩
      have hb := hA b w' rest rest' hf hs (by rintro rfl; exact .inl ⟨a, hr⟩)
      simp only [List.append_assoc, hl _ (hs.append w') hb, Answer.ok_andThen]
      exact hl' rest' hs ha
  error fault rest hr := by
    cases hf : first ts with
    | error fault rest =>
      simp only [hf, Answer.error_andThen, Answer.error.injEq] at hr
      obtain ⟨rfl, rfl⟩ := hr
      obtain ⟨w, blamed, rfl, ⟨v, b, hw⟩, hb, hl⟩ := h₁.error _ _ hf
      refine ⟨w, blamed, rfl, ?_, hb, fun blamed' hs => ?_⟩
      · obtain ⟨v', a, hv'⟩ := hv _ b hw
        exact ⟨v ++ v', a, by simpa using hv'⟩
      · obtain ⟨fault', rest', he⟩ := hl blamed' hs
        exact ⟨fault', rest', by simp [he]⟩
    | ok b between =>
      simp only [hf, Answer.ok_andThen] at hr
      obtain ⟨w, rfl, hw, hl⟩ := h₁.ok b between hf
      obtain ⟨w', blamed, rfl, ⟨v, a, hv'⟩, hb, hl'⟩ := (h₂ w b between hf hw).error fault rest hr
      refine ⟨w ++ w', blamed, by simp, ⟨v, a, by simpa using hv'⟩, hb.mono fun _ hn => hn,
        fun blamed' hs => ?_⟩
      have ha := hA b w' blamed blamed' hf hs (by rintro rfl; exact .inr hl')
      simp only [List.append_assoc, hl _ (hs.append w') ha, Answer.ok_andThen]
      exact hl' blamed' hs

/-- Go on behind what was read first. -/
theorem andThen {first : List Token → Answer β} {second : β → List Token → Answer α}
    {G₁ : List Token → β → Prop} (h₁ : Reads R (fun _ _ => True) first G₁ ts)
    (h₂ : ∀ w b rest, first ts = .ok b rest → G₁ w b →
      Reads (fun w' name => R (w ++ w') name) A (second b) (fun w' a => G (w ++ w') a) rest)
    (hv : ∀ w b, G₁ w b → Completable G w) :
    Reads R A (fun ts => (first ts).andThen second) G ts :=
  h₁.andThenAlike h₂ hv fun _ _ _ _ _ _ _ => trivial

end Reads

namespace Token

open Reply

theorem expect_reads (op : Operator) (what : Expectation) (ts : List Token) :
    Reads R A (fun ts => (expect op what ts).answer) (fun w _ => ∃ l, w = [⟨.operator op, l⟩])
      ts := by
  fun_cases expect op what ts
  · refine .cons ?_
    simp only [expect, if_true, answer_found]
    exact .found _ ⟨_, rfl⟩ fun _ _ => rfl
  · case case2 h =>
    refine .missing what ⟨[⟨.operator op, ⟨0, 0⟩⟩], (), _, rfl⟩ fun ts' hs => ?_
    obtain ⟨rest', rfl⟩ := hs.symm.eq_cons
    simp [expect, h]
  · refine .missing what ⟨[⟨.operator op, ⟨0, 0⟩⟩], (), _, rfl⟩ fun ts' hs => ?_
    rw [expect, answer_missing]
    grind

theorem expectLineEnd_reads (what : Expectation) (ts : List Token) :
    Reads R A (fun ts => (expectLineEnd what ts).answer) (fun w _ => ∃ l, w = [⟨.lineFeed, l⟩])
      ts := by
  fun_cases expectLineEnd what ts
  · refine .cons ?_
    simp only [expectLineEnd, answer_found]
    exact .found _ ⟨_, rfl⟩ fun _ _ => rfl
  · refine .missing what ⟨[⟨.lineFeed, ⟨0, 0⟩⟩], (), _, rfl⟩ fun ts' hs => ?_
    rw [expectLineEnd, answer_missing]
    grind

theorem expectName_reads (what : Expectation) (ts : List Token) :
    Reads R A (fun ts => (expectName what ts).answer)
      (fun w name => ∃ l, w = [⟨.identifier name, l⟩]) ts := by
  fun_cases expectName what ts
  · refine .cons ?_
    simp only [expectName, answer_found]
    exact .found _ ⟨_, rfl⟩ fun _ _ => rfl
  · refine .missing what ⟨[⟨.identifier "x", ⟨0, 0⟩⟩], "x", _, rfl⟩ fun ts' hs => ?_
    rw [expectName, answer_missing]
    grind

end Token

end Offside

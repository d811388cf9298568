import Offside.Proofs.Syntax.Descents
import Offside.Proofs.Syntax.Programs

/-!
The steps of the parser in front of given tokens. As long as the end of the program is ahead, a step
over a token is one over the first of them, and to return from what was descended to is to go on in
front of the rest. A parser that was put together from such steps gives the answer that was put
together from theirs.
-/

namespace Offside

open Token

namespace TokenKind

/-- Whether a token is the end of the program. -/
def isEnd : TokenKind → Bool
  | .endOfFile => true
  | _ => false

theorem isEnd_eq_false_iff {kind : TokenKind} : kind.isEnd = false ↔ kind ≠ .endOfFile := by
  cases kind <;> simp [isEnd]

end TokenKind

namespace Token.Terminated

variable {t : Token} {ts : List Token}

theorem ne_nil (h : Terminated ts) : ts ≠ [] := by
  obtain ⟨w, l, rfl, -⟩ := h
  simp

theorem exists_cons (h : Terminated ts) : ∃ t rest, ts = t :: rest :=
  List.exists_cons_of_ne_nil h.ne_nil

theorem tail (h : Terminated (t :: ts)) (ht : t.kind.isEnd = false) : Terminated ts := by
  obtain ⟨w, l, he, hi⟩ := h
  cases w with
  | nil =>
    cases he
    cases ht
  | cons t' w =>
    cases he
    exact ⟨w, l, rfl, (inner_cons.1 hi).2⟩

end Token.Terminated

namespace Answer

variable {α β γ : Type}

def rest : Answer α → List Token
  | .ok _ rest | .error _ rest => rest

def result : Answer α → Except SyntaxFault α
  | .ok a _ => .ok a
  | .error fault _ => .error fault

def map (f : α → β) (r : Answer α) : Answer β :=
  r.andThen fun a rest => .ok (f a) rest

@[simp]
theorem map_ok (f : α → β) (a : α) (rest : List Token) : (ok a rest).map f = .ok (f a) rest :=
  rfl

@[simp]
theorem map_error (f : α → β) (fault : SyntaxFault) (rest : List Token) :
    (error fault rest : Answer α).map f = .error fault rest :=
  rfl

@[simp]
theorem map_andThen (f : β → γ) (r : Answer α) (next : α → List Token → Answer β) :
    (r.andThen next).map f = r.andThen fun a rest => (next a rest).map f := by
  cases r <;> rfl

theorem andThen_assoc (r : Answer α) (first : α → List Token → Answer β)
    (second : β → List Token → Answer γ) :
    (r.andThen first).andThen second =
      r.andThen fun a rest => (first a rest).andThen second := by
  cases r <;> rfl

/-- Nothing was read before. -/
@[simp]
theorem map_nil_append (r : Answer (List α)) : (r.map fun read => [] ++ read) = r := by
  cases r <;> rfl

theorem map_append (r : Answer (List α)) (before : List α) (a : α) :
    (r.map fun read => before ++ [a] ++ read) = r.map fun read => before ++ a :: read := by
  simp only [List.append_assoc, List.singleton_append]

end Answer

namespace Parser

/-- The parser stands in front of these tokens, up to the end of the program. -/
def Before (p : Parser) (ts : List Token) : Prop :=
  p.tokens.drop p.position = ts ∧ Terminated ts

/-- The parser, moved to where only the rest is left. -/
def seek (p : Parser) (rest : List Token) : Parser :=
  ⟨p.tokens, p.tokens.length - rest.length⟩

theorem tokens_next (p : Parser) : p.next.tokens = p.tokens := by
  unfold next
  split <;> rfl

theorem seek_next (p : Parser) (rest : List Token) : p.next.seek rest = p.seek rest := by
  unfold seek
  rw [tokens_next]

namespace Before

variable {p : Parser} {t : Token} {ts rest : List Token}

theorem position_add (h : p.Before ts) : p.position + ts.length = p.tokens.length := by
  obtain ⟨rfl, ht⟩ := h
  have := List.length_pos_iff.2 ht.ne_nil
  rw [List.length_drop] at this ⊢
  omega

theorem position_lt (h : p.Before ts) : p.position < p.tokens.length := by
  have := h.position_add
  have := List.length_pos_iff.2 h.2.ne_nil
  omega

theorem peek_zero (h : p.Before (t :: ts)) : p.peek 0 = t := by
  have hlt := h.position_lt
  have hmin : min (p.position + 0) (p.tokens.length - 1) = p.position := by omega
  have hhead : p.tokens[p.position]? = some t := by
    rw [← List.head?_drop, h.1]
    rfl
  rw [peek, hmin, List.getD_eq_getElem?_getD, hhead]
  rfl

theorem next (h : p.Before (t :: ts)) (ht : t.kind.isEnd = false) : p.next.Before ts := by
  have hts := h.2.tail ht
  have hlen := h.position_add
  have hpos := List.length_pos_iff.2 hts.ne_nil
  rw [List.length_cons] at hlen
  rw [Parser.next, if_pos (by omega)]
  refine ⟨?_, hts⟩
  rw [← List.drop_drop, h.1]
  rfl

theorem peek_one (h : p.Before (t :: ts)) (ht : t.kind.isEnd = false) :
    p.peek 1 = p.next.peek 0 := by
  have hlen := h.position_add
  have hpos := List.length_pos_iff.2 (h.2.tail ht).ne_nil
  rw [List.length_cons] at hlen
  rw [Parser.next, if_pos (by omega)]
  rfl

theorem seek_self (h : p.Before ts) : p.seek ts = p := by
  have := h.position_add
  rw [Parser.seek, show p.tokens.length - ts.length = p.position by omega]

theorem seek (h : p.Before ts) (hrest : rest <:+ ts) (ht : Terminated rest) :
    (p.seek rest).Before rest := by
  refine ⟨?_, ht⟩
  have hs : rest <:+ p.tokens := hrest.trans (h.1 ▸ List.drop_suffix _ _)
  exact (List.suffix_iff_eq_drop.1 hs).symm

end Before

end Parser

namespace Plan

variable {α β : Type} {x : Plan α} {p p' : Parser} {n : Nat} {result : Except SyntaxFault α}

namespace Returns

/-- There is only one way to return. -/
theorem unique (h : x.Returns n result p) {n' : Nat} {result' : Except SyntaxFault α}
    (h' : x.Returns n' result' p') : n' = n ∧ result' = result ∧ p' = p := by
  induction h generalizing n' p' with
  | done =>
    cases h'
    exact ⟨rfl, rfl, rfl⟩
  | descend h hnext ih ihnext =>
    cases h' with
    | descend h' hnext' =>
      obtain ⟨rfl, ha, rfl⟩ := ih h'
      cases ha
      obtain ⟨rfl, rfl, rfl⟩ := ihnext hnext'
      exact ⟨rfl, rfl, rfl⟩
    | descendFault h' =>
      obtain ⟨-, ha, -⟩ := ih h'
      cases ha
  | descendFault h ih =>
    cases h' with
    | descend h' hnext' =>
      obtain ⟨-, ha, -⟩ := ih h'
      cases ha
    | descendFault h' =>
      obtain ⟨rfl, ha, rfl⟩ := ih h'
      cases ha
      exact ⟨rfl, rfl, rfl⟩

theorem bind (h : x.Returns n result p) {a : α} (ha : result = .ok a) {f : α → Parser → Plan β}
    {n' : Nat} {result' : Except SyntaxFault β} (hf : (f a p).Returns n' result' p') :
    ∃ m, (x.bind f).Returns m result' p' := by
  induction h with
  | done =>
    subst ha
    exact ⟨_, hf⟩
  | descend h hnext ih ihnext =>
    obtain ⟨m, hm⟩ := ihnext ha hf
    exact ⟨_, .descend h hm⟩
  | descendFault h ih => cases ha

theorem bind_error (h : x.Returns n result p) {fault : SyntaxFault} (he : result = .error fault)
    (f : α → Parser → Plan β) : ∃ m, (x.bind f).Returns m (.error fault) p := by
  induction h with
  | done =>
    subst he
    exact ⟨_, .done⟩
  | descend h hnext ih ihnext =>
    obtain ⟨m, hm⟩ := ihnext he f
    exact ⟨_, .descend h hm⟩
  | descendFault h ih =>
    cases he
    exact ⟨_, .descendFault h⟩

end Returns

theorem Descends.of_bind {f : α → Parser → Plan β} {g : Goal} (h : (x.bind f).Descends g p') :
    x.Descends g p' ∨ ∃ n a p, x.Returns n (.ok a) p ∧ (f a p).Descends g p' := by
  induction x with
  | done result p =>
    cases result with
    | ok a => exact .inr ⟨_, a, p, .done, h⟩
    | error fault => cases h
  | descend g₀ p₀ next ih =>
    cases h with
    | here => exact .inl .here
    | later h hnext =>
      obtain hx | ⟨n', a', p'', hr, hf⟩ := ih _ _ hnext
      · exact .inl (.later h hx)
      · exact .inr ⟨_, a', p'', .descend h hr, hf⟩

end Plan


/-- A descent from a rule of rank `k` with `n` tokens left is to where fewer are left, or to a rule
of a smaller rank. -/
def Nearer (n k : Nat) (g : Goal) (ts : List Token) : Prop :=
  ts.length < n ∨ ts.length = n ∧ g.rank < k

namespace Parse

variable {α β γ : Type} {n k : Nat} {t : Token} {ts : List Token}

/-- In front of these tokens, the parser returns with this answer, to some of the tokens or at the
end. It descends as it may from rank `k` with `n` tokens left. -/
structure Gives (n k : Nat) (x : Parse α) (ts : List Token) (r : Answer α) : Prop where
  suffix : r.rest <:+ ts
  terminated : Terminated r.rest
  returns : ∀ p, p.Before ts → ∃ m, (x p).Returns m r.result (p.seek r.rest)
  descends : ∀ p g p', p.Before ts → (x p).Descends g p' →
    p'.tokens = p.tokens ∧ ∃ ts', p'.Before ts' ∧ Nearer n k g ts'

namespace Gives

variable {x : Parse α} {y : α → Parse β} {r : Answer α} {s : Answer β}

theorem bind {next : α → List Token → Answer β} (hx : x.Gives n k ts r)
    (hy : ∀ a rest, r = .ok a rest → rest <:+ ts → Terminated rest →
      (y a).Gives n k rest (next a rest)) :
    (x >>= y).Gives n k ts (r.andThen next) := by
  cases r with
  | ok a rest =>
    have hya := hy a rest rfl hx.suffix hx.terminated
    refine ⟨hya.suffix.trans hx.suffix, hya.terminated, fun p hp => ?_, fun p g p' hp hd => ?_⟩
    · obtain ⟨m, hm⟩ := hx.returns p hp
      obtain ⟨m', hm'⟩ := hya.returns _ (hp.seek hx.suffix hx.terminated)
      exact hm.bind rfl hm'
    · obtain hd | ⟨m', a', q, hr, hd⟩ := Plan.Descends.of_bind hd
      · exact hx.descends p g p' hp hd
      · obtain ⟨m, hm⟩ := hx.returns p hp
        obtain ⟨-, ha, rfl⟩ := hm.unique hr
        cases ha
        exact hya.descends (p.seek rest) g p' (hp.seek hx.suffix hx.terminated) hd
  | error fault rest =>
    refine ⟨hx.suffix, hx.terminated, fun p hp => ?_, fun p g p' hp hd => ?_⟩
    · obtain ⟨m, hm⟩ := hx.returns p hp
      exact hm.bind_error rfl _
    · obtain hd | ⟨m', a', q, hr, hd⟩ := Plan.Descends.of_bind hd
      · exact hx.descends p g p' hp hd
      · obtain ⟨m, hm⟩ := hx.returns p hp
        obtain ⟨-, ha, -⟩ := hm.unique hr
        cases ha

theorem congr {x' : Parse α} (h : x'.Gives n k ts r) (he : ∀ p, p.Before ts → x p = x' p) :
    x.Gives n k ts r where
  suffix := h.suffix
  terminated := h.terminated
  returns p hp := by
    rw [he p hp]
    exact h.returns p hp
  descends p g p' hp hd := by
    rw [he p hp] at hd
    exact h.descends p g p' hp hd

theorem pure (a : α) (hts : Terminated ts) : (Pure.pure a : Parse α).Gives n k ts (.ok a ts) where
  suffix := List.suffix_refl ts
  terminated := hts
  returns p hp := by
    rw [Answer.rest, hp.seek_self]
    exact ⟨_, .done⟩
  descends p g p' hp hd := nomatch hd

theorem map {f : α → β} (hx : x.Gives n k ts r) :
    (x >>= fun a => Pure.pure (f a)).Gives n k ts (r.andThen fun a rest => .ok (f a) rest) :=
  hx.bind fun a _ _ _ hrest => pure (f a) hrest

theorem fail (fault : SyntaxFault) (hts : Terminated ts) :
    (Parse.fail fault : Parse α).Gives n k ts (.error fault ts) where
  suffix := List.suffix_refl ts
  terminated := hts
  returns p hp := by
    rw [Answer.rest, hp.seek_self]
    exact ⟨_, .done⟩
  descends p g p' hp hd := nomatch hd

/-! What is done with the current token. -/

theorem next {y : Unit → Parse β} (ht : t.kind.isEnd = false) (h : (y ()).Gives n k ts s) :
    (Parse.next >>= y).Gives n k (t :: ts) s where
  suffix := h.suffix.trans (List.suffix_cons t ts)
  terminated := h.terminated
  returns p hp := by
    rw [← p.seek_next]
    exact h.returns p.next (hp.next ht)
  descends p g p' hp hd := by
    rw [← p.tokens_next]
    exact h.descends p.next g p' (hp.next ht) hd

theorem peek {y : TokenKind → Parse β} (h : (y t.kind).Gives n k (t :: ts) s) :
    (Parse.peek 0 >>= y).Gives n k (t :: ts) s :=
  h.congr fun p hp => congrArg (fun t : Token => y t.kind p) hp.peek_zero

theorem peekNext {t' : Token} {y : TokenKind → Parse β}
    (ht : t.kind.isEnd = false) (h : (y t'.kind).Gives n k (t :: t' :: ts) s) :
    (Parse.peek 1 >>= y).Gives n k (t :: t' :: ts) s := by
  refine h.congr fun p hp => congrArg (fun t : Token => y t.kind p) ?_
  rw [hp.peek_one ht, (hp.next ht).peek_zero]

/-- Whatever token is there. -/
theorem peekAny {i : Nat} {y : TokenKind → Parse β} (h : ∀ kind, (y kind).Gives n k ts s) :
    (Parse.peek i >>= y).Gives n k ts s where
  suffix := (h .endOfFile).suffix
  terminated := (h .endOfFile).terminated
  returns p hp := (h _).returns p hp
  descends p g p' hp hd := (h _).descends p g p' hp hd

theorem location {y : Location → Parse β} (h : (y (here ts)).Gives n k ts s)
    (hts : Terminated ts) : (Parse.location >>= y).Gives n k ts s := by
  obtain ⟨t, rest, rfl⟩ := hts.exists_cons
  exact h.congr fun p hp => congrArg (fun t : Token => y t.location p) hp.peek_zero

theorem stop (cause : SyntaxError) (hts : Terminated ts) :
    (Parse.stop cause : Parse α).Gives n k ts (.error ⟨cause, here ts⟩ ts) :=
  location (fail _ hts) hts

theorem missing (what : Expectation) (hts : Terminated ts) :
    (Parse.missing what : Parse α).Gives n k ts (.error ⟨.expected what, here ts⟩ ts) :=
  stop _ hts

theorem eat {y : Bool → Parse β} {op : Operator} {l : Location}
    (h : (y true).Gives n k ts s) :
    (Parse.eat op >>= y).Gives n k (⟨.operator op, l⟩ :: ts) s := by
  have hn := next (t := ⟨.operator op, l⟩) (y := fun _ => y true) rfl h
  refine hn.congr fun p hp => ?_
  change ((if (p.peek 0).kind = .operator op then _ else _ : Parse Bool) p).bind y = _
  rw [hp.peek_zero, if_pos rfl]
  rfl

theorem notEat {y : Bool → Parse β} {op : Operator} (ht : t.kind ≠ .operator op)
    (h : (y false).Gives n k (t :: ts) s) : (Parse.eat op >>= y).Gives n k (t :: ts) s := by
  refine h.congr fun p hp => ?_
  change ((if (p.peek 0).kind = .operator op then _ else _ : Parse Bool) p).bind y = _
  rw [hp.peek_zero, if_neg ht]
  rfl

theorem notEat_of_ne {y : Bool → Parse β} {op : Operator} (hts : Terminated ts)
    (hne : ∀ l rest, ts = ⟨.operator op, l⟩ :: rest → False) (h : (y false).Gives n k ts s) :
    (Parse.eat op >>= y).Gives n k ts s := by
  obtain ⟨⟨kind, l⟩, rest, rfl⟩ := hts.exists_cons
  exact notEat (fun hk => hne l rest (by cases hk; rfl)) h

theorem lookup {y : Option γ → Parse β} {table : Operator → Option γ} {found : Option γ}
    (hfound : t.kind.lookup? table = found) (h : (y found).Gives n k (t :: ts) s) :
    (Parse.lookup table >>= y).Gives n k (t :: ts) s := by
  subst hfound
  exact h.congr fun p hp =>
    congrArg (fun t : Token => y (t.kind.lookup? table) p) hp.peek_zero

theorem expect (op : Operator) (what : Expectation) (hts : Terminated ts) :
    (Parse.expect op what).Gives n k ts (Token.expect op what ts).answer := by
  obtain ⟨⟨kind, l⟩, rest, rfl⟩ := hts.exists_cons
  cases kind with
  | operator o =>
    by_cases ho : o = op
    · subst ho
      rw [Token.expect, if_pos rfl]
      exact .eat (.pure () (hts.tail rfl))
    · rw [Token.expect, if_neg ho]
      exact .notEat (by simpa using ho) (.missing what hts)
  | _ => exact .notEat (by simp) (.missing what hts)

theorem expectLineEnd (what : Expectation) (hts : Terminated ts) :
    (Parse.expectLineEnd what).Gives n k ts (Token.expectLineEnd what ts).answer := by
  obtain ⟨⟨kind, l⟩, rest, rfl⟩ := hts.exists_cons
  refine .peek ?_
  cases kind with
  | lineFeed =>
    change (Parse.next >>= Pure.pure).Gives n k _ _
    exact .next rfl (.pure () (hts.tail rfl))
  | _ => exact .missing what hts

theorem expectName (what : Expectation) (hts : Terminated ts) :
    (Parse.expectName what).Gives n k ts (Token.expectName what ts).answer := by
  obtain ⟨⟨kind, l⟩, rest, rfl⟩ := hts.exists_cons
  refine .peek ?_
  cases kind with
  | identifier name => exact .next rfl (.pure name (hts.tail rfl))
  | _ => exact .missing what hts

end Gives

end Parse

end Offside

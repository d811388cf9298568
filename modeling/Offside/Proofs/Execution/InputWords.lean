import Offside.Execution.Input
import Offside.Proofs.Token.Lines

/-!
The words of the input, as they are asked for one after the other. The lines in which the input is
taken do not matter: every line ends with white space, and a text is a text in each of its lines. So
what is left of a line and what is not taken yet are together what is left of the words.
-/

namespace Offside

namespace Text

/-- The pieces of a text between white space, without the empty ones. -/
def pieces (s : List Char) : List (List Char) :=
  (s.splitOnP isSpace).filter (· ≠ [])

theorem splitOnP_letter {c : Char} (hc : ¬ isSpace c) (s : List Char) :
    (c :: s).splitOnP isSpace = (s.splitOnP isSpace).modifyHead (List.cons c) := by
  rw [List.splitOnP_cons_eq_if_modifyHead, if_neg hc]

theorem splitOnP_space {c : Char} (hc : isSpace c) (s : List Char) :
    (c :: s).splitOnP isSpace = [] :: s.splitOnP isSpace := by
  rw [List.splitOnP_cons_eq_if_modifyHead, if_pos hc]

theorem pieces_space {c : Char} (hc : isSpace c) (s : List Char) : pieces (c :: s) = pieces s := by
  unfold pieces
  rw [splitOnP_space hc]
  rfl

theorem words_eq_pieces (s : List Char) : words s = pieces s := by
  induction s using words.induct with
  | case1 => rfl
  | case2 c hc =>
    rw [words, if_pos hc, pieces_space hc]
    rfl
  | case3 c hc =>
    rw [words, if_neg hc, pieces, splitOnP_letter hc]
    rfl
  | case4 c d s hc ih => rw [words, if_pos hc, pieces_space hc, ih]
  | case5 c d s hc hd ih =>
    rw [words, if_neg hc, if_pos hd, ih, pieces_space hd]
    unfold pieces
    rw [splitOnP_letter hc, splitOnP_space hd]
    rfl
  | case6 c d s hc hd ih =>
    obtain ⟨first, rest, hsplit⟩ := List.exists_cons_of_ne_nil (List.splitOnP_ne_nil isSpace s)
    rw [words, if_neg hc, if_neg hd, ih]
    unfold pieces
    rw [splitOnP_letter hc, splitOnP_letter hd, hsplit]
    rfl

/-- White space ends a word. -/
theorem words_append_space {c : Char} (hc : isSpace c) (s t : List Char) :
    words (s ++ c :: t) = words s ++ words t := by
  simp only [words_eq_pieces, pieces, List.splitOnP_append_cons s t hc, List.filter_append]

theorem words_snoc_space {c : Char} (hc : isSpace c) (s : List Char) :
    words (s ++ [c]) = words s := by
  rw [words_append_space hc, words, List.append_nil]

end Text

namespace Input

open Text (words)

/-! The bytes of a text. -/

def encode (s : List Char) : List UInt8 :=
  s.flatMap String.utf8EncodeChar

theorem encode_append (s t : List Char) : encode (s ++ t) = encode s ++ encode t :=
  List.flatMap_append

theorem ofBytes_toUTF8 (text : String) : ofBytes text.toUTF8 = ⟨encode text.toList, []⟩ := by
  unfold ofBytes encode
  rw [String.toUTF8_eq_toByteArray, ← String.utf8Encode_toList, List.utf8Encode,
    List.toList_data_toByteArray]

/-- The bytes of a text are a text. -/
theorem decode_encode (s : List Char) : decode (encode s) = some (String.ofList s) := by
  have hbytes : (⟨(encode s).toArray⟩ : ByteArray) = (String.ofList s).toByteArray := by
    rw [String.toByteArray_ofList, List.utf8Encode]
    apply ByteArray.ext
    apply Array.toList_inj.1
    rw [List.toList_data_toByteArray]
    rfl
  unfold decode
  rw [hbytes]
  exact dif_pos (String.ofList s).isValidUTF8

/-- A line feed is in the bytes of no other character. -/
theorem lineFeed_notMem_utf8EncodeChar {c : Char} (hc : c ≠ '\n') :
    0x0A ∉ String.utf8EncodeChar c := by
  have hval : c.val.toNat ≠ 10 := fun h => hc (Char.ext (UInt32.toNat_inj.1 h))
  have hbyte (n : Nat) (hn : n % 256 ≠ 10) : 0x0A ≠ UInt8.ofNat n := by
    intro h
    exact hn (by rw [← UInt8.toNat_ofNat', ← h]; rfl)
  unfold String.utf8EncodeChar
  dsimp only
  split
  · case isTrue h => exact List.not_mem_cons_of_ne_of_not_mem (hbyte _ (by omega)) List.not_mem_nil
  · -- all bytes of a longer encoding have their highest bit set
    split
    · simp only [List.mem_cons, List.not_mem_nil, or_false, not_or]
      exact ⟨hbyte _ (by omega), hbyte _ (by omega)⟩
    · split
      · simp only [List.mem_cons, List.not_mem_nil, or_false, not_or]
        exact ⟨hbyte _ (by omega), hbyte _ (by omega), hbyte _ (by omega)⟩
      · simp only [List.mem_cons, List.not_mem_nil, or_false, not_or]
        exact ⟨hbyte _ (by omega), hbyte _ (by omega), hbyte _ (by omega), hbyte _ (by omega)⟩

theorem lineFeed_notMem_encode {s : List Char} (h : '\n' ∉ s) : 0x0A ∉ encode s := by
  intro hmem
  obtain ⟨c, hc, hbyte⟩ := List.mem_flatMap.1 hmem
  exact lineFeed_notMem_utf8EncodeChar (fun heq => h (heq ▸ hc)) hbyte

/-! Lines. -/

theorem cutLine_of_notMem {bytes : List UInt8} (h : 0x0A ∉ bytes) : cutLine bytes = (bytes, []) := by
  induction bytes with
  | nil => rfl
  | cons b bytes ih =>
    have hb : 0x0A ≠ b := List.ne_of_not_mem_cons h
    rw [cutLine, if_neg (Ne.symm hb), ih (List.not_mem_of_not_mem_cons h)]

theorem cutLine_append {bytes : List UInt8} (h : 0x0A ∉ bytes) (rest : List UInt8) :
    cutLine (bytes ++ 0x0A :: rest) = (bytes ++ [0x0A], rest) := by
  induction bytes with
  | nil => rfl
  | cons b bytes ih =>
    have hb : 0x0A ≠ b := List.ne_of_not_mem_cons h
    rw [List.cons_append, cutLine, if_neg (Ne.symm hb), ih (List.not_mem_of_not_mem_cons h)]
    rfl

/-- The first line of a text is a text, which has its words, and behind it are the other words. -/
theorem cutLine_encode (s : List Char) : ∃ line rest, cutLine (encode s) = (encode line, encode rest) ∧
    words s = words line ++ words rest := by
  by_cases hfeed : '\n' ∈ s
  · obtain ⟨line, rest, rfl, hline⟩ := Token.exists_lineFeed hfeed
    have hspace : Text.isSpace '\n' := by decide
    refine ⟨line ++ ['\n'], rest, ?_, ?_⟩
    · rw [encode_append, encode_append]
      exact cutLine_append (lineFeed_notMem_encode hline) _
    · rw [Text.words_snoc_space hspace, Text.words_append_space hspace]
  · refine ⟨s, [], cutLine_of_notMem (lineFeed_notMem_encode hfeed), ?_⟩
    rw [words, List.append_nil]

/-! What is asked for. -/

/-- These words are left of the input, which is a text. -/
def Holds (input : Input) (left : List String) : Prop :=
  ∃ s, input.unread = encode s ∧ left = input.pending ++ (words s).map String.ofList

/-- What comes of asking for a word when these words are left. -/
def answer (left : List String) : Except InputError String :=
  match left with
  | word :: _ => .ok word
  | [] => .error .exhausted

theorem encode_eq_nil {s : List Char} (h : encode s = []) : s = [] := by
  cases s with
  | nil => rfl
  | cons c s => exact absurd (List.append_eq_nil_iff.1 h).1 String.utf8EncodeChar_ne_nil

theorem wordOfBytes_encode (s : List Char) :
    (wordOfBytes (encode s)).1 = answer ((words s).map String.ofList) ∧
      (wordOfBytes (encode s)).2.Holds ((words s).map String.ofList).tail := by
  obtain ⟨line, rest, hcut, hwords⟩ := cutLine_encode s
  match hbytes : encode s with
  | [] =>
    cases encode_eq_nil hbytes
    rw [wordOfBytes]
    exact ⟨rfl, [], rfl, rfl⟩
  | b :: more =>
    rw [hbytes] at hcut
    have hlt : (encode rest).length < (encode s).length := by
      have hcutLine := length_cutLine_lt b more
      rwa [hcut, ← hbytes] at hcutLine
    rw [wordOfBytes, hcut, hwords]
    dsimp only
    rw [decode_encode]
    dsimp only
    rw [String.toList_ofList]
    cases words line with
    | nil => exact wordOfBytes_encode rest
    | cons word more => exact ⟨rfl, rest, rfl, List.map_append⟩
termination_by (encode s).length

/-- The words of the line come before those of the bytes behind it. -/
theorem word_of_holds {input : Input} {left : List String} (h : input.Holds left) :
    input.word.1 = answer left ∧ input.word.2.Holds left.tail := by
  obtain ⟨unread, pending⟩ := input
  obtain ⟨s, rfl, rfl⟩ := h
  cases pending with
  | nil => exact wordOfBytes_encode s
  | cons word words => exact ⟨rfl, s, rfl, rfl⟩

/-- What comes of asking for a word `n` times. -/
def answers (input : Input) : Nat → List (Except InputError String)
  | 0 => []
  | n + 1 => input.word.1 :: input.word.2.answers n

/-- The input after that. -/
def after (input : Input) : Nat → Input
  | 0 => input
  | n + 1 => input.word.2.after n

theorem answers_add (input : Input) (n k : Nat) :
    input.answers (n + k) = input.answers n ++ (input.after n).answers k := by
  induction n generalizing input with
  | zero => rw [Nat.zero_add]; rfl
  | succ n ih =>
    rw [Nat.succ_add]
    exact congrArg (input.word.1 :: ·) (ih input.word.2)

theorem after_add (input : Input) (n k : Nat) : input.after (n + k) = (input.after n).after k := by
  induction n generalizing input with
  | zero => rw [Nat.zero_add]; rfl
  | succ n ih =>
    rw [Nat.succ_add]
    exact ih input.word.2

theorem length_answers (input : Input) (n : Nat) : (input.answers n).length = n := by
  induction n generalizing input with
  | zero => rfl
  | succ n ih => exact congrArg (· + 1) (ih input.word.2)

theorem after_holds {input : Input} {left : List String} (h : input.Holds left) (n : Nat) :
    (input.after n).Holds (left.drop n) := by
  induction n generalizing input left with
  | zero => exact h
  | succ n ih =>
    rw [← List.drop_tail]
    exact ih (word_of_holds h).2

/-- The calls are answered by the next words of the input. -/
def Gives (input : Input) (calls : List (Except RuntimeError String)) : Prop :=
  calls = (input.answers calls.length).map (·.mapError .input)

namespace Gives

variable {input : Input} {first second : List (Except RuntimeError String)}

theorem append (hfirst : input.Gives first) (hsecond : (input.after first.length).Gives second) :
    input.Gives (first ++ second) := by
  unfold Gives at *
  rw [List.length_append, answers_add, List.map_append, ← hfirst, ← hsecond]

theorem of_append (h : input.Gives (first ++ second)) :
    input.Gives first ∧ (input.after first.length).Gives second := by
  unfold Gives at *
  rw [List.length_append, answers_add, List.map_append] at h
  exact List.append_inj h (by rw [List.length_map, length_answers])

variable {left : List String} {result : Except RuntimeError String}
  {calls : List (Except RuntimeError String)}

theorem head (h : input.Gives (result :: calls)) (hleft : input.Holds left) :
    result = (answer left).mapError .input := by
  rw [(List.cons.inj h).1, (word_of_holds hleft).1]

theorem tail (h : input.Gives (result :: calls)) : input.word.2.Gives calls :=
  (List.cons.inj h).2

theorem words (h : input.Gives calls) (hleft : input.Holds left) :
    calls.filterMap Except.toOption = left.take calls.length := by
  induction calls generalizing input left with
  | nil => rfl
  | cons result calls ih =>
    have hcalls := ih h.tail (word_of_holds hleft).2
    rw [h.head hleft]
    cases left with
    | nil => exact hcalls.trans (List.take_nil)
    | cons word left => exact congrArg (word :: ·) hcalls

theorem error_of_nil (h : input.Gives calls) (hleft : input.Holds []) :
    ∀ result ∈ calls, result = .error (.input .exhausted) := by
  induction calls generalizing input with
  | nil => nofun
  | cons first calls ih =>
    intro result hmem
    cases hmem with
    | head => exact h.head hleft
    | tail _ hmem => exact ih h.tail (word_of_holds hleft).2 result hmem

/-- The words are given one after the other, and after the last one none is given any more. -/
theorem in_order {before later : List (Except RuntimeError String)}
    (h : input.Gives (before ++ result :: later)) (hleft : input.Holds left) :
    (∀ word, result = .ok word → left[(before.filterMap Except.toOption).length]? = some word) ∧
      (∀ e, result = .error e → e = .input .exhausted) ∧
      (result = .error (.input .exhausted) ↔ before.filterMap Except.toOption = left) ∧
      (result = .error (.input .exhausted) →
        ∀ call ∈ later, call = .error (.input .exhausted)) := by
  obtain ⟨hbefore, hrest⟩ := h.of_append
  have hleft' := after_holds hleft before.length
  have hwords := hbefore.words hleft
  have hresult := hrest.head hleft'
  cases hdrop : left.drop before.length with
  | nil =>
    have hlength : left.length ≤ before.length := List.drop_eq_nil_iff.1 hdrop
    rw [hdrop] at hresult hleft'
    subst hresult
    rw [hwords, List.take_of_length_le hlength]
    exact ⟨nofun, fun e he => (Except.error.inj he).symm, iff_of_true rfl rfl,
      fun _ => hrest.tail.error_of_nil (word_of_holds hleft').2⟩
  | cons word rest =>
    have hget : left[before.length]? = some word := by rw [← List.head?_drop, hdrop]; rfl
    have hlength : (left.take before.length).length = before.length :=
      List.length_take_of_le (Nat.le_of_lt (List.getElem?_eq_some_iff.1 hget).1)
    rw [hdrop] at hresult
    subst hresult
    rw [hwords, hlength]
    refine ⟨fun w hw => Except.ok.inj hw ▸ hget, nofun, iff_of_false nofun fun hall => ?_, nofun⟩
    -- a list that is all taken has nothing left behind
    rw [hall] at hlength
    rw [← hlength, List.drop_length] at hdrop
    cases hdrop

end Gives

end Input

end Offside

import Offside.Proofs.Typing.Tagging

/-!
The common type of the elements of a list. Types are ordered by how much they say: an unknown type
says nothing, and an array says what its element type says. In this order the common type is the
least one that says all that the types of the elements say, so their order does not matter; and an
array takes the list if and only if its element type takes every element.
-/

namespace Offside.Ty

/-- The second type says what the first one says, and perhaps more. Elements that disagree have no
type that could be known. -/
inductive Below : Ty → Ty → Prop
  | refl (t : Ty) : Below t t
  | unknown {t : Ty} (h : t ≠ .mixed) : Below .none t
  | array {a b : Ty} (h : Below a b) : Below (.array a) (.array b)

namespace Below

variable {a b c : Ty}

theorem mixed_left (h : Ty.mixed.Below b) : b = .mixed := by
  cases h
  rfl

theorem mixed_right (h : a.Below .mixed) : a = .mixed := by
  cases h with
  | refl => rfl
  | unknown h => exact absurd rfl h

theorem none_right (h : a.Below .none) : a = .none := by
  cases h with
  | refl => rfl
  | unknown => rfl

theorem array_left (h : (Ty.array a).Below b) : ∃ b', b = .array b' ∧ a.Below b' := by
  cases h with
  | refl => exact ⟨a, rfl, .refl a⟩
  | array h => exact ⟨_, rfl, h⟩

/-- Every other type already says all it can. -/
theorem eq_of_ne (h : a.Below b) (hn : a ≠ .none) (ha : ∀ element, a ≠ .array element) :
    b = a := by
  cases h with
  | refl => rfl
  | unknown => exact absurd rfl hn
  | array => exact absurd rfl (ha _)

theorem trans (hab : a.Below b) (hbc : b.Below c) : a.Below c := by
  induction hab generalizing c with
  | refl => exact hbc
  | unknown h =>
    apply unknown
    rintro rfl
    exact h hbc.mixed_right
  | array _ ih =>
    obtain ⟨c', rfl, hc⟩ := hbc.array_left
    exact .array (ih hc)

theorem antisymm (hab : a.Below b) (hba : b.Below a) : a = b := by
  induction hab with
  | refl => rfl
  | unknown => exact hba.none_right.symm
  | array _ ih =>
    obtain ⟨a', ha, hba⟩ := hba.array_left
    cases ha
    rw [ih hba]

end Below

/-- The least type that says all that these types say. It is not one of elements that disagree. -/
structure IsCommon (ts : List Ty) (c : Ty) : Prop where
  agrees : c ≠ .mixed
  above : ∀ t ∈ ts, t.Below c
  least : ∀ d, d ≠ .mixed → (∀ t ∈ ts, t.Below d) → c.Below d

theorem IsCommon.of_mem {ts us : List Ty} {c : Ty} (h : IsCommon ts c) (hm : ∀ t, t ∈ us ↔ t ∈ ts) :
    IsCommon us c where
  agrees := h.agrees
  above t ht := h.above t ((hm t).mp ht)
  least d hd hall := h.least d hd fun t ht => hall t ((hm t).mpr ht)

section Merge

variable {a b c d : Ty}

theorem merge?_self (h : a ≠ .mixed) : a.merge? a = some a := by
  unfold merge?
  simp [h]

theorem none_merge? (h : a ≠ .mixed) : none.merge? a = some a := by
  unfold merge?
  cases a <;> simp_all

theorem merge?_none (h : a ≠ .mixed) : a.merge? .none = some a := by
  unfold merge?
  cases a <;> simp_all

theorem array_merge?_array (h : a ≠ b) :
    (array a).merge? (.array b) = (a.merge? b).map .array := by
  rw [merge?]
  simp [h]

theorem ne_mixed_of_merge? (h : a.merge? b = some c) : a ≠ .mixed ∧ b ≠ .mixed := by
  unfold merge? at h
  split at h
  · cases h
  · case isFalse hm => exact not_or.mp hm

/-- What is merged says no more than it has to. -/
theorem isCommon_of_merge? (h : a.merge? b = some c) : IsCommon [a, b] c := by
  have pair {x y z : Ty} (hx : x.Below z) (hy : y.Below z) : ∀ t ∈ [x, y], t.Below z := by
    intro t ht
    simp only [List.mem_cons, List.not_mem_nil, or_false] at ht
    obtain rfl | rfl := ht
    · exact hx
    · exact hy
  induction a generalizing b c with
  | array a ih =>
    obtain ⟨rfl, rfl | rfl⟩ | ⟨hn, -⟩ | ⟨a', b', c', ha, rfl, rfl, hc⟩ := merge?_cases h
    · exact ⟨nofun, pair (.refl _) (.refl _), fun d _ hall => hall _ (by simp)⟩
    · exact ⟨nofun, pair (.refl _) (.unknown nofun), fun d _ hall => hall _ (by simp)⟩
    · cases hn
    · cases ha
      have hi := ih hc
      refine ⟨nofun, pair (.array (hi.above _ (by simp))) (.array (hi.above _ (by simp))), ?_⟩
      intro d _ hall
      obtain ⟨d₁, rfl, hd₁⟩ := (hall (.array a) (by simp)).array_left
      obtain ⟨d₂, hd, hd₂⟩ := (hall (.array b') (by simp)).array_left
      cases hd
      refine .array (hi.least d₁ ?_ (pair hd₁ hd₂))
      rintro rfl
      exact (ne_mixed_of_merge? hc).1 hd₁.mixed_right
  | _ =>
    have hne := ne_mixed_of_merge? h
    obtain ⟨rfl, rfl | rfl⟩ | ⟨hn, rfl⟩ | ⟨_, _, _, ha, -⟩ := merge?_cases h
    · exact ⟨hne.1, pair (.refl _) (.refl _), fun d _ hall => hall _ (by simp)⟩
    · exact ⟨hne.1, pair (.refl _) (.unknown hne.1), fun d _ hall => hall _ (by simp)⟩
    · rw [hn]
      exact ⟨hne.2, pair (.unknown hne.2) (.refl _), fun d _ hall => hall _ (by simp)⟩
    · cases ha

/-- Where one type says all, there is nothing to merge. -/
theorem merge?_of_below (h : a.Below b) (hb : b ≠ .mixed) :
    a.merge? b = some b ∧ b.merge? a = some b := by
  induction h with
  | refl => exact ⟨merge?_self hb, merge?_self hb⟩
  | unknown => exact ⟨none_merge? hb, merge?_none hb⟩
  | @array a b h ih =>
    by_cases he : a = b
    · subst he
      exact ⟨merge?_self hb, merge?_self hb⟩
    · have hm : b ≠ .mixed := by
        rintro rfl
        exact he h.mixed_right
      rw [array_merge?_array he, array_merge?_array (Ne.symm he), (ih hm).1, (ih hm).2]
      exact ⟨rfl, rfl⟩

/-- Types merge as soon as some type says what both say. -/
theorem exists_merge? (hd : d ≠ .mixed) (ha : a.Below d) (hb : b.Below d) :
    ∃ c, a.merge? b = some c := by
  induction ha generalizing b with
  | refl t => exact ⟨t, (merge?_of_below hb hd).2⟩
  | unknown =>
    have hm : b ≠ .mixed := by
      rintro rfl
      exact hd hb.mixed_left
    exact ⟨b, none_merge? hm⟩
  | @array a d ha ih =>
    cases hb with
    | refl => exact ⟨.array d, (merge?_of_below (.array ha) hd).1⟩
    | unknown => exact ⟨.array a, merge?_none nofun⟩
    | @array b _ hb =>
      by_cases he : a = b
      · subst he
        exact ⟨_, merge?_self nofun⟩
      · have hm : d ≠ .mixed := by
          rintro rfl
          exact he (ha.mixed_right.trans hb.mixed_right.symm)
        obtain ⟨c, hc⟩ := ih hm hb
        exact ⟨.array c, by rw [array_merge?_array he, hc, Option.map_some]⟩

end Merge

section Fold

variable {a c d : Ty} {ts us : List Ty}

theorem isCommon_of_foldlM (ha : a ≠ .mixed) (h : ts.foldlM merge? a = some c) :
    IsCommon (a :: ts) c := by
  induction ts generalizing a with
  | nil =>
    cases h
    refine ⟨ha, fun t ht => ?_, fun d _ hall => hall _ List.mem_cons_self⟩
    obtain rfl := List.mem_singleton.mp ht
    exact .refl t
  | cons t ts ih =>
    rw [List.foldlM_cons, Option.bind_eq_bind, Option.bind_eq_some_iff] at h
    obtain ⟨b, hb, h⟩ := h
    have hab := isCommon_of_merge? hb
    have hbc := ih hab.agrees h
    have hc : b.Below c := hbc.above b List.mem_cons_self
    refine ⟨hbc.agrees, ?_, fun d hd hall => ?_⟩
    · simp only [List.forall_mem_cons]
      refine ⟨(hab.above a (by simp)).trans hc, (hab.above t (by simp)).trans hc, ?_⟩
      exact fun u hu => hbc.above u (List.mem_cons_of_mem b hu)
    · simp only [List.forall_mem_cons] at hall
      obtain ⟨had, htd, hall⟩ := hall
      have hbd : b.Below d := hab.least d hd (by simp [had, htd])
      exact hbc.least d hd (List.forall_mem_cons.mpr ⟨hbd, hall⟩)

theorem exists_foldlM (hd : d ≠ .mixed) (h : ∀ t ∈ a :: ts, t.Below d) :
    ∃ c, ts.foldlM merge? a = some c := by
  induction ts generalizing a with
  | nil => exact ⟨_, rfl⟩
  | cons t ts ih =>
    simp only [List.forall_mem_cons] at h
    obtain ⟨ha, ht, hall⟩ := h
    obtain ⟨b, hb⟩ := exists_merge? hd ha ht
    have hbd : b.Below d := (isCommon_of_merge? hb).least d hd (by simp [ha, ht])
    obtain ⟨c, hc⟩ := ih (List.forall_mem_cons.mpr ⟨hbd, hall⟩)
    exact ⟨c, by rw [List.foldlM_cons, hb]; exact hc⟩

/-- Starting from nothing, the common type is found if and only if there is one. -/
theorem foldlM_merge?_iff : ts.foldlM merge? .none = some c ↔ IsCommon ts c := by
  -- To say nothing is to be below everything, so the start adds nothing to the list.
  have start {d : Ty} (hd : d ≠ .mixed) (h : ∀ t ∈ ts, t.Below d) :
      ∀ t ∈ .none :: ts, t.Below d :=
    List.forall_mem_cons.mpr ⟨.unknown hd, h⟩
  constructor
  · intro h
    have hc := isCommon_of_foldlM (a := .none) nofun h
    exact ⟨hc.agrees, fun t ht => hc.above t (List.mem_cons_of_mem _ ht),
      fun d hd hall => hc.least d hd (start hd hall)⟩
  · intro h
    obtain ⟨c', hc'⟩ := exists_foldlM h.agrees (start h.agrees h.above)
    have hle := isCommon_of_foldlM (a := .none) nofun hc'
    have hcc' : c.Below c' :=
      h.least c' hle.agrees fun t ht => hle.above t (List.mem_cons_of_mem _ ht)
    have hc'c : c'.Below c := hle.least c h.agrees (start h.agrees h.above)
    rw [hc', hcc'.antisymm hc'c]

theorem foldlM_merge?_perm (h : us.Perm ts) :
    us.foldlM merge? .none = ts.foldlM merge? .none := by
  apply Option.ext
  intro c
  rw [foldlM_merge?_iff, foldlM_merge?_iff]
  exact ⟨fun hc => hc.of_mem fun t => h.mem_iff.symm, fun hc => hc.of_mem fun t => h.mem_iff⟩

/-- What the common type says, or `mixed` where there is none, is said by all types that say what
each of the list says, and by no other. -/
theorem foldlM_below_iff (hd : d ≠ .mixed) :
    ((ts.foldlM merge? .none).getD .mixed).Below d ↔ ∀ t ∈ ts, t.Below d := by
  cases hc : ts.foldlM merge? .none with
  | none =>
    constructor
    · intro h
      exact absurd h.mixed_left hd
    · intro h
      obtain ⟨c, hc'⟩ := exists_foldlM hd (List.forall_mem_cons.mpr ⟨.unknown hd, h⟩)
      rw [hc] at hc'
      cases hc'
  | some c =>
    have hcommon := foldlM_merge?_iff.mp hc
    exact ⟨fun h t ht => (hcommon.above t ht).trans h, hcommon.least d hd⟩

/-- The type of a list literal, as if an unknown type stood in front of its elements. -/
theorem ofListLiteral_eq (ts : List Ty) :
    ofListLiteral ts = .list (((ts.map asElement).foldlM merge? .none).getD .mixed) := by
  unfold ofListLiteral
  cases ts.map asElement with
  | nil => rfl
  | cons t rest =>
    by_cases ht : t = .mixed
    · subst ht
      rw [foldlM_merge?_mixed List.mem_cons_self]
      cases rest with
      | nil => rfl
      | cons u rest =>
        have hn : mixed.merge? u = Option.none := by
          unfold merge?
          simp
        simp only [List.foldlM_cons, hn]
        rfl
    · rw [List.foldlM_cons, none_merge? ht]
      rfl

end Fold

/-! What slots take. -/

/-- No list literal is left in the type. -/
def isListFree : Ty → Bool
  | .list _ => false
  | .array element => element.isListFree
  | .object template => template.isListFree
  | _ => true

section Slots

variable {s t target : Ty}

theorem isListFree_of_merge? {a b c : Ty} (ha : a.isListFree) (hb : b.isListFree)
    (h : a.merge? b = some c) : c.isListFree := by
  induction a generalizing b c with
  | array a ih =>
    obtain ⟨rfl, -⟩ | ⟨hn, -⟩ | ⟨a', b', c', he, rfl, rfl, hc⟩ := merge?_cases h
    · exact ha
    · cases hn
    · cases he
      have hc' : c'.isListFree := ih (b := b') ha hb hc
      exact hc'
  | _ =>
    obtain ⟨rfl, -⟩ | ⟨-, rfl⟩ | ⟨_, _, _, he, -⟩ := merge?_cases h
    · exact ha
    · exact hb
    · cases he

theorem isListFree_of_foldlM {a c : Ty} {ts : List Ty} (ha : a.isListFree)
    (hts : ∀ t ∈ ts, t.isListFree) (h : ts.foldlM merge? a = some c) : c.isListFree := by
  induction ts generalizing a with
  | nil =>
    cases h
    exact ha
  | cons t ts ih =>
    rw [List.foldlM_cons, Option.bind_eq_bind, Option.bind_eq_some_iff] at h
    obtain ⟨b, hb, h⟩ := h
    obtain ⟨ht, hts⟩ := List.forall_mem_cons.mp hts
    exact ih (isListFree_of_merge? ha ht hb) hts h

theorem asElement_of_isListFree (h : t.isListFree) : t.asElement = t := by
  cases t with
  | list => cases h
  | _ => rfl

/-- A list becomes an array when it is an element, or its elements disagree. -/
theorem asElement_cases (h : t.stored.isListFree) :
    t.asElement = t.stored ∨ t = .list .mixed ∧ t.asElement = .mixed := by
  cases t with
  | list element =>
    by_cases hm : element = .mixed
    · subst hm
      exact .inr ⟨rfl, rfl⟩
    · have he : element.asElement = element := asElement_of_isListFree h
      left
      cases element <;> simp_all [asElement, stored]
  | _ => exact .inl rfl

theorem isListFree_asElement (h : t.stored.isListFree) : t.asElement.isListFree := by
  obtain he | ⟨-, he⟩ := asElement_cases h
  · rw [he]
    exact h
  · rw [he]
    rfl

/-- A slot takes a type that says something, and no more than the type of the slot. -/
theorem accepts_iff_below (ht : target.isConcrete) (hs : s.isListFree) :
    target.accepts s ↔ s ≠ .none ∧ s.Below target := by
  induction s generalizing target with
  | none => cases target <;> simp [accepts, isConcrete]
  | array element ih =>
    cases target with
    | array target =>
      have htarget : target.isConcrete := ht
      by_cases hn : element = .none
      · subst hn
        have hm : target ≠ .mixed := by
          rintro rfl
          cases htarget
        exact ⟨fun _ => ⟨by simp, .array (.unknown hm)⟩, fun _ => htarget⟩
      · by_cases hm : element = .mixed
        · subst hm
          refine ⟨fun h => ?_, fun h => ?_⟩
          · cases h
          · obtain ⟨b, hb, hbelow⟩ := h.2.array_left
            cases hb
            rw [hbelow.mixed_left] at htarget
            cases htarget
        · have he : (array target).accepts (.array element) = target.accepts element := by
            cases element <;> simp_all [accepts]
          rw [he, ih htarget hs]
          refine ⟨fun h => ⟨by simp, .array h.2⟩, fun h => ⟨hn, ?_⟩⟩
          obtain ⟨b, hb, hbelow⟩ := h.2.array_left
          cases hb
          exact hbelow
    | _ =>
      refine ⟨fun h => ?_, fun h => ?_⟩
      · simp [accepts, isConcrete] at h
      · obtain ⟨b, hb, -⟩ := h.2.array_left
        cases hb
  | list => cases hs
  | _ =>
    refine ⟨fun h => ?_, fun h => ?_⟩
    · simp only [accepts, Bool.and_eq_true, decide_eq_true_eq] at h
      rw [h.2]
      exact ⟨by simp, .refl _⟩
    · have he := h.2.eq_of_ne (by simp) (by simp)
      subst he
      simpa [accepts] using ht

theorem accepts_stored_eq (target t : Ty) : target.accepts t.stored = target.accepts t := by
  cases t with
  | list element =>
    cases target with
    | array target => cases element <;> rfl
    | _ => simp [accepts, stored, isConcrete]
  | _ => rfl

/-- A slot takes an element if and only if it takes it as part of a list. -/
theorem accepts_iff_asElement_below (ht : target.isConcrete) (hn : t ≠ .none)
    (hs : t.stored.isListFree) : target.accepts t ↔ t.asElement.Below target := by
  obtain he | ⟨rfl, he⟩ := asElement_cases hs
  · have hne : t.stored ≠ .none := by
      cases t <;> simp_all [stored]
    rw [← accepts_stored_eq, accepts_iff_below ht hs, he]
    exact ⟨fun h => h.2, fun h => ⟨hne, h⟩⟩
  · refine ⟨fun h => absurd rfl (ne_of_accepts h).2, fun h => ?_⟩
    rw [he] at h
    rw [h.mixed_left] at ht
    cases ht

/-- An array takes a list if and only if its element type says all that the list says. -/
theorem array_accepts_list_iff (ht : target.isConcrete) (hs : s.isListFree) :
    (array target).accepts (.list s) ↔ s.Below target := by
  have hstored : (array target).accepts (.array s) = (array target).accepts (.list s) :=
    accepts_stored_eq (array target) (.list s)
  have ht' : (array target).isConcrete := ht
  have hs' : (array s).isListFree := hs
  rw [← hstored, accepts_iff_below ht' hs']
  constructor
  · rintro ⟨-, h⟩
    obtain ⟨b, hb, h⟩ := h.array_left
    cases hb
    exact h
  · intro h
    exact ⟨nofun, .array h⟩

/-- The type of a list does not depend on the order of its elements, and it is the least one that
says all that they say: an array takes the list if and only if its element type takes them all. (A
list literal may be an element, but stands nowhere deeper in the type of one.) -/
theorem ofListLiteral_least (ts : List Ty) :
    (∀ us : List Ty, us.Perm ts → ofListLiteral us = ofListLiteral ts) ∧
    ((∀ t ∈ ts, t ≠ .none ∧ t.stored.isListFree) → ∀ target : Ty, target.isConcrete →
      ((array target).accepts (ofListLiteral ts) ↔ ∀ t ∈ ts, target.accepts t)) := by
  constructor
  · intro us h
    rw [ofListLiteral_eq, ofListLiteral_eq, foldlM_merge?_perm (h.map asElement)]
  · intro hts target ht
    have hd : target ≠ .mixed := by
      rintro rfl
      cases ht
    have hfree : ((ts.map asElement).foldlM merge? .none).getD .mixed |>.isListFree := by
      cases hc : (ts.map asElement).foldlM merge? .none with
      | none => rfl
      | some c =>
        refine isListFree_of_foldlM rfl (List.forall_mem_map.mpr fun t h => ?_) hc
        exact isListFree_asElement (hts t h).2
    rw [ofListLiteral_eq, array_accepts_list_iff ht hfree, foldlM_below_iff hd, List.forall_mem_map]
    refine forall₂_congr fun t h => ?_
    exact (accepts_iff_asElement_below ht (hts t h).1 (hts t h).2).symm

/-- An empty list, a list of empty lists and an array of strings, in any order, make a list that
an array of arrays of arrays of strings takes. -/
theorem ofListLiteral_least_of_nested :
    let ts : List Ty := [.list .none, .list (.array .none), .array (.array .string)]
    ofListLiteral [.array (.array .string), .list .none, .list (.array .none)] = ofListLiteral ts ∧
      (∀ t ∈ ts, t ≠ .none ∧ t.stored.isListFree) ∧
      (array (array (array .string))).accepts (ofListLiteral ts) ∧
      ∀ t ∈ ts, (array (array .string)).accepts t := by
  have hts : ∀ t ∈ [list none, list (array none), array (array string)],
      t ≠ .none ∧ t.stored.isListFree := by decide
  have haccepts : (array (array (array string))).accepts
      (ofListLiteral [list none, list (array none), array (array string)]) := by decide
  obtain ⟨hperm, hiff⟩ := ofListLiteral_least [list none, list (array none), array (array string)]
  refine ⟨hperm _ (by decide), hts, haccepts, ?_⟩
  exact (hiff hts (array (array string)) rfl).mp haccepts

end Slots

end Offside.Ty

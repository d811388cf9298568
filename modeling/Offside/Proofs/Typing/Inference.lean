import Offside.Proofs.Typing.Coercion
import Offside.Proofs.Typing.CommonType

/-!
Types that a program does not write down. A variable that is declared without a type gets the only
type whose slots take its first value, if there is only one. And the value of a list literal gets
the element type that the checker found for the literal; its elements are kept as they are only
where the checker found that they disagree.
-/

namespace Offside

namespace Ty

section Inference

variable {s t target : Ty}

theorem concretize?_stored (s : Ty) : s.stored.concretize? = s.concretize? := by
  cases s <;> rfl

/-- A slot takes a type in which nothing is open only if it is its own. -/
theorem accepts_iff_eq (h : s.isConcrete) : target.accepts s ↔ target = s := by
  constructor
  · intro ha
    exact (accepts_of_isPlain (isPlain_of_isConcrete h) ha).1.eq_of_isConcrete h
  · rintro rfl
    have hne : target ≠ .none := by
      rintro rfl
      cases h
    exact (Settles.refl (isPlain_of_isConcrete h)).accepts hne h

/-- What leaves something open is said by more than one type of slots. -/
theorem Below.exists_other (h : s.Below t) (hs : ¬ s.isConcrete) (ht : t.isConcrete) :
    ∃ u, u ≠ t ∧ u.isConcrete ∧ s.Below u := by
  induction h with
  | refl => exact absurd ht hs
  | @unknown t _ =>
    have hne : Ty.array t ≠ t := by
      intro he
      have := congrArg sizeOf he
      simp at this
    exact ⟨Ty.array t, hne, ht, .unknown nofun⟩
  | array _ ih =>
    obtain ⟨u, hne, hu, hb⟩ := ih hs ht
    exact ⟨Ty.array u, fun he => hne (Ty.array.inj he), hu, .array hb⟩

/-- The type that is inferred for a variable is the only one whose slots take its first value; and
where there is only one such type, it is inferred. (For the latter, a list literal may be the value
itself, but stands nowhere deeper in its type.) -/
theorem concretize?_is_only (s t : Ty) :
    (s.concretize? = some t → ∀ target : Ty, target.accepts s ↔ target = t) ∧
    (s.stored.isListFree → (∀ target : Ty, target.accepts s ↔ target = t) →
      s.concretize? = some t) := by
  constructor
  · intro h target
    obtain ⟨rfl, hc⟩ := concretize?_eq h
    rw [← accepts_stored_eq]
    exact accepts_iff_eq hc
  · intro hfree honly
    have hst : t.accepts s := (honly t).mpr rfl
    have ht : t.isConcrete := isConcrete_of_accepts hst
    by_cases hs : s.stored.isConcrete
    · have hself : s.stored.accepts s := by
        rw [← accepts_stored_eq]
        exact (accepts_iff_eq hs).mpr rfl
      rw [← concretize?_stored, concretize?_of_isConcrete hs, (honly _).mp hself]
    · exfalso
      rw [← accepts_stored_eq, accepts_iff_below ht hfree] at hst
      obtain ⟨u, hne, hu, hbelow⟩ := hst.2.exists_other hs ht
      refine hne ((honly u).mp ?_)
      rw [← accepts_stored_eq, accepts_iff_below hu hfree]
      exact ⟨hst.1, hbelow⟩

/-- A list of arrays of numbers is stored as an array of them, and as nothing else. -/
theorem concretize?_is_only_of_nested :
    (list (array number)).concretize? = some (array (array number)) ∧
      (list (array number)).stored.isListFree ∧
      ∀ target : Ty, target.accepts (list (array number)) ↔ target = array (array number) := by
  obtain ⟨honly, hinferred⟩ := concretize?_is_only (list (array number)) (array (array number))
  have hiff := honly rfl
  exact ⟨hinferred rfl hiff, rfl, hiff⟩

/-- Of an empty list nothing can be inferred: every array takes it. -/
example : (list none).concretize? = Option.none ∧ (array string).accepts (list none) ∧
    (array number).accepts (list none) := by decide

end Inference

end Ty

namespace Value

/-- The items of a list literal as an array of their common type, if there is one. -/
def agreed? (items : List Value) : Option Value :=
  (items.foldlM (fun common item => Ty.merge? common item.ty) .none).bind fun element =>
    (coerceAll element items).map (.array element)

/-- Items that do not agree are kept as they are. -/
theorem ofList_eq (items : List Value) :
    ofList items = (agreed? items).getD (.array ((items.head?.map ty).getD .none) items) := by
  unfold ofList agreed?
  split
  · case h_1 element he =>
    rw [he, Option.bind_some]
    cases coerceAll element items <;> rfl
  · case h_2 he =>
    rw [he]
    rfl

/-- Values are no list literals, so their types are element types already. -/
theorem ofListLiteral_map_ty (vs : List Value) :
    Ty.ofListLiteral (vs.map ty) =
      .list ((vs.foldlM (fun common item => Ty.merge? common item.ty) .none).getD .mixed) := by
  have hty : Ty.asElement ∘ ty = ty := by
    funext v
    cases v <;> rfl
  rw [Ty.ofListLiteral_eq, List.map_map, hty, List.foldlM_map]

/-- The value of a list literal is of the type that the checker infers from the types of its
elements. If they agree, it is an array with their common type, and the elements are changed in the
element types of their arrays only; if they do not agree, the elements are kept as they are, and
that happens in no other case. -/
theorem ofList_follows_inference (vs : List Value) (h : ∀ v ∈ vs, v.WellTagged) :
    ∃ element, Ty.ofListLiteral (vs.map ty) = .list element ∧
      (element ≠ .mixed → ∃ items, ofList vs = .array element items ∧
        (array element items).WellTagged ∧ untaggedAll items = untaggedAll vs) ∧
      (element = .mixed → ofList vs = .array ((vs.head?.map ty).getD .none) vs) ∧
      (agreed? vs = none → element = .mixed) := by
  refine ⟨_, ofListLiteral_map_ty vs, ?_⟩
  rw [ofList_eq]
  cases hc : vs.foldlM (fun common item => Ty.merge? common item.ty) .none with
  | none =>
    have hnone : agreed? vs = none := by
      unfold agreed?
      rw [hc]
      rfl
    rw [hnone]
    exact ⟨fun hne => absurd rfl hne, fun _ => rfl, fun _ => rfl⟩
  | some element =>
    obtain ⟨plain, items, hitems, htyped⟩ := coerceAll_common (fun v hv => (h v hv).hasTy) hc
    have hsome : agreed? vs = some (.array element items) := by
      unfold agreed?
      rw [hc, Option.bind_some, hitems]
      rfl
    have hne : element ≠ .mixed := by
      rintro rfl
      cases plain
    rw [hsome]
    refine ⟨fun _ => ⟨items, rfl, ?_, untaggedAll_of_coerceAll vs hitems⟩,
      fun he => absurd he hne, nofun⟩
    exact (HasTy.array plain htyped).wellTagged

/-- An empty list in front of a list of an empty list becomes an array of arrays, whose items are
still unknown. -/
theorem ofList_follows_inference_of_nested :
    let vs : List Value := [.array .none [], .array (.array .none) [.array .none []]]
    (∀ v ∈ vs, v.WellTagged) ∧
      Ty.ofListLiteral (vs.map ty) = .list (.array (.array .none)) ∧
      ∃ items, ofList vs = .array (.array (.array .none)) items ∧
        (array (.array (.array .none)) items).WellTagged ∧ untaggedAll items = untaggedAll vs := by
  have hempty : (array .none []).HasTy (.array .none) :=
    .array rfl fun item hitem => absurd hitem List.not_mem_nil
  have hnested : (array (.array .none) [.array .none []]).HasTy (.array (.array .none)) :=
    .array rfl (List.forall_mem_singleton.mpr hempty)
  have hvs : ∀ v ∈ [array .none [], array (.array .none) [.array .none []]], v.WellTagged :=
    List.forall_mem_cons.mpr ⟨hempty.wellTagged, List.forall_mem_singleton.mpr hnested.wellTagged⟩
  obtain ⟨element, hliteral, hagree, -⟩ := ofList_follows_inference _ hvs
  have hinferred : Ty.ofListLiteral
      ([array .none [], array (.array .none) [.array .none []]].map ty) =
        .list (.array (.array .none)) := by decide
  obtain rfl := Ty.list.inj (hliteral.symm.trans hinferred)
  exact ⟨hvs, hinferred, hagree nofun⟩

end Value

end Offside

import Offside.Proofs.Typing.Tagging
import Offside.Typing
import Offside.Value.Operation

/-!
Operators on values of the types that they were checked with.
-/

namespace Offside

/-- What may still go wrong in a program that was checked. -/
def RuntimeError.Expected : RuntimeError → Prop
  | .divisionByZero | .moduloByZero | .fractionalIndex | .stringIndex | .arrayIndex
  | .store .outOfBounds | .missingResult | .callDepth _ | .notBoolean | .notNumber
  | .input _ | .output _ => True
  | _ => False

/-- There is a value of the type, or a fault that has to be expected. -/
def Computes (r : Except RuntimeError Value) (t : Ty) : Prop :=
  match r with
  | .ok v => v.HasTy t
  | .error cause => cause.Expected

theorem Ty.cases_of_isPrimitive {t : Ty} (h : t.isPrimitive) :
    t = .boolean ∨ t = .number ∨ t = .string := by
  cases t <;> simp_all [isPrimitive]

theorem Ty.ne_mixed_of_isPrimitive {t : Ty} (h : t.isPrimitive) : t ≠ .list .mixed := by
  rintro rfl
  cases h

theorem UnaryOp.isPrimitive_of_resultType? {op : UnaryOp} {t u : Ty}
    (h : op.resultType? t = some u) : t.isPrimitive := by
  unfold resultType? at h
  split at h <;> first | rfl | cases h

theorem UnaryOp.apply_computes {op : UnaryOp} {t u : Ty} {v : Value}
    (h : op.resultType? t = some u) (hv : v.HasTy t) : Computes (op.apply v) u := by
  unfold resultType? at h
  split at h
  · cases h
    obtain ⟨x, rfl⟩ := hv.number_inv
    exact .number x
  · cases h
    obtain ⟨x, rfl⟩ := hv.number_inv
    exact .number _
  · cases h
    obtain ⟨b, rfl⟩ := hv.boolean_inv
    exact .boolean _
  · cases h

namespace Operation

theorem isPrimitive_of_resultType? {op : Operation} {a b t : Ty}
    (h : op.resultType? a b = some t) : a.isPrimitive ∧ b.isPrimitive := by
  unfold resultType? at h
  split at h
  case h_9 | h_10 =>
    split at h
    · case isTrue hab => exact ⟨hab.2, hab.1 ▸ hab.2⟩
    · cases h
  all_goals first | exact ⟨rfl, rfl⟩ | cases h

theorem compare_computes {numbers : Float → Float → Bool} {texts : List Char → List Char → Bool}
    {v w : Value} {t : Ty} (ht : t = .number ∨ t = .string) (hv : v.HasTy t) (hw : w.HasTy t) :
    Computes (compare numbers texts v w) .boolean := by
  obtain rfl | rfl := ht
  · obtain ⟨x, rfl⟩ := hv.number_inv
    obtain ⟨y, rfl⟩ := hw.number_inv
    exact .boolean _
  · obtain ⟨s, rfl⟩ := hv.string_inv
    obtain ⟨s', rfl⟩ := hw.string_inv
    exact .boolean _

theorem apply_computes {op : Operation} {a b t : Ty} {v w : Value}
    (h : op.resultType? a b = some t) (hv : v.HasTy a) (hw : w.HasTy b) :
    Computes (op.apply v w) t := by
  unfold resultType? at h
  split at h
  case h_1 | h_2 | h_3 =>
    cases h
    obtain ⟨x, rfl⟩ := hv.number_inv
    obtain ⟨y, rfl⟩ := hw.number_inv
    exact .number _
  case h_4 | h_5 =>
    cases h
    obtain ⟨x, rfl⟩ := hv.number_inv
    obtain ⟨y, rfl⟩ := hw.number_inv
    simp only [apply]
    split
    · trivial
    · exact .number _
  case h_6 =>
    cases h
    obtain ⟨s, rfl⟩ := hv.string_inv
    obtain ⟨s', rfl⟩ := hw.string_inv
    exact .string _
  case h_7 | h_8 =>
    cases h
    obtain ⟨b, rfl⟩ := hv.boolean_inv
    obtain ⟨b', rfl⟩ := hw.boolean_inv
    exact .boolean _
  case h_9 | h_10 =>
    split at h
    · cases h
      exact .boolean _
    · cases h
  case h_11 | h_12 | h_13 | h_14 =>
    cases h
    simp only [apply]
    exact compare_computes (.inl rfl) hv hw
  case h_15 | h_16 | h_17 | h_18 =>
    cases h
    simp only [apply]
    exact compare_computes (.inr rfl) hv hw
  case h_19 => cases h

end Operation

namespace Value

theorem offset_error {index : Float} {length : Nat} {outside cause : RuntimeError}
    (h : offset index length outside = .error cause) :
    cause = .fractionalIndex ∨ cause = outside := by
  unfold offset at h
  split at h
  · exact .inl (Except.error.inj h).symm
  · dsimp only at h
    generalize (if index < 0 then index + Number.nearest length 1 else index) = moved at h
    split at h
    · exact .inr (Except.error.inj h).symm
    · cases h

theorem position_error {index : Float} {length : Nat} {outside cause : RuntimeError}
    (h : position index length outside = .error cause) :
    cause = .fractionalIndex ∨ cause = outside := by
  unfold position at h
  split at h
  · case h_1 e he => exact Except.error.inj h ▸ offset_error he
  · split at h
    · cases h
    · exact .inr (Except.error.inj h).symm

theorem position_expected {index : Float} {length : Nat} {outside cause : RuntimeError}
    (ho : outside.Expected) (h : position index length outside = .error cause) :
    cause.Expected := by
  obtain rfl | rfl := position_error h
  · trivial
  · exact ho

theorem character_computes (s : String) (index : Float) : Computes (character s index) .string := by
  unfold character
  cases hp : position index s.toList.length .stringIndex with
  | ok p => exact .string _
  | error cause =>
    have ho : RuntimeError.stringIndex.Expected := trivial
    exact position_expected ho hp

theorem element_computes {items : List Value} {t : Ty} (h : ∀ v ∈ items, v.HasTy t)
    (index : Float) : Computes (element items index) t := by
  unfold element
  cases hp : position index items.length .arrayIndex with
  | ok p => exact h _ (List.get_mem items p)
  | error cause =>
    have ho : RuntimeError.arrayIndex.Expected := trivial
    exact position_expected ho hp

theorem ofInput_computes (word : String) {t : Ty} (h : t.isPrimitive) :
    Computes (ofInput word t) t := by
  obtain rfl | rfl | rfl := Ty.cases_of_isPrimitive h
  · simp only [ofInput]
    split
    · exact HasTy.boolean _
    · split
      · exact HasTy.boolean _
      · trivial
  · simp only [ofInput]
    split
    · exact HasTy.number _
    · trivial
  · exact HasTy.string word

/-- What a loop goes through has the type of the loop variable. -/
theorem elements?_hasTy {v : Value} {t : Ty} (h : v.HasTy t) :
    (t = .string → ∃ items, v.elements? = some (.string, items) ∧ ∀ item ∈ items, item.HasTy .string) ∧
      ∀ element, t = .array element →
        ∃ items, v.elements? = some (element, items) ∧ ∀ item ∈ items, item.HasTy element := by
  constructor
  · rintro rfl
    obtain ⟨s, rfl⟩ := h.string_inv
    refine ⟨_, rfl, fun item hi => ?_⟩
    obtain ⟨c, -, rfl⟩ := List.mem_map.mp hi
    exact .string _
  · rintro element rfl
    obtain ⟨items, rfl, hitems⟩ := h.array_inv
    exact ⟨items, rfl, hitems⟩

end Value

end Offside

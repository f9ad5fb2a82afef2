import Introspect.CppType

/-! Types and the types among their template arguments, at any depth. -/
namespace Introspect.CppType

/-- The first type is the second one or stands somewhere among its template arguments. -/
inductive Within : CppType → CppType → Prop
  | refl (t : CppType) : Within t t
  | argument {u a t : CppType} : a ∈ t.arguments → Within u a → Within u t

theorem Within.trans {u v t : CppType} (huv : Within u v) (hvt : Within v t) : Within u t := by
  induction hvt with
  | refl => exact huv
  | argument ha _ ih => exact .argument ha ih

theorem Within.of_argument {a t : CppType} (ha : a ∈ t.arguments) : Within a t :=
  .argument ha (.refl a)

theorem sizeOf_lt_of_mem_arguments {a t : CppType} (ha : a ∈ t.arguments) :
    sizeOf a < sizeOf t := by
  cases t with
  | plain i k => simp [arguments] at ha
  | templated i k g first rest =>
    obtain rfl | ha := List.mem_cons.1 ha
    · simp only [templated.sizeOf_spec]
      omega
    · have hlt := List.sizeOf_lt_of_mem ha
      simp only [templated.sizeOf_spec]
      omega

theorem Within.sizeOf_le {u t : CppType} (h : Within u t) : sizeOf u ≤ sizeOf t := by
  induction h with
  | refl => exact Nat.le_refl _
  | argument ha _ ih => exact Nat.le_trans ih (Nat.le_of_lt (sizeOf_lt_of_mem_arguments ha))

/-- What holds of a type whenever it holds of its arguments holds of every type. -/
theorem arguments_induction {P : CppType → Prop} (step : ∀ t, (∀ a ∈ t.arguments, P a) → P t)
    (t : CppType) : P t := by
  induction hn : sizeOf t using Nat.strongRecOn generalizing t with
  | ind n ih =>
    apply step
    intro a ha
    exact ih (sizeOf a) (hn ▸ sizeOf_lt_of_mem_arguments ha) a rfl

end Introspect.CppType

import Mathlib.Tactic
import StyleFunctions.Color.Hex

/-!
# Hexadecimal digits

A text is read as a colour exactly if it consists of three or of six hexadecimal digits
(`Color.ofHexDigits?_isSome_iff`).
-/

namespace StyleFunctions.Color

/-- A hexadecimal digit of either case. -/
def IsHexDigit (c : Char) : Prop :=
  ('0' ≤ c ∧ c ≤ '9') ∨ ('a' ≤ c ∧ c ≤ 'f') ∨ ('A' ≤ c ∧ c ≤ 'F')

/-- Three or six hexadecimal digits. -/
def IsHex (digits : List Char) : Prop :=
  (digits.length = 3 ∨ digits.length = 6) ∧ ∀ c ∈ digits, IsHexDigit c

theorem hexValue?_isSome_iff (c : Char) : (hexValue? c).isSome ↔ IsHexDigit c := by
  rw [hexValue?, IsHexDigit]
  split_ifs <;> simp_all

/-- A text has a value for each character exactly if all are digits. -/
theorem mapM_hexValue?_isSome_iff (digits : List Char) :
    (digits.mapM hexValue?).isSome ↔ ∀ c ∈ digits, IsHexDigit c := by
  induction digits with
  | nil => simp
  | cons c rest ih =>
    rw [List.mapM_cons, List.forall_mem_cons, ← hexValue?_isSome_iff, ← ih]
    cases hexValue? c with
    | none => simp
    | some value => cases rest.mapM hexValue? <;> simp

theorem length_of_mapM_hexValue? {digits : List Char} {values : List Nat}
    (h : digits.mapM hexValue? = some values) : values.length = digits.length := by
  induction digits generalizing values with
  | nil =>
    simp only [List.mapM_nil, Option.pure_def, Option.some.injEq] at h
    subst h
    rfl
  | cons c rest ih =>
    rw [List.mapM_cons] at h
    cases hc : hexValue? c with
    | none => simp [hc] at h
    | some value =>
      cases hrest : rest.mapM hexValue? with
      | none => simp [hc, hrest] at h
      | some others =>
        simp only [hc, hrest, Option.bind_eq_bind, Option.bind_some, Option.pure_def,
          Option.some.injEq] at h
        rw [← h, List.length_cons, List.length_cons, ih hrest]

/-- Three or six digits, and nothing else, are read as a colour. -/
theorem ofHexDigits?_isSome_iff {α : Type} [Scalar α] (digits : List Char) :
    (ofHexDigits? digits : Option (Color α)).isSome ↔ IsHex digits := by
  rw [IsHex, ← mapM_hexValue?_isSome_iff, ofHexDigits?]
  cases hvalues : digits.mapM hexValue? with
  | none => simp
  | some values =>
    rw [← length_of_mapM_hexValue? hvalues]
    match values with
    | [] | [_] | [_, _] | [_, _, _, _] | [_, _, _, _, _] => simp
    | [_, _, _] | [_, _, _, _, _, _] => simp
    | _ :: _ :: _ :: _ :: _ :: _ :: _ :: _ => simp

end StyleFunctions.Color

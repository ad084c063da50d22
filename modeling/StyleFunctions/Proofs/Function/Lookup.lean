import Mathlib.Data.List.Nodup
import StyleFunctions.Function.Builtin

/-!
# Functions by name

Every function stands in the table, and no two functions have one name.  A written name
therefore leads to a function exactly if the function has the canonical form of the name
(`Builtin.lookup?_eq_some_iff`).
-/

namespace StyleFunctions.Builtin

/-- Every function stands in the table. -/
theorem mem_all (f : Builtin) : f ∈ all := by
  cases f with
  | construction f => cases f <;> decide
  | projection f => cases f <;> decide
  | adjustment f => cases f <;> decide
  | blend mode => cases mode <;> decide
  | math f =>
    cases f with
    | trig f => cases f <;> decide
    | _ => decide
  | typeTest f => cases f <;> decide
  | _ => decide

theorem nodup_names : (all.map name).Nodup := by decide +kernel

theorem name_injective : Function.Injective name := fun f g h =>
  List.inj_on_of_nodup_map nodup_names (mem_all f) (mem_all g) h

theorem ofName?_eq_some_iff {n : String} {f : Builtin} : ofName? n = some f ↔ f.name = n := by
  rw [ofName?]
  constructor
  · intro h
    simpa using List.find?_some h
  · rintro rfl
    have hfound : (all.find? fun g => g.name == f.name).isSome := by
      rw [List.find?_isSome]
      exact ⟨f, mem_all f, by simp⟩
    obtain ⟨g, hg⟩ := Option.isSome_iff_exists.1 hfound
    have hname : g.name = f.name := by simpa using List.find?_some hg
    rw [hg, name_injective hname]

/-- A written name leads to the function that has its canonical form. -/
theorem lookup?_eq_some_iff {written : String} {f : Builtin} :
    lookup? written = some f ↔ canonicalName written = f.name := by
  rw [lookup?, ofName?_eq_some_iff, eq_comm]

end StyleFunctions.Builtin

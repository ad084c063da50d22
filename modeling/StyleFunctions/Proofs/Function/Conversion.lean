import Mathlib.Tactic
import StyleFunctions.Proofs.Function.Typing

/-!
# Conversions one after another

A dimension can be brought to a unit on many ways: through other units of its group, past units
that mean nothing to it, or through the base unit of the group.  All of them lead to the same
number.

* **One conversion** — `Measure.convert_convert` and `Measure.convert_self`: a number of one unit
  stands for the same size in another, because every factor is positive.
* **One step** — `Dimension.groupOf?_convert`: a conversion never leaves the group of a dimension,
  and `Dimension.convert_convert`: it is forgotten by the next one within the group.
* **A whole run** — `Dimension.foldl_convert`: of any list of targets the last one in the group
  decides, and `Dimension.unify_foldl_convert`: the base unit is reached all the same.
* `Settings.convert_path_independent` — so it is with the functions that a style sheet calls:
  conversions on different ways agree, and no trigonometric function tells them apart.
-/

namespace StyleFunctions

/-! ## Factors -/

theorem circleRatio_pos : (0 : Rat) < circleRatio := by
  unfold circleRatio
  norm_num

namespace Measure

/-- Every unit has a size. -/
theorem factor_pos (m : Measure) : (0 : Rat) < m.factor := by
  have hpi := circleRatio_pos
  cases m with
  | radian =>
    show (0 : Rat) < 1 / (2 * circleRatio)
    positivity
  | _ =>
    unfold factor
    norm_num

theorem convert_exact (x : Rat) (a b : Measure) :
    convert x a b = x * a.factor / b.factor := rfl

theorem convert_self (x : Rat) (a : Measure) : convert x a a = x := by
  rw [convert_exact, mul_div_cancel_right₀ x a.factor_pos.ne']

/-- A unit on the way does not show in the number. -/
theorem convert_convert (x : Rat) (a b c : Measure) :
    convert (convert x a b) b c = convert x a c := by
  rw [convert_exact, convert_exact, convert_exact, div_mul_cancel₀ _ b.factor_pos.ne']

/-! ## Groups of named units -/

/-- The group of the unit with a name, if there is such a unit. -/
def groupOf? (name : String) : Option MeasureGroup := (ofName? name).map group

/-- Two names of units that convert into each other. -/
def Commensurable (a b : String) : Prop := (groupOf? a).isSome ∧ groupOf? a = groupOf? b

instance (a b : String) : Decidable (Commensurable a b) := inferInstanceAs (Decidable (_ ∧ _))

theorem ofName?_name (m : Measure) : ofName? m.name = some m := by
  cases m <;> decide

theorem groupOf?_base (g : MeasureGroup) : groupOf? g.base.name = some g := by
  rw [groupOf?, ofName?_name]
  cases g <;> rfl

/-- Names convert into each other exactly if both are names of units, of one group. -/
theorem commensurable_iff {a b : String} :
    Commensurable a b ↔
      ∃ m n, ofName? a = some m ∧ ofName? b = some n ∧ m.group = n.group := by
  unfold Commensurable groupOf?
  constructor
  · rintro ⟨hknown, hgroup⟩
    cases ha : ofName? a with
    | none => simp [ha] at hknown
    | some m =>
      cases hb : ofName? b with
      | none => simp [ha, hb] at hgroup
      | some n =>
        refine ⟨m, n, rfl, rfl, ?_⟩
        simpa [ha, hb] using hgroup
  · rintro ⟨m, n, ha, hb, hgroup⟩
    simp [ha, hb, hgroup]

theorem convertNamed?_of_commensurable {a b : String} {m n : Measure} (ha : ofName? a = some m)
    (hb : ofName? b = some n) (hgroup : m.group = n.group) (x : Rat) :
    convertNamed? x a b = some (convert x m n) := by
  simp only [convertNamed?, ha, hb, if_pos hgroup]

theorem convertNamed?_of_not_commensurable {a b : String} (h : ¬ Commensurable a b) (x : Rat) :
    convertNamed? x a b = none := by
  rw [commensurable_iff] at h
  unfold convertNamed?
  split
  · rename_i m n ha hb
    rw [if_neg]
    intro hgroup
    exact h ⟨m, n, ha, hb, hgroup⟩
  · rfl

end Measure

/-! ## Conversions of dimensions -/

namespace Dimension

open StyleFunctions.Measure

variable {d : Dimension Rat} {a b : String}

/-- What has no common measure with the target stays as it is. -/
theorem convert_of_not_commensurable (h : ¬ Commensurable d.unit a) : d.convert a = d := by
  unfold convert
  rw [convertNamed?_of_not_commensurable h]

theorem convert_of_commensurable {m n : Measure} (hd : ofName? d.unit = some m)
    (ha : ofName? a = some n) (hgroup : m.group = n.group) :
    d.convert a = ⟨Measure.convert d.value m n, a⟩ := by
  unfold convert
  rw [convertNamed?_of_commensurable hd ha hgroup]

/-- A conversion stays within the group of a dimension. -/
theorem groupOf?_convert (d : Dimension Rat) (a : String) :
    groupOf? (d.convert a).unit = groupOf? d.unit := by
  by_cases h : Commensurable d.unit a
  · obtain ⟨m, n, hd, ha, hgroup⟩ := commensurable_iff.1 h
    rw [convert_of_commensurable hd ha hgroup]
    exact h.2.symm
  · rw [convert_of_not_commensurable h]

theorem commensurable_convert (d : Dimension Rat) (a b : String) :
    Commensurable (d.convert a).unit b ↔ Commensurable d.unit b := by
  unfold Commensurable
  rw [groupOf?_convert]

/-- The next conversion within the group forgets the one before. -/
theorem convert_convert (h : Commensurable d.unit b) : (d.convert a).convert b = d.convert b := by
  by_cases ha : Commensurable d.unit a
  · obtain ⟨m, n, hd, ha, hgroup⟩ := commensurable_iff.1 ha
    obtain ⟨m', k, hd', hb, hgroup'⟩ := commensurable_iff.1 h
    obtain rfl : m = m' := Option.some.inj (hd.symm.trans hd')
    rw [convert_of_commensurable hd ha hgroup, convert_of_commensurable hd hb hgroup',
      convert_of_commensurable ha hb (hgroup.symm.trans hgroup'), Measure.convert_convert]
  · rw [convert_of_not_commensurable ha]

theorem convert_unit (d : Dimension Rat) : d.convert d.unit = d := by
  by_cases h : Commensurable d.unit d.unit
  · obtain ⟨m, n, hd, hd', hgroup⟩ := commensurable_iff.1 h
    obtain rfl : m = n := Option.some.inj (hd.symm.trans hd')
    rw [convert_of_commensurable hd hd hgroup, Measure.convert_self]
  · exact convert_of_not_commensurable h

/-! ## Runs of conversions -/

/-- A run of conversions stays within the group of a dimension. -/
theorem groupOf?_foldl_convert (d : Dimension Rat) (targets : List String) :
    groupOf? (targets.foldl convert d).unit = groupOf? d.unit := by
  induction targets generalizing d with
  | nil => rfl
  | cons a rest ih => rw [List.foldl_cons, ih, groupOf?_convert]

/-- A conversion within the group forgets the run before. -/
theorem convert_foldl_convert (h : Commensurable d.unit b) (targets : List String) :
    (targets.foldl convert d).convert b = d.convert b := by
  induction targets generalizing d with
  | nil => rfl
  | cons a rest ih =>
    rw [List.foldl_cons, ih ((commensurable_convert d a b).2 h), convert_convert h]

/-- The last of the targets that have a common measure with a dimension. -/
def lastTarget? (d : Dimension Rat) (targets : List String) : Option String :=
  (targets.filter fun a => Commensurable d.unit a).getLast?

/-- Of a run of conversions the last target within the group decides. -/
theorem foldl_convert (d : Dimension Rat) (targets : List String) :
    targets.foldl convert d = (d.lastTarget? targets).elim d d.convert := by
  -- the induction is on the run read backwards, where the last conversion comes first
  induction targets using List.reverseRecOn with
  | nil => rfl
  | append_singleton targets a ih =>
    rw [List.foldl_append, List.foldl_cons, List.foldl_nil]
    by_cases h : Commensurable d.unit a
    · have hlast : d.lastTarget? (targets ++ [a]) = some a := by
        simp [lastTarget?, List.filter_append, h]
      rw [convert_foldl_convert h, hlast, Option.elim_some]
    · have hlast : d.lastTarget? (targets ++ [a]) = d.lastTarget? targets := by
        simp [lastTarget?, List.filter_append, h]
      have hstay : ¬ Commensurable (targets.foldl convert d).unit a := by
        unfold Commensurable at h ⊢
        rwa [groupOf?_foldl_convert]
      rw [convert_of_not_commensurable hstay, hlast, ih]

/-- A conversion back to the unit of a dimension leads back to it. -/
theorem foldl_convert_convert (d : Dimension Rat) (targets : List String) :
    (targets.foldl convert d).convert d.unit = d := by
  have hback := foldl_convert d (targets ++ [d.unit])
  rw [List.foldl_append, List.foldl_cons, List.foldl_nil] at hback
  rw [hback]
  by_cases h : Commensurable d.unit d.unit
  · have hlast : d.lastTarget? (targets ++ [d.unit]) = some d.unit := by
      simp [lastTarget?, List.filter_append, h]
    rw [hlast, Option.elim_some, convert_unit]
  · -- a unit of no group is not converted by anything
    have hnone : d.lastTarget? (targets ++ [d.unit]) = none := by
      unfold lastTarget?
      rw [List.getLast?_eq_none_iff, List.filter_eq_nil_iff]
      intro a _ ha
      have hknown := (of_decide_eq_true ha).1
      exact h ⟨hknown, rfl⟩
    rw [hnone, Option.elim_none]

/-! ## Base units -/

theorem unify_eq (d : Dimension Rat) :
    d.unify = (groupOf? d.unit).elim d fun g => d.convert g.base.name := by
  unfold unify groupOf?
  cases ofName? d.unit <;> rfl

theorem unify_convert (d : Dimension Rat) (a : String) : (d.convert a).unify = d.unify := by
  rw [unify_eq, unify_eq, groupOf?_convert]
  cases hgroup : groupOf? d.unit with
  | none =>
    have hstay : ¬ Commensurable d.unit a := by
      rintro ⟨hknown, -⟩
      rw [hgroup] at hknown
      cases hknown
    exact convert_of_not_commensurable hstay
  | some g =>
    have hbase : Commensurable d.unit g.base.name := by
      unfold Commensurable
      rw [hgroup, groupOf?_base]
      exact ⟨rfl, rfl⟩
    exact convert_convert hbase

theorem unify_foldl_convert (d : Dimension Rat) (targets : List String) :
    (targets.foldl convert d).unify = d.unify := by
  induction targets generalizing d with
  | nil => rfl
  | cons a rest ih => rw [List.foldl_cons, ih, unify_convert]

/-- A dimension in a base unit is left alone. -/
theorem unify_unify (d : Dimension Rat) : d.unify.unify = d.unify := by
  rw [unify_eq d]
  cases hgroup : groupOf? d.unit with
  | none => rw [Option.elim_none, unify_eq, hgroup, Option.elim_none]
  | some g => rw [Option.elim_some, unify_convert, unify_eq, hgroup, Option.elim_some]

end Dimension

/-! ## Calls -/

namespace Settings

open StyleFunctions.Measure

section

variable {α : Type} [Scalar α]

/-- A value converted to one unit after another, each time by a call; the first failure ends the
run. -/
def convertEach (settings : Settings) (name : String) (site : CallSite) (value : Value α) :
    List (Value α) → Except Error (Option (Value α))
  | [] => .ok (some value)
  | target :: rest =>
    match settings.call name [value, target] site with
    | .ok (some converted) => convertEach settings name site converted rest
    | failed => failed

theorem call_convert (settings : Settings) {name : String}
    (hname : Builtin.canonicalName name = Builtin.convert.name) (d : Dimension α)
    (target : Value α) (site : CallSite) :
    settings.call name [.dimension d, target] site =
      .ok (some (.dimension (d.convert target.rawText))) :=
  (call_eq_ok_iff settings site hname (by rfl) _).2 rfl

/-- A run of calls converts a dimension along the run. -/
theorem convertEach_eq (settings : Settings) {name : String}
    (hname : Builtin.canonicalName name = Builtin.convert.name) (site : CallSite)
    (d : Dimension α) (targets : List (Value α)) :
    settings.convertEach name site (.dimension d) targets =
      .ok (some (.dimension ((targets.map Value.rawText).foldl Dimension.convert d))) := by
  induction targets generalizing d with
  | nil => rfl
  | cons target rest ih =>
    rw [convertEach, call_convert settings hname]
    exact ih (d.convert target.rawText)

/-- A trigonometric function sees a dimension in its base unit. -/
theorem call_trig (settings : Settings) (f : Trig) {name : String}
    (hname : Builtin.canonicalName name = (Builtin.math (.trig f)).name) (d : Dimension α)
    (site : CallSite) :
    settings.call name [.dimension d] site =
      .ok (some (.dimension ⟨Scalar.trig f d.unify.value, (MathFunction.trig f).forcedUnit?.getD
        d.unit⟩)) := by
  refine (call_eq_ok_iff settings site hname (by cases f <;> rfl) _).2 ?_
  cases f <;> rfl

end

/-- Conversions of a dimension to any targets one after another do not fail, and lead to where the
last target within the group of its unit leads alone, or nowhere without such a target.  They can
be taken back, lead to the same base unit, and leave the trigonometric functions as they were. -/
theorem convert_path_independent (settings : Settings) (site : CallSite) {name : String}
    (hname : Builtin.canonicalName name = Builtin.convert.name) (d : Dimension Rat)
    (targets : List (Value Rat)) :
    ∃ e : Dimension Rat,
      settings.convertEach name site (.dimension d) targets = .ok (some (.dimension e)) ∧
      (match (targets.filter fun t => Commensurable d.unit t.rawText).getLast? with
        | some last => settings.call name [.dimension d, last] site = .ok (some (.dimension e))
        | none => e = d) ∧
      (∀ back : Value Rat, back.rawText = d.unit →
        settings.call name [.dimension e, back] site = .ok (some (.dimension d))) ∧
      e.unify = d.unify ∧ d.unify.unify = d.unify ∧
      ∀ (f : Trig) (function : String),
        Builtin.canonicalName function = (Builtin.math (.trig f)).name →
        settings.call function [.dimension e] site =
          settings.call function [.dimension d] site := by
  have hlast : d.lastTarget? (targets.map Value.rawText) =
      ((targets.filter fun t => Commensurable d.unit t.rawText).getLast?).map Value.rawText := by
    rw [Dimension.lastTarget?, List.filter_map, List.getLast?_map]
    rfl
  have hunify := Dimension.unify_foldl_convert d (targets.map Value.rawText)
  refine ⟨_, convertEach_eq settings hname site d targets, ?_, ?_, hunify,
    Dimension.unify_unify d, ?_⟩
  · rw [Dimension.foldl_convert, hlast]
    cases (targets.filter fun t => Commensurable d.unit t.rawText).getLast? with
    | none => rfl
    | some last => exact call_convert settings hname d last site
  · intro back hback
    rw [call_convert settings hname, hback, Dimension.foldl_convert_convert]
  · intro f function hfunction
    rw [call_trig settings f hfunction, call_trig settings f hfunction, hunify]
    cases f <;> rfl

/-- A right angle in degrees, through turns to gradians, past a length and a bare number. -/
theorem convert_path_independent_right_angle :
    let angle : Dimension Rat := ⟨90, "deg"⟩
    let gradians : Dimension Rat := ⟨100, "grad"⟩
    let targets : List (Value Rat) := [.keyword "turn", .string "px", .string "grad", .number 7]
    let site : CallSite := ⟨"Convert", none, none⟩
    Builtin.canonicalName "Convert" = Builtin.convert.name ∧
      ({} : Settings).convertEach "Convert" site (.dimension angle) targets =
        .ok (some (.dimension gradians)) ∧
      ({} : Settings).call "Convert" [.dimension angle, .string "grad"] site =
        .ok (some (.dimension gradians)) ∧
      ({} : Settings).call "Convert" [.dimension gradians, .keyword "deg"] site =
        .ok (some (.dimension angle)) ∧
      gradians.unify = angle.unify ∧
      Builtin.canonicalName "Sin" = (Builtin.math (.trig .sin)).name ∧
      ({} : Settings).call "Sin" [.dimension gradians] site =
        ({} : Settings).call "Sin" [.dimension angle] site := by
  intro angle gradians targets site
  have hname : Builtin.canonicalName "Convert" = Builtin.convert.name := by decide
  have hsin : Builtin.canonicalName "Sin" = (Builtin.math (.trig .sin)).name := by decide
  have hvalue : (targets.map Value.rawText).foldl Dimension.convert angle = gradians := by
    decide +kernel
  have hgrad : (targets.filter fun t => Commensurable angle.unit t.rawText).getLast? =
      some (.string "grad") := by
    decide +kernel
  have hrun : ({} : Settings).convertEach "Convert" site (.dimension angle) targets =
      .ok (some (.dimension gradians)) := by
    rw [convertEach_eq {} hname, hvalue]
  obtain ⟨e, he, hlast, hback, hunify, -, htrig⟩ :=
    convert_path_independent {} site hname angle targets
  have heq : gradians = e := by
    simpa only [hrun, Except.ok.injEq, Option.some.injEq, Value.dimension.injEq] using he
  rw [hgrad] at hlast
  rw [← heq] at hlast hback hunify htrig
  exact ⟨hname, hrun, hlast, hback (.keyword "deg") rfl, hunify, hsin, htrig .sin "Sin" hsin⟩

end Settings

end StyleFunctions

import Mathlib.Tactic
import StyleFunctions.Number.Exact
import StyleFunctions.Proofs.Color.Hex
import StyleFunctions.Proofs.Function.Dispatch

/-!
# The types of function calls

Every function has a signature: the types that its parameters take (`Builtin.parameters`), what
it asks of its arguments beyond their types (`Builtin.Demands`), and the type of its result
(`Builtin.resultType`; the contrast gives a value of the caller's choice, `Builtin.Gives`).

* `Settles` — when a computation succeeds and what it gives then.  Computations that follow one
  another succeed where both do (`Settles.bind`).
* `Builtin.Keeps` — a function keeps its signature on given arguments, family by family.
* `Builtin.keeps_signature` — every function keeps its signature for every number of arguments
  that its arity accepts.
* `Settings.call_typing` — so do calls by name, under all settings and at all call sites.
-/

namespace StyleFunctions

/-! ## Signatures -/

/-- The types of values. -/
inductive ValueType
  | dimension | color | keyword | quoted | anonymous | url
  deriving DecidableEq, Repr

/-- What a parameter takes: values of one type, or any value. -/
inductive Parameter
  | only (type : ValueType)
  | any
  deriving DecidableEq, Repr

section

variable {α : Type}

/-- The type of a value. -/
def Value.type : Value α → ValueType
  | dimension _ => .dimension
  | color _ => .color
  | keyword _ => .keyword
  | quoted _ => .quoted
  | anonymous _ => .anonymous
  | url _ => .url

/-- Whether a parameter takes a value. -/
def Parameter.Takes : Parameter → Value α → Prop
  | only type, v => v.type = type
  | any, _ => True

/-- Whether parameters take arguments, place by place.  Arguments without a parameter may be
anything, and parameters without an argument are left out. -/
def Parameter.TakeAll : List Parameter → List (Value α) → Prop
  | p :: ps, v :: vs => p.Takes v ∧ TakeAll ps vs
  | _, _ => True

namespace Parameter

@[simp] theorem takes_only (type : ValueType) (v : Value α) :
    (only type).Takes v ↔ v.type = type := Iff.rfl

@[simp] theorem takes_any (v : Value α) : any.Takes v := trivial

@[simp] theorem takeAll_cons (p : Parameter) (ps : List Parameter) (v : Value α)
    (vs : List (Value α)) : TakeAll (p :: ps) (v :: vs) ↔ p.Takes v ∧ TakeAll ps vs := Iff.rfl

@[simp] theorem takeAll_nil_left (vs : List (Value α)) : TakeAll [] vs := by
  cases vs <;> trivial

@[simp] theorem takeAll_nil_right (ps : List Parameter) : TakeAll ps ([] : List (Value α)) := by
  cases ps <;> trivial

theorem takeAll_replicate_any (n : Nat) (vs : List (Value α)) :
    TakeAll (List.replicate n any) vs := by
  induction n generalizing vs with
  | zero => exact takeAll_nil_left vs
  | succ n ih =>
    cases vs with
    | nil => exact takeAll_nil_right _
    | cons v vs => exact ⟨takes_any v, ih vs⟩

end Parameter

end

namespace Builtin

/-- The parameters of a function, of which the last ones may be optional. -/
def parameters : Builtin → List Parameter
  | construction f => List.replicate (if f.hasOpacity then 4 else 3) (.only .dimension)
  | projection _ => [.only .color]
  | adjustment _ => [.only .color, .only .dimension]
  | contrast => [.any, .any, .any, .any]
  | greyscale => [.only .color]
  | mix => [.only .color, .only .color, .only .dimension]
  | blend _ => [.only .color, .only .color]
  | math .round => [.only .dimension, .only .dimension]
  | math _ => [.only .dimension]
  | mod => [.only .dimension, .only .dimension]
  | pi => []
  | pow => [.only .dimension, .only .dimension]
  | color => [.only .quoted]
  | convert => [.only .dimension, .any]
  | percentage => [.only .dimension]
  | unit => [.only .dimension, .any]
  | typeTest _ => [.any]
  | format => [.any]
  | e => [.any]
  | escape => [.any]
  | dataUrl => [.any, .any]

/-- The type of a function's result.  The contrast gives a value of no type of its own. -/
def resultType : Builtin → Option ValueType
  | construction _ => some .color
  | projection .argb => some .anonymous
  | projection _ => some .dimension
  | adjustment _ => some .color
  | contrast => none
  | greyscale => some .color
  | mix => some .color
  | blend _ => some .color
  | math _ => some .dimension
  | mod => some .dimension
  | pi => some .dimension
  | pow => some .dimension
  | color => some .color
  | convert => some .dimension
  | percentage => some .dimension
  | unit => some .dimension
  | typeTest _ => some .keyword
  | format => some .quoted
  | e => some .anonymous
  | escape => some .anonymous
  | dataUrl => some .url

variable {α : Type} [Scalar α]

/-- What a function asks of its arguments beyond their types: the contrast of a colour needs a
number as threshold, a remainder a divisor other than zero and a quotient that is a 64-bit
integer, and a colour is read from hexadecimal digits behind one character. -/
def Demands : Builtin → List (Value α) → Prop
  | contrast, .color _ :: rest => ∀ t, rest[2]? = some t → t.type = .dimension
  | mod, [.dimension a, .dimension b] =>
    Arithmetic.integer b.value ≠ 0 ∧
      ¬ (Arithmetic.integer a.value = Rounding.minInt64 ∧ Arithmetic.integer b.value = -1)
  | color, [.quoted q] => Color.IsHex (q.text.toList.drop 1)
  | _, _ => True

/-- Whether arguments meet the signature of a function. -/
def Accepts (f : Builtin) (arguments : List (Value α)) : Prop :=
  Parameter.TakeAll f.parameters arguments ∧ f.Demands arguments

/-- Whether a result is one that the signature of a function promises for arguments.  The
contrast of a colour is the light or the dark value, white or black where it was left out; of
anything else it is nothing. -/
def Gives (f : Builtin) (arguments : List (Value α)) (result : Option (Value α)) : Prop :=
  match f, arguments with
  | contrast, .color _ :: rest =>
    result = some (rest[1]?.getD (.color Color.white)) ∨
      result = some (rest[0]?.getD (.color Color.black))
  | contrast, _ => result = none
  | f, _ => ∃ v, result = some v ∧ f.resultType = some v.type

end Builtin

/-! ## Computations that may fail -/

/-- A computation succeeds exactly if `accepted` holds, and `given` holds of its result. -/
structure Settles {ε β : Type} (x : Except ε β) (accepted : Prop) (given : β → Prop) : Prop where
  succeeds : (∃ b, x = .ok b) ↔ accepted
  given_of_ok : ∀ b, x = .ok b → given b

namespace Settles

variable {ε β γ : Type} {accepted accepted' : Prop} {given : β → Prop} {given' : γ → Prop}

theorem ok {b : β} (h : accepted) (hb : given b) : Settles (.ok b : Except ε β) accepted given :=
  ⟨iff_of_true ⟨b, rfl⟩ h, fun _ heq => Except.ok.inj heq ▸ hb⟩

theorem error {e : ε} (h : ¬ accepted) : Settles (.error e : Except ε β) accepted given :=
  ⟨iff_of_false (by simp) h, fun _ heq => by simp at heq⟩

theorem congr {x : Except ε β} (hx : Settles x accepted given) (h : accepted ↔ accepted') :
    Settles x accepted' given :=
  ⟨hx.succeeds.trans h, hx.given_of_ok⟩

/-- Two computations in a row succeed where both do. -/
theorem bind {x : Except ε β} {f : β → Except ε γ} (hx : Settles x accepted given)
    (hf : ∀ b, given b → Settles (f b) accepted' given') :
    Settles (x >>= f) (accepted ∧ accepted') given' := by
  cases x with
  | error e =>
    have hno : ¬ accepted := fun h => by simpa using hx.succeeds.2 h
    refine ⟨⟨fun ⟨c, hc⟩ => by simp [Bind.bind, Except.bind] at hc, fun h => absurd h.1 hno⟩, ?_⟩
    intro c hc
    simp [Bind.bind, Except.bind] at hc
  | ok b =>
    have hb := hx.given_of_ok b rfl
    have hyes : accepted := hx.succeeds.1 ⟨b, rfl⟩
    refine ⟨?_, (hf b hb).given_of_ok⟩
    exact (hf b hb).succeeds.trans ⟨fun h => ⟨hyes, h⟩, fun h => h.2⟩

/-- What is made of a result does not change when there is one. -/
theorem bind_ok {x : Except ε β} {f : β → γ} (hx : Settles x accepted given)
    (hf : ∀ b, given b → given' (f b)) :
    Settles (x >>= fun b => .ok (f b)) accepted given' :=
  (hx.bind fun b hb => ok trivial (hf b hb)).congr (iff_of_eq (and_true _))

theorem map {x : Except ε β} {f : β → γ} (hx : Settles x accepted given)
    (hf : ∀ b, given b → given' (f b)) : Settles (f <$> x) accepted given' := by
  cases x with
  | error e => exact error fun h => by simpa using hx.succeeds.2 h
  | ok b => exact ok (hx.succeeds.1 ⟨b, rfl⟩) (hf b (hx.given_of_ok b rfl))

end Settles

/-! ## Reading arguments -/

section

variable {α : Type}

theorem settles_color (name : String) (v : Value α) :
    Settles (Argument.color name v) (v.type = .color) fun c => v = .color c := by
  cases v with
  | color c => exact .ok rfl rfl
  | _ => exact .error (by simp [Value.type])

theorem settles_dimension (name : String) (v : Value α) :
    Settles (Argument.dimension name v) (v.type = .dimension) fun d => v = .dimension d := by
  cases v with
  | dimension d => exact .ok rfl rfl
  | _ => exact .error (by simp [Value.type])

variable [Scalar α]

theorem settles_number (v : Value α) :
    Settles (Argument.number v) (v.type = .dimension) fun _ => True := by
  cases v with
  | dimension d => exact .ok rfl trivial
  | _ => exact .error (by simp [Value.type])

theorem settles_scaled (size : α) (v : Value α) :
    Settles (Argument.scaled size v) (v.type = .dimension) fun _ => True := by
  cases v with
  | dimension d => exact .ok rfl trivial
  | _ => exact .error (by simp [Value.type])

theorem settles_component (f : Construction) (v : Value α) :
    Settles (f.component v) (v.type = .dimension) fun _ => True := by
  cases f with
  | rgb | rgba => exact settles_scaled _ v
  | hsl | hsla | hsv | hsva => exact settles_number v

/-- `darken` refuses what is not a colour in words of its own, but it refuses the same values. -/
theorem settles_subject (f : Adjustment) (caller : String) (v : Value α) :
    Settles (f.subject caller v) (v.type = .color) fun c => v = .color c := by
  cases v with
  | color c => cases f <;> exact .ok rfl rfl
  | _ => cases f <;> exact .error (by simp [Value.type])

end

namespace Arity

theorem accepts_between_iff (least most count : Nat) :
    (between least most).accepts count ↔ least ≤ count ∧ count ≤ most := by
  change (decide (least ≤ count) && decide (count ≤ most)) = true ↔ _
  rw [Bool.and_eq_true, decide_eq_true_eq, decide_eq_true_eq]

theorem accepts_exactly_iff (n count : Nat) : (exactly n).accepts count ↔ count = n := by
  rw [exactly, ← between, accepts_between_iff]
  omega

theorem exists_one {β : Type} {xs : List β} (h : (exactly 1).accepts xs.length) :
    ∃ a, xs = [a] :=
  List.length_eq_one_iff.1 ((accepts_exactly_iff _ _).1 h)

theorem exists_two {β : Type} {xs : List β} (h : (exactly 2).accepts xs.length) :
    ∃ a b, xs = [a, b] :=
  List.length_eq_two.1 ((accepts_exactly_iff _ _).1 h)

theorem accepts_atLeast_iff (least count : Nat) :
    (atLeast least).accepts count ↔ least ≤ count := by
  change (decide (least ≤ count) && true) = true ↔ _
  rw [Bool.and_true, decide_eq_true_eq]

end Arity

/-! ## Functions of one or two values -/

section

variable {α : Type} [Scalar α]

theorem settles_mathApply (f : MathFunction) (v : Value α) (digits : α) :
    Settles (f.apply v digits) (v.type = .dimension) fun r => r.type = .dimension := by
  cases v with
  | dimension d => exact .ok rfl rfl
  | _ => exact .error (by simp [Value.type])

theorem settles_applyRound (v : Value α) (digits : Option (Value α)) :
    Settles (MathFunction.applyRound v digits)
      (v.type = .dimension ∧ ∀ d, digits = some d → d.type = .dimension)
      fun r => r.type = .dimension := by
  cases digits with
  | none => exact (settles_mathApply .round v 0).congr (by simp)
  | some d =>
    cases d with
    | dimension d => exact (settles_mathApply .round v d.value).congr (by simp [Value.type])
    | _ => exact .error (by simp [Value.type])

theorem settles_modulo (x y : Dimension α) :
    Settles (Arithmetic.modulo x y)
      (Arithmetic.integer y.value ≠ 0 ∧
        ¬ (Arithmetic.integer x.value = Rounding.minInt64 ∧ Arithmetic.integer y.value = -1))
      fun r => r.type = .dimension := by
  rw [Arithmetic.modulo, Arithmetic.remainder?]
  by_cases hzero : Arithmetic.integer y.value = 0
  · rw [if_pos (by simp [hzero])]
    exact .error fun h => h.1 hzero
  by_cases hlarge : Arithmetic.integer x.value = Rounding.minInt64 ∧ Arithmetic.integer y.value = -1
  · rw [if_pos (by simp [hlarge])]
    exact .error fun h => h.2 hlarge
  · rw [if_neg (by simpa [hzero] using hlarge)]
    exact .ok ⟨hzero, hlarge⟩ rfl

theorem settles_pow (base exponent : Value α) :
    Settles (Arithmetic.pow base exponent)
      (base.type = .dimension ∧ exponent.type = .dimension) fun r => r.type = .dimension := by
  cases base with
  | dimension x =>
    cases exponent with
    | dimension y => exact .ok ⟨rfl, rfl⟩ rfl
    | _ => exact .error (by simp [Value.type])
  | _ => exact .error (by simp [Value.type])

theorem settles_readColor (v : Value α) :
    Settles (Conversion.color v)
      (∃ q, v = .quoted q ∧ Color.IsHex (q.text.toList.drop 1)) fun _ => True := by
  cases v with
  | quoted q =>
    have hhex := Color.ofHexDigits?_isSome_iff (α := α) (q.text.toList.drop 1)
    rw [Conversion.color]
    cases hc : (Color.ofHexDigits? (q.text.toList.drop 1) : Option (Color α)) with
    | some c => exact .ok ⟨q, rfl, hhex.1 (by rw [hc]; rfl)⟩ trivial
    | none =>
      refine .error fun ⟨q', hq, h⟩ => ?_
      cases hq
      rw [← hhex, hc] at h
      cases h
  | _ => exact .error (by simp)

end

/-! ## Families of functions -/

theorem Construction.apply_of_not_hasOpacity {α : Type} [Scalar α] {f : Construction}
    (h : f.hasOpacity = false) (a b c : Value α) :
    f.apply [a, b, c] = (do
      let x ← f.component a
      let y ← f.component b
      let z ← f.component c
      return f.build x y z 1) := by
  rw [apply, h]
  rfl

theorem Construction.apply_of_hasOpacity {α : Type} [Scalar α] {f : Construction}
    (h : f.hasOpacity = true) (a b c d : Value α) :
    f.apply [a, b, c, d] = (do
      let x ← f.component a
      let y ← f.component b
      let z ← f.component c
      let alpha ← Argument.number d
      return f.build x y z alpha) := by
  rw [apply, h]
  rfl

namespace Builtin

variable {α : Type} [Scalar α] (settings : Settings) (caller : String)

/-- A function keeps its signature on arguments. -/
def Keeps (f : Builtin) (arguments : List (Value α)) : Prop :=
  Settles (f.apply settings caller arguments) (f.Accepts arguments) (f.Gives arguments)

variable {settings caller}

/-- Every function but the contrast gives a value of its own type. -/
theorem gives_iff {f : Builtin} (hf : f ≠ contrast) (arguments : List (Value α))
    (result : Option (Value α)) :
    f.Gives arguments result ↔ ∃ v, result = some v ∧ f.resultType = some v.type := by
  cases f <;> first | exact absurd rfl hf | rfl

theorem gives_some {f : Builtin} (hf : f ≠ contrast) {arguments : List (Value α)} {v : Value α}
    (hv : f.resultType = some v.type) : f.Gives arguments (some v) :=
  (gives_iff hf arguments _).2 ⟨v, rfl, hv⟩

theorem keeps_construction (f : Construction) {arguments : List (Value α)}
    (h : (construction f).arity.accepts arguments.length) :
    (construction f).Keeps settings caller arguments := by
  have hlength := (Arity.accepts_exactly_iff _ _).1 h
  have hrun : Settles (f.apply arguments) ((construction f).Accepts arguments) fun _ => True := by
    cases hopacity : f.hasOpacity with
    | true =>
      rw [hopacity] at hlength
      obtain ⟨a, b, c, d, rfl⟩ : ∃ a b c d, arguments = [a, b, c, d] := by
        match arguments, hlength with
        | [a, b, c, d], _ => exact ⟨a, b, c, d, rfl⟩
      rw [Construction.apply_of_hasOpacity hopacity]
      refine ((settles_component f a).bind fun _ _ => (settles_component f b).bind fun _ _ =>
        (settles_component f c).bind fun _ _ =>
        (settles_number d).bind_ok fun _ _ => trivial).congr ?_
      simp [Accepts, parameters, Demands, hopacity]
    | false =>
      rw [hopacity] at hlength
      obtain ⟨a, b, c, rfl⟩ := List.length_eq_three.1 hlength
      rw [Construction.apply_of_not_hasOpacity hopacity]
      refine ((settles_component f a).bind fun _ _ => (settles_component f b).bind fun _ _ =>
        (settles_component f c).bind_ok fun _ _ => trivial).congr ?_
      simp [Accepts, parameters, Demands, hopacity]
  exact hrun.bind_ok fun c _ => gives_some (by simp) rfl

theorem keeps_projection (f : Projection) {arguments : List (Value α)}
    (h : (projection f).arity.accepts arguments.length) :
    (projection f).Keeps settings caller arguments := by
  obtain ⟨a, rfl⟩ := Arity.exists_one h
  change Settles (do return some (f.apply (← Argument.color f.name a))) _ _
  refine ((settles_color _ a).bind_ok fun c _ => ?_).congr ?_
  · cases f <;> exact gives_some (by simp) rfl
  · simp [Accepts, parameters, Demands]

theorem keeps_adjustment (f : Adjustment) {arguments : List (Value α)}
    (h : (adjustment f).arity.accepts arguments.length) :
    (adjustment f).Keeps settings caller arguments := by
  obtain ⟨a, b, rfl⟩ := Arity.exists_two h
  change Settles (do
    let c ← f.subject caller a
    let amount ← Argument.dimension f.name b
    return some (Value.color (f.apply c amount))) _ _
  refine ((settles_subject f caller a).bind fun c _ => (settles_dimension _ b).bind_ok
    fun amount _ => ?_).congr ?_
  · exact gives_some (by simp) rfl
  · simp [Accepts, parameters, Demands]

/-- Only the contrast of a colour reads the threshold. -/
theorem keeps_contrast {arguments : List (Value α)}
    (h : contrast.arity.accepts arguments.length) :
    contrast.Keeps settings caller arguments := by
  have hcount := (Arity.accepts_between_iff _ _ _).1 h
  cases arguments with
  | nil => simp at hcount
  | cons a rest =>
    change Settles (Contrast.pick a rest[0]? rest[1]? rest[2]?) _ _
    have haccepts : contrast.Accepts (a :: rest) ↔ contrast.Demands (a :: rest) :=
      and_iff_right (Parameter.takeAll_replicate_any 4 (a :: rest))
    cases a with
    | color c =>
      have hpick (bound : α) : Settles (ε := Cause)
          (if c.luminance * c.alpha < bound then
            .ok (some (rest[1]?.getD (.color Color.white)))
          else .ok (some (rest[0]?.getD (.color Color.black)))) True
          (contrast.Gives (.color c :: rest)) := by
        split
        · exact .ok trivial (.inl rfl)
        · exact .ok trivial (.inr rfl)
      refine Settles.congr ?_ haccepts.symm
      cases ht : rest[2]? with
      | none => exact (hpick _).congr (by simp [Demands, ht])
      | some t =>
        exact ((settles_number t).bind fun bound _ => hpick bound).congr (by simp [Demands, ht])
    | _ => exact .ok (haccepts.2 trivial) rfl

theorem keeps_greyscale {arguments : List (Value α)}
    (h : greyscale.arity.accepts arguments.length) :
    greyscale.Keeps settings caller arguments := by
  obtain ⟨a, rfl⟩ := Arity.exists_one h
  change Settles (do return some (Value.color (← Argument.color "greyscale" a).greyscale)) _ _
  refine ((settles_color _ a).bind_ok fun c _ => ?_).congr ?_
  · exact gives_some (by simp) rfl
  · simp [Accepts, parameters, Demands]

/-- The weight is read before the colours. -/
theorem keeps_mix {arguments : List (Value α)} (h : mix.arity.accepts arguments.length) :
    mix.Keeps settings caller arguments := by
  have hcount := (Arity.accepts_between_iff _ _ _).1 h
  have hmix (a b : Value α) (weight : Option (Dimension α)) : Settles (do
      let first ← Argument.color "mix" a
      let second ← Argument.color "mix" b
      return some (Value.color (Color.mix first second weight)))
      (a.type = .color ∧ b.type = .color) (mix.Gives arguments) :=
    (settles_color _ a).bind fun first _ => (settles_color _ b).bind_ok fun second _ =>
      gives_some (by simp) rfl
  match arguments, hcount with
  | [a, b], _ => exact (hmix a b none).congr (by simp [Accepts, parameters, Demands])
  | [a, b, w], _ =>
    have hweight : Settles (some <$> Argument.dimension "mix" w) (w.type = .dimension)
        fun _ => True := (settles_dimension _ w).map fun _ _ => trivial
    refine (hweight.bind fun weight _ => hmix a b weight).congr ?_
    simp only [Accepts, parameters, Demands, Parameter.takeAll_cons, Parameter.takes_only,
      Parameter.takeAll_nil_left, and_true]
    tauto

theorem keeps_blend (mode : BlendMode) {arguments : List (Value α)}
    (h : (blend mode).arity.accepts arguments.length) :
    (blend mode).Keeps settings caller arguments := by
  obtain ⟨a, b, rfl⟩ := Arity.exists_two h
  change Settles (do
    let first ← Argument.color mode.name a
    let second ← Argument.color mode.name b
    return some (Value.color (mode.blend first second))) _ _
  refine ((settles_color _ a).bind fun first _ => (settles_color _ b).bind_ok
    fun second _ => ?_).congr ?_
  · exact gives_some (by simp) rfl
  · simp [Accepts, parameters, Demands]

theorem keeps_math (f : MathFunction) {arguments : List (Value α)}
    (h : (math f).arity.accepts arguments.length) :
    (math f).Keeps settings caller arguments := by
  have hgives {v : Value α} (hv : v.type = .dimension) : (math f).Gives arguments (some v) :=
    gives_some (by simp) (by rw [hv]; cases f <;> rfl)
  cases f with
  | round =>
    have hcount := (Arity.accepts_between_iff _ _ _).1 h
    match arguments, hcount with
    | [a], _ =>
      exact ((settles_applyRound a none).bind_ok fun v hv => hgives hv).congr
        (by simp [Accepts, parameters, Demands])
    | [a, digits], _ =>
      exact ((settles_applyRound a (some digits)).bind_ok fun v hv => hgives hv).congr
        (by simp [Accepts, parameters, Demands])
  | ceil | floor | sqrt | abs | trig _ =>
    obtain ⟨a, rfl⟩ := Arity.exists_one h
    exact ((settles_mathApply _ a 0).bind_ok fun v hv => hgives hv).congr
      (by simp [Accepts, parameters, Demands])

theorem keeps_mod {arguments : List (Value α)} (h : mod.arity.accepts arguments.length) :
    mod.Keeps settings caller arguments := by
  obtain ⟨a, b, rfl⟩ := Arity.exists_two h
  cases a with
  | dimension x =>
    cases b with
    | dimension y =>
      refine ((settles_modulo x y).bind_ok fun v hv => ?_).congr ?_
      · exact gives_some (by simp) (by rw [hv]; rfl)
      · simp [Accepts, parameters, Demands, Value.type]
    | _ => exact .error (by simp [Accepts, parameters, Value.type])
  | _ => exact .error (by simp [Accepts, parameters, Value.type])

theorem keeps_pi {arguments : List (Value α)} (h : pi.arity.accepts arguments.length) :
    pi.Keeps settings caller arguments := by
  obtain rfl := List.eq_nil_of_length_eq_zero ((Arity.accepts_exactly_iff _ _).1 h)
  refine .ok (by simp [Accepts, parameters, Demands]) ?_
  exact gives_some (by simp) rfl

theorem keeps_pow {arguments : List (Value α)} (h : pow.arity.accepts arguments.length) :
    pow.Keeps settings caller arguments := by
  obtain ⟨a, b, rfl⟩ := Arity.exists_two h
  refine ((settles_pow a b).bind_ok fun v hv => ?_).congr ?_
  · exact gives_some (by simp) (by rw [hv]; rfl)
  · simp [Accepts, parameters, Demands]

theorem keeps_color {arguments : List (Value α)} (h : color.arity.accepts arguments.length) :
    color.Keeps settings caller arguments := by
  obtain ⟨a, rfl⟩ := Arity.exists_one h
  refine ((settles_readColor a).bind_ok fun c _ => ?_).congr ?_
  · exact gives_some (by simp) rfl
  · cases a <;> simp [Accepts, parameters, Demands, Value.type]

theorem keeps_convert {arguments : List (Value α)} (h : convert.arity.accepts arguments.length) :
    convert.Keeps settings caller arguments := by
  obtain ⟨a, b, rfl⟩ := Arity.exists_two h
  change Settles (do
    let d ← Argument.dimension "convert" a
    return some (Value.dimension (Conversion.toUnit d b))) _ _
  refine ((settles_dimension _ a).bind_ok fun d _ => ?_).congr ?_
  · exact gives_some (by simp) rfl
  · simp [Accepts, parameters, Demands]

theorem keeps_percentage {arguments : List (Value α)}
    (h : percentage.arity.accepts arguments.length) :
    percentage.Keeps settings caller arguments := by
  obtain ⟨a, rfl⟩ := Arity.exists_one h
  change Settles (do return some (Conversion.percentage (← Argument.dimension "percentage" a))) _ _
  refine ((settles_dimension _ a).bind_ok fun d _ => ?_).congr ?_
  · exact gives_some (by simp) rfl
  · simp [Accepts, parameters, Demands]

theorem keeps_unit {arguments : List (Value α)} (h : unit.arity.accepts arguments.length) :
    unit.Keeps settings caller arguments := by
  have hcount := (Arity.accepts_between_iff _ _ _).1 h
  have hunit (a : Value α) (target : Option (Value α)) : Settles (do
      let d ← Argument.dimension "unit" a
      return some (Value.dimension (Conversion.withUnit settings.css d target)))
      (a.type = .dimension) (unit.Gives arguments) :=
    (settles_dimension _ a).bind_ok fun d _ => gives_some (by simp) rfl
  match arguments, hcount with
  | [a], _ => exact (hunit a none).congr (by simp [Accepts, parameters, Demands])
  | [a, b], _ => exact (hunit a (some b)).congr (by simp [Accepts, parameters, Demands])

/-- A function keeps its signature if it accepts its arguments and gives a value of its type. -/
theorem keeps_of_apply_eq {f : Builtin} {arguments : List (Value α)} {v : Value α}
    (hf : f ≠ contrast) (haccepts : f.Accepts arguments)
    (hv : f.resultType = some v.type)
    (hrun : f.apply settings caller arguments = .ok (some v)) :
    f.Keeps settings caller arguments := by
  rw [Keeps, hrun]
  exact .ok haccepts (gives_some hf hv)

theorem keeps_typeTest (f : TypeTest) {arguments : List (Value α)}
    (h : (typeTest f).arity.accepts arguments.length) :
    (typeTest f).Keeps settings caller arguments := by
  obtain ⟨a, rfl⟩ := Arity.exists_one h
  exact keeps_of_apply_eq (by simp) (by simp [Accepts, parameters, Demands]) rfl rfl

theorem keeps_format {arguments : List (Value α)} (h : format.arity.accepts arguments.length) :
    format.Keeps settings caller arguments := by
  have hcount := (Arity.accepts_atLeast_iff _ _).1 h
  cases arguments with
  | nil => simp at hcount
  | cons a rest =>
    exact keeps_of_apply_eq (by simp) (by simp [Accepts, parameters, Demands]) rfl rfl

theorem keeps_e {arguments : List (Value α)} (h : e.arity.accepts arguments.length) :
    e.Keeps settings caller arguments := by
  obtain ⟨a, rfl⟩ := Arity.exists_one h
  exact keeps_of_apply_eq (by simp) (by simp [Accepts, parameters, Demands]) rfl rfl

theorem keeps_escape {arguments : List (Value α)} (h : escape.arity.accepts arguments.length) :
    escape.Keeps settings caller arguments := by
  obtain ⟨a, rfl⟩ := Arity.exists_one h
  exact keeps_of_apply_eq (by simp) (by simp [Accepts, parameters, Demands]) rfl rfl

theorem keeps_dataUrl {arguments : List (Value α)} (h : dataUrl.arity.accepts arguments.length) :
    dataUrl.Keeps settings caller arguments := by
  have hcount := (Arity.accepts_between_iff _ _ _).1 h
  have hurl (first : Value α) (path : Option (Value α)) :
      (DataUrl.embed settings.mode settings.loader first path).type = .url := by
    simp only [DataUrl.embed]
    split <;> rfl
  match arguments, hcount with
  | [a], _ =>
    exact keeps_of_apply_eq (by simp) (by simp [Accepts, parameters, Demands])
      (congrArg some (hurl a none).symm) rfl
  | [a, b], _ =>
    exact keeps_of_apply_eq (by simp) (by simp [Accepts, parameters, Demands])
      (congrArg some (hurl a (some b)).symm) rfl

/-- Every function keeps its signature where its arity accepts the number of arguments. -/
theorem keeps_signature (f : Builtin) {arguments : List (Value α)}
    (h : f.arity.accepts arguments.length) :
    f.Keeps settings caller arguments := by
  cases f with
  | construction f => exact keeps_construction f h
  | projection f => exact keeps_projection f h
  | adjustment f => exact keeps_adjustment f h
  | contrast => exact keeps_contrast h
  | greyscale => exact keeps_greyscale h
  | mix => exact keeps_mix h
  | blend mode => exact keeps_blend mode h
  | math f => exact keeps_math f h
  | mod => exact keeps_mod h
  | pi => exact keeps_pi h
  | pow => exact keeps_pow h
  | color => exact keeps_color h
  | convert => exact keeps_convert h
  | percentage => exact keeps_percentage h
  | unit => exact keeps_unit h
  | typeTest f => exact keeps_typeTest f h
  | format => exact keeps_format h
  | e => exact keeps_e h
  | escape => exact keeps_escape h
  | dataUrl => exact keeps_dataUrl h

end Builtin

/-! ## Calls by name -/

namespace Settings

variable {α : Type} [Scalar α]

/-- A call comes down to the function that its name leads to. -/
theorem call_eq_ok_iff (settings : Settings) {f : Builtin} {name : String}
    {arguments : List (Value α)} (site : CallSite) (hname : Builtin.canonicalName name = f.name)
    (hcount : f.arity.accepts arguments.length) (result : Option (Value α)) :
    settings.call name arguments site = .ok result ↔
      f.apply settings site.function arguments = .ok result := by
  rw [call, outcome_of_accepted_count (Builtin.lookup?_eq_some_iff.2 hname) hcount]
  cases f.apply settings site.function arguments <;> simp

/-- A call of a function, under any spelling of its name and with a number of arguments that
the function takes, succeeds exactly if the arguments meet the function's signature, and gives
what the signature promises. -/
theorem call_typing (settings : Settings) (f : Builtin) {name : String}
    {arguments : List (Value α)} (site : CallSite) (hname : Builtin.canonicalName name = f.name)
    (hcount : f.arity.accepts arguments.length) :
    ((∃ result, settings.call name arguments site = .ok result) ↔ f.Accepts arguments) ∧
      ∀ result, settings.call name arguments site = .ok result → f.Gives arguments result := by
  have h : f.Keeps settings site.function arguments := f.keeps_signature hcount
  refine ⟨?_, fun result hresult => ?_⟩
  · simp only [call_eq_ok_iff settings site hname hcount]
    exact h.succeeds
  · exact h.given_of_ok result ((call_eq_ok_iff settings site hname hcount result).1 hresult)

/-- White and black are mixed with a percentage as weight, but not with a colour. -/
theorem call_typing_mix :
    (∃ result, ({} : Settings).call "MiX"
      [.color Color.white, .color Color.black, .percentage (25 : Rat)] ⟨"MiX", none, none⟩ =
        .ok result) ∧
    ¬ ∃ result, ({} : Settings).call "MiX"
      [.color Color.white, .color Color.black, .color (Color.white : Color Rat)]
        ⟨"MiX", none, none⟩ = .ok result := by
  have hname : Builtin.canonicalName "MiX" = Builtin.mix.name := by decide
  constructor
  · refine (call_typing {} .mix _ hname (by decide)).1.2 ⟨?_, trivial⟩
    exact ⟨rfl, rfl, rfl, trivial⟩
  · intro h
    have haccepts := (call_typing {} .mix _ hname (by decide)).1.1 h
    have hweight : (Value.color (Color.white : Color Rat)).type = .dimension :=
      haccepts.1.2.2.1
    cases hweight

end Settings

end StyleFunctions

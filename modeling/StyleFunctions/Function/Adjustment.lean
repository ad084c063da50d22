import StyleFunctions.Color.Adjust
import StyleFunctions.Color.Mix
import StyleFunctions.Function.Argument

/-!
# Functions that change a colour

The functions of a colour and an amount (`Adjustment`), and the choice of a value that stands
out from a given colour (`Contrast.pick`).
-/

namespace StyleFunctions

/-- The functions that change a colour by an amount. -/
inductive Adjustment
  | darken | desaturate | fade | fadeIn | fadeOut | lighten | saturate | shade | spin | tint
  deriving DecidableEq, Repr

namespace Adjustment

/-- The name of a function. -/
def name : Adjustment → String
  | darken => "darken"
  | desaturate => "desaturate"
  | fade => "fade"
  | fadeIn => "fadein"
  | fadeOut => "fadeout"
  | lighten => "lighten"
  | saturate => "saturate"
  | shade => "shade"
  | spin => "spin"
  | tint => "tint"

variable {α : Type} [Scalar α]

/-- A colour changed by an amount. -/
def apply : Adjustment → Color α → Dimension α → Color α
  | darken => Color.darken
  | desaturate => Color.desaturate
  | fade => Color.fade
  | fadeIn => Color.fadeIn
  | fadeOut => Color.fadeOut
  | lighten => Color.lighten
  | saturate => Color.saturate
  | shade => Color.shade
  | spin => Color.spin
  | tint => Color.tint

/-- The colour to be changed.  `darken` names the type it expects and the function as it is
called. -/
def subject (f : Adjustment) (caller : String) (value : Value α) : Except Cause (Color α) :=
  match f, value with
  | _, .color c => .ok c
  | darken, other => .error (Cause.ofArgument "Color" other caller)
  | f, other => Argument.color f.name other

end Adjustment

namespace Contrast

variable {α : Type} [Scalar α]

/-- The brightness from which on a colour counts as light. -/
def defaultThreshold : α := 0.43

/-- Of a dark and a light value the one that stands out from a colour, black and white when they
are not given.  What is not a colour has no contrast. -/
def pick (value : Value α) (dark light threshold : Option (Value α)) :
    Except Cause (Option (Value α)) :=
  match value with
  | .color c => do
    let bound ←
      match threshold with
      | some t => Argument.number t
      | none => pure defaultThreshold
    if c.luminance * c.alpha < bound then return some (light.getD (.color Color.white))
    else return some (dark.getD (.color Color.black))
  | _ => .ok none

end Contrast

end StyleFunctions

import StyleFunctions.Color.Basic

/-!
# Blend modes

A blend mode combines two colours channel by channel into an opaque one.  Each mode is one
formula, `BlendMode.channel`, whose results are not drawn into the range of channels.
-/

namespace StyleFunctions

/-- The rules by which two channels combine. -/
inductive BlendMode
  | multiply | screen | overlay | softlight | hardlight | difference | exclusion | average
  | negation
  deriving DecidableEq, Repr

namespace BlendMode

/-- All blend modes. -/
def all : List BlendMode :=
  [multiply, screen, overlay, softlight, hardlight, difference, exclusion, average, negation]

/-- The name of a blend mode. -/
def name : BlendMode → String
  | multiply => "multiply"
  | screen => "screen"
  | overlay => "overlay"
  | softlight => "softlight"
  | hardlight => "hardlight"
  | difference => "difference"
  | exclusion => "exclusion"
  | average => "average"
  | negation => "negation"

/-- The blend mode with a name. -/
def ofName? (name : String) : Option BlendMode := all.find? fun mode => mode.name == name

variable {α : Type} [Scalar α]

/-- Two channels combined.  Overlay turns on the first channel, hard light on the second. -/
def channel : BlendMode → α → α → α
  | multiply, a, b => a * b / 255
  | screen, a, b => 255 - (255 - a) * (255 - b) / 255
  | overlay, a, b =>
    if a < 128 then 2 * a * b / 255 else 255 - 2 * (255 - a) * (255 - b) / 255
  | softlight, a, b =>
    let t := b * a / 255
    t + a * (255 - (255 - a) * (255 - b) / 255 - t) / 255
  | hardlight, a, b =>
    if b < 128 then 2 * b * a / 255 else 255 - 2 * (255 - b) * (255 - a) / 255
  | difference, a, b => Scalar.abs (a - b)
  | exclusion, a, b => a + b * (255 - a - a) / 255
  | average, a, b => (a + b) / 2
  | negation, a, b => 255 - Scalar.abs (255 - b - a)

/-- Two colours blended. -/
def blend (mode : BlendMode) (first second : Color α) : Color α :=
  ⟨mode.channel first.red second.red, mode.channel first.green second.green,
    mode.channel first.blue second.blue, 1⟩

end BlendMode

end StyleFunctions

import StyleFunctions.Color.Hex
import StyleFunctions.Dimension

/-!
# Values

What a style sheet computes with: dimensions, colours, keywords, strings, text of unknown
meaning and references to other files.  Truth values are the keywords `true` and `false`.  A
value has two texts: `rawText` is what it stands for, `css` is how it is written.
-/

namespace StyleFunctions

/-- A string as it is written, with its quotes, and the text it stands for. -/
structure Quoted where
  written : String
  text : String
  deriving DecidableEq, Repr

/-- A text between double quotes. -/
def Quoted.double (text : String) : Quoted := ⟨"\"" ++ text ++ "\"", text⟩

/-- A value of a style sheet. -/
inductive Value (α : Type)
  | dimension (d : Dimension α)
  | color (c : Color α)
  | keyword (name : String)
  | quoted (q : Quoted)
  | anonymous (text : String)
  | url (inner : Value α)
  deriving DecidableEq, Repr

namespace Value

variable {α : Type}

/-! ## Construction -/

/-- A bare number. -/
def number (x : α) : Value α := dimension (Dimension.ofNumber x)

/-- A percentage. -/
def percentage (x : α) : Value α := dimension ⟨x, "%"⟩

/-- A truth value. -/
def boolean (b : Bool) : Value α := keyword (if b then "true" else "false")

/-- A text between double quotes. -/
def string (text : String) : Value α := quoted (Quoted.double text)

/-! ## Inspection -/

/-- What a value is called in messages. -/
def typeName : Value α → String
  | dimension _ => "Dimension"
  | color _ => "Color"
  | keyword _ => "Keyword"
  | quoted _ => "Quoted"
  | anonymous _ => "Anonymous"
  | url _ => "Url"

/-- The dimension that a value is. -/
def toDimension? : Value α → Option (Dimension α)
  | dimension d => some d
  | _ => none

/-- The colour that a value is. -/
def toColor? : Value α → Option (Color α)
  | color c => some c
  | _ => none

/-- Whether a value is the keyword `true`. -/
def isTrue : Value α → Bool
  | keyword name => name == "true"
  | _ => false

/-- Whether a value is a dimension of the given unit. -/
def hasUnit (unit : String) : Value α → Bool
  | dimension d => d.unit == unit
  | _ => false

/-! ## Text -/

variable [Scalar α]

/-- The text that a value stands for: no unit, no quotes, no `url( )`. -/
def rawText : Value α → String
  | dimension d => numberText d.value
  | color c => c.css {}
  | keyword name => name
  | quoted q => q.text
  | anonymous text => text
  | url inner => inner.rawText

/-- A value in CSS. -/
def css (options : CssOptions) : Value α → String
  | dimension d => d.css
  | color c => c.css options
  | keyword name => name
  | quoted q => q.written
  | anonymous text => text
  | url inner => "url(" ++ inner.css options ++ ")"

end Value

end StyleFunctions

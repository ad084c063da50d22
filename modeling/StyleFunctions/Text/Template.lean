import StyleFunctions.Text.UrlEncoding
import StyleFunctions.Value

/-!
# Text templates

A template holds tokens: a percent sign and one of the letters `s`, `d` and `a` in either case.

* Each argument takes the place of the first token that is then in the text (`substitute`), so
  that a token within an argument's text waits for the next argument.
* `s` stands for the raw text of an argument, the other letters for its CSS, and a capital
  letter asks for the form encoding of that (`supply`).
* Doubled percent signs become single ones at the very end (`collapse`).
-/

namespace StyleFunctions.Template

/-! ## Tokens -/

/-- The letters that make a token. -/
def isTokenLetter (c : Char) : Bool := ['s', 'd', 'a'].contains c.toLower

/-- The text before the first token, the letter of the token, and the text after it. -/
def splitToken? : List Char → Option (List Char × Char × List Char)
  | [] => none
  | [_] => none
  | c :: letter :: rest =>
    if c = '%' && isTokenLetter letter then some ([], letter, rest)
    else (splitToken? (letter :: rest)).map fun (before, l, after) => (c :: before, l, after)

/-- A text with every doubled percent sign, from left to right, made a single one. -/
def collapse : List Char → List Char
  | [] => []
  | [c] => [c]
  | c :: d :: rest => if c = '%' && d = '%' then '%' :: collapse rest else c :: collapse (d :: rest)

/-! ## Substitution -/

variable {α : Type} [Scalar α]

/-- What an argument supplies for a token letter. -/
def supply (options : CssOptions) (letter : Char) (argument : Value α) : String :=
  let text := if letter.toLower = 's' then argument.rawText else argument.css options
  if letter.isUpper then UrlEncoding.encodeForm text else text

/-- A text with an argument in the place of the first token, if there is one. -/
def substitute (options : CssOptions) (text : List Char) (argument : Value α) : List Char :=
  match splitToken? text with
  | some (before, letter, after) => before ++ (supply options letter argument).toList ++ after
  | none => text

/-- A template with its arguments filled in, one after another. -/
def fill (options : CssOptions) (template : List Char) (arguments : List (Value α)) :
    List Char :=
  collapse (arguments.foldl (substitute options) template)

/-- The string that a template value and its arguments give. -/
def format (options : CssOptions) (template : Value α) (arguments : List (Value α)) : Value α :=
  .string (String.ofList (fill options template.rawText.toList arguments))

end StyleFunctions.Template

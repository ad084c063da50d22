/-!
# Options of the CSS output

Output is either laid out for readers or compressed; a list of options carries that choice.
-/

namespace StyleFunctions

/-- How values are written as CSS. -/
structure CssOptions where
  compress : Bool := false
  deriving DecidableEq, Repr

/-- The separator of a list; compressed output has no blank after the comma. -/
def CssOptions.comma (options : CssOptions) : String :=
  if options.compress then "," else ", "

end StyleFunctions

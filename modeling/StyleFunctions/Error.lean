import StyleFunctions.Value
import StyleFunctions.Source.Span

/-!
# Errors of function calls

* `Cause` is why a call fails; its wording is one function, `Cause.message`.
* `Diagnosis` is a cause with the words that it is reported in.
* `Error` is a diagnosis with the place in the style sheet and the calls that led to it, as far
  as they are known.
* `CallSite.attach` adds what the place of a call knows and keeps what the error knew before.
-/

namespace StyleFunctions

/-! ## Causes -/

/-- Why a call fails. -/
inductive Cause
  | typeMismatch (message : String)
  | argumentType (expected got function rendered : String)
  | arityMismatch (name : String) (least : Nat) (most : Option Nat) (got : Nat)
  | undefinedFunction (name : String)
  | moduloByZero
  | invalidArgument (function message : String)
  | custom (message : String)
  deriving DecidableEq, Repr

namespace Cause

/-- The word for `n` arguments. -/
def argumentWord (n : Nat) : String := if n = 1 then "argument" else "arguments"

/-- How many arguments a function expects. -/
def countText (least : Nat) : Option Nat → String
  | some most =>
    if most = least then toString least ++ " " ++ argumentWord least
    else toString least ++ " to " ++ toString most ++ " arguments"
  | none => "at least " ++ toString least ++ " " ++ argumentWord least

/-- The wording of a cause. -/
def message : Cause → String
  | typeMismatch message => message
  | argumentType expected got function rendered =>
    "Object of type " ++ got ++ " passed to " ++ function ++ " function. Expecting `" ++ expected
      ++ "`. " ++ rendered
  | arityMismatch name least most got =>
    name ++ " expects " ++ countText least most ++ ", got " ++ toString got
  | undefinedFunction name => "undefined function: " ++ name
  | moduloByZero => "modulo by zero"
  | invalidArgument function message => function ++ ": " ++ message
  | custom message => message

/-- A colour function met something that is not a number. -/
def numbersExpected : Cause := typeMismatch "color functions take numbers as parameters"

/-- A mathematical function met something that is not a number. -/
def mathTakesNumbers : Cause := typeMismatch "math functions take numbers as parameters"

/-- An argument is of another type than the expected one. -/
def ofArgument {α : Type} [Scalar α] (expected : String) (actual : Value α)
    (function : String) : Cause :=
  argumentType expected actual.typeName function (actual.css {})

end Cause

/-! ## Call sites -/

/-- One call on the way to an error. -/
structure Frame where
  name : String
  span : Option Span := none
  line : Option UInt32 := none
  deriving DecidableEq, Repr

namespace Frame

/-- The line of a frame, where it is known. -/
def lineText (frame : Frame) : String :=
  match frame.line with
  | some line => " on line " ++ toString line.toNat
  | none => ""

/-- The span of a frame, where it is known. -/
def spanText (frame : Frame) : String :=
  match frame.span with
  | some span => " at " ++ span.text
  | none => ""

/-- A line of a backtrace. -/
def text (depth : Nat) (frame : Frame) : String :=
  "  " ++ toString depth ++ ": " ++ frame.name ++ frame.lineText ++ frame.spanText ++ "\n"

end Frame

/-- The calls that led to an error, the innermost first. -/
abbrev Backtrace := List Frame

/-- A backtrace under its heading; without frames there is nothing to show. -/
def Backtrace.text (frames : Backtrace) : String :=
  if frames.isEmpty then ""
  else
    "stack backtrace:\n" ++
      String.join (frames.zipIdx.map fun (frame, depth) => frame.text depth)

/-! ## Errors -/

/-- A cause and the words for it: its own, unless others are given. -/
structure Diagnosis where
  cause : Cause
  message : String := cause.message
  deriving DecidableEq, Repr

instance : Coe Cause Diagnosis := ⟨fun cause => { cause }⟩

/-- A failed call. -/
structure Error extends Diagnosis where
  span : Option Span := none
  backtrace : Option Backtrace := none
  deriving DecidableEq, Repr

namespace Error

/-- The innermost known call. -/
def innermost? (e : Error) : Option Frame := e.backtrace.bind (·.head?)

/-- The wording of an error, with the innermost known call. -/
def text (e : Error) : String :=
  match e.innermost? with
  | some frame => e.message ++ " (in " ++ frame.name ++ frame.lineText ++ ")"
  | none => e.message

end Error

/-- The place of a call in a style sheet. -/
structure CallSite where
  function : String
  span : Option Span := none
  line : Option UInt32 := none
  deriving DecidableEq, Repr

namespace CallSite

/-- The line of the call found from its span in the text of the style sheet. -/
def locate (site : CallSite) (source : String) : CallSite :=
  match site.span with
  | some span => { site with line := some (span.position source).line }
  | none => site

/-- The frame of a call. -/
def frame (site : CallSite) : Frame := ⟨site.function, site.span, site.line⟩

/-- Notes the place of a call in an error.  What an error knows already is more precise and
stays: its span, and its backtrace unless that is empty. -/
def attach (site : CallSite) (e : Error) : Error :=
  { e with
    span := e.span.or site.span
    backtrace :=
      match e.backtrace with
      | some (first :: rest) => some (first :: rest)
      | _ => some [site.frame] }

end CallSite

end StyleFunctions

import StyleFunctions.Files.Loader
import StyleFunctions.Text.Base64
import StyleFunctions.Text.UrlEncoding
import StyleFunctions.Value

/-!
# Files embedded in a style sheet

A reference to a file is replaced by a `data:` URL that holds the file's content
(`DataUrl.embed`).  Where files may not be read, or the file cannot be read or is empty
(`DataUrl.content?`), the reference stays.
-/

namespace StyleFunctions

/-- Whether a style sheet may read files. -/
inductive EvalMode
  | compile | sandboxed
  deriving DecidableEq, Repr

/-- Whether files may be read in a mode. -/
def EvalMode.allowsFiles : EvalMode → Bool
  | compile => true
  | sandboxed => false

namespace DataUrl

/-- The end of a media type that asks for base 64. -/
def base64Mark : List Char := ";base64".toList

/-- Whether a media type asks for base 64. -/
def wantsBase64 (mime : String) : Bool := base64Mark.isSuffixOf mime.toList

/-- The content of a file as the media type asks for it. -/
def payload (mime : String) (content : Bytes) : String :=
  if wantsBase64 mime then String.ofList (Base64.encode content)
  else UrlEncoding.encodeBytes content

/-- The text of a data URL, between single quotes. -/
def text (mime : String) (content : Bytes) : String :=
  "'data:" ++ mime ++ "," ++ payload mime content ++ "'"

/-- The content of a file that may be read and is not empty. -/
def content? (mode : EvalMode) (loader : Loader) (path : String) : Option Bytes :=
  if mode.allowsFiles then
    match loader.load path with
    | .ok [] => none
    | .ok content => some content
    | .error _ => none
  else none

variable {α : Type} [Scalar α]

/-- The data URL of a file, or the reference to it.  Without a path, the first argument is both
media type and path. -/
def embed (mode : EvalMode) (loader : Loader) (first : Value α) (path : Option (Value α)) :
    Value α :=
  let mime := first.rawText
  let path := match path with
    | some value => value.rawText
    | none => mime
  match content? mode loader path with
  | some content => .url (.anonymous (text mime content))
  | none => .url (.anonymous path)

end DataUrl

end StyleFunctions

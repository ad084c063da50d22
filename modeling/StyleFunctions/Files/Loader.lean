import StyleFunctions.Files.Disk

/-!
# File loaders

Where the contents of files come from (`Loader.load`): a disk, with relative paths taken from an
optional root; a memory of registered files, which can be changed (`insert?`, `clear?`); or
nowhere, when every read is denied.
-/

namespace StyleFunctions

/-! ## Registered files -/

/-- Registered files with their paths, the latest first. -/
structure MemoryFiles where
  files : List (String × Bytes) := []
  deriving DecidableEq, Repr

namespace MemoryFiles

/-- Registers a file in place of any other with the same path. -/
def insert (memory : MemoryFiles) (path : String) (content : Bytes) : MemoryFiles :=
  ⟨(path, content) :: memory.files.filter fun f => f.1 != path⟩

/-- The content registered for a path. -/
def get? (memory : MemoryFiles) (path : String) : Option Bytes := memory.files.lookup path

/-- The files of a list, of those with the same path the last. -/
def ofList (files : List (String × Bytes)) : MemoryFiles :=
  files.foldl (fun memory f => memory.insert f.1 f.2) {}

end MemoryFiles

/-! ## Loaders -/

/-- Why a file is not loaded. -/
inductive LoadError
  | notFound (path : String)
  | unreadable (path : String) (reason : ReadFailure)
  | denied (path : String)
  deriving DecidableEq, Repr

/-- The wording of a failed load. -/
def LoadError.message : LoadError → String
  | notFound path => "file not found: " ++ path
  | unreadable path reason => "failed to read " ++ path ++ ": " ++ reason.message
  | denied path => "file access denied: " ++ path

/-- A source of files. -/
inductive Loader
  | disk (store : Disk) (root : Option String)
  | memory (files : MemoryFiles)
  | denied
  deriving DecidableEq, Repr

namespace Loader

/-- The standard disk, without a root. -/
def standard : Loader := disk Disk.standard none

/-- The path that is read on disk for a requested one. -/
def resolve (root : Option String) (path : String) : String :=
  match root with
  | some root => Path.join root path
  | none => path

/-- The content of the file at a path. -/
def load (loader : Loader) (path : String) : Except LoadError Bytes :=
  match loader with
  | disk store root =>
    let resolved := resolve root path
    match store.read resolved with
    | .ok content => .ok content
    | .error .missing => .error (.notFound resolved)
    | .error reason => .error (.unreadable resolved reason)
  | memory files =>
    match files.get? path with
    | some content => .ok content
    | none => .error (.notFound path)
  | denied => .error (.denied path)

/-- Registers a file, in a memory of files only. -/
def insert? (loader : Loader) (path : String) (content : Bytes) : Option Loader :=
  match loader with
  | memory files => some (memory (files.insert path content))
  | _ => none

/-- Forgets all files, in a memory of files only. -/
def clear? (loader : Loader) : Option Loader :=
  match loader with
  | memory _ => some (memory {})
  | _ => none

end Loader

end StyleFunctions

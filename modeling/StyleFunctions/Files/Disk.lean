/-!
# Files on disk

A disk is seen as the finite list of the files and directories known on it, by the components of
their absolute paths.

* `Path.join` takes a path relative to a root, on the text alone: nothing is normalised.
* `Disk.read` walks a path component by component, as the operating system does; relative paths
  start in an empty working directory.
* `ReadFailure.message` gives the messages of the operating system.
-/

namespace StyleFunctions

/-- The bytes of a file. -/
abbrev Bytes := List UInt8

/-! ## Paths -/

namespace Path

/-- Whether a path starts at the root. -/
def isAbsolute (path : String) : Bool := path.toList.head? = some '/'

/-- A path taken relative to a root; an absolute path stands for itself.  One slash goes between
them, unless the root is empty or ends in one. -/
def join (root path : String) : String :=
  if isAbsolute path then path
  else if root.isEmpty || root.toList.getLast? = some '/' then root ++ path
  else root ++ "/" ++ path

/-- The parts of a path between its slashes. -/
def components (path : String) : List String := path.splitOn "/"

/-- The greatest length of a path in bytes. -/
def maxLength : Nat := 4095

/-- The greatest length of a component in bytes. -/
def maxComponentLength : Nat := 255

end Path

/-! ## Failures -/

/-- Why a path cannot be read. -/
inductive ReadFailure
  | missing | isDirectory | notDirectory | nameTooLong | embeddedNul
  deriving DecidableEq, Repr

/-- The message of the operating system. -/
def ReadFailure.message : ReadFailure → String
  | missing => "No such file or directory (os error 2)"
  | isDirectory => "Is a directory (os error 21)"
  | notDirectory => "Not a directory (os error 20)"
  | nameTooLong => "File name too long (os error 36)"
  | embeddedNul => "file name contained an unexpected NUL byte"

/-! ## Disks -/

/-- What a path leads to. -/
inductive Entry
  | directory
  | file (content : Bytes)
  deriving DecidableEq, Repr

/-- The known entries of a disk, by the components of their absolute paths. -/
structure Disk where
  entries : List (List String × Entry)
  /-- Where relative paths start. -/
  workingDirectory : List String
  deriving DecidableEq, Repr

namespace Disk

/-- The disk that every system has: a root, the device that is always empty, and a working
directory with nothing in it. -/
def standard : Disk where
  entries :=
    [([], .directory), (["dev"], .directory), (["dev", "null"], .file []),
      (["work"], .directory)]
  workingDirectory := ["work"]

/-- The entry at an absolute place. -/
def entry? (disk : Disk) (place : List String) : Option Entry :=
  (disk.entries.find? fun e => e.1 == place).map (·.2)

/-- The entry that is reached from a place over the components of a path. -/
def walk (disk : Disk) (place : List String) : List String → Except ReadFailure Entry
  | [] =>
    match disk.entry? place with
    | some entry => .ok entry
    | none => .error .missing
  | part :: rest =>
    match disk.entry? place with
    | none => .error .missing
    | some (.file _) => .error .notDirectory
    | some .directory =>
      if part = "" || part = "." then disk.walk place rest
      else if part = ".." then disk.walk place.dropLast rest
      else if Path.maxComponentLength < part.utf8ByteSize then .error .nameTooLong
      else disk.walk (place ++ [part]) rest

/-- The content of the file at a path.  What it assumes of the system are the failures that are
documented for opening and reading a file: a NUL byte in the path, no such entry, a directory, a
file within a path, and paths or components that are too long.  Files that may not be read, links
and devices that fail are not modelled. -/
def read (disk : Disk) (path : String) : Except ReadFailure Bytes :=
  if path.toList.contains '\x00' then .error .embeddedNul
  else if path.isEmpty then .error .missing
  else if Path.maxLength < path.utf8ByteSize then .error .nameTooLong
  else
    let start := if Path.isAbsolute path then [] else disk.workingDirectory
    match disk.walk start (Path.components path) with
    | .ok (.file content) => .ok content
    | .ok .directory => .error .isDirectory
    | .error failure => .error failure

end Disk

end StyleFunctions

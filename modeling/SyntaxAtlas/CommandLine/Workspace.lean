-- A workspace: a directory with files, as the command line sees it.

import SyntaxAtlas.Text.Quoted

namespace SyntaxAtlas.CommandLine

/-! ## Paths -/

/-- The parts of a path between slashes. -/
def pathParts (path : String) : List String := path.splitOn "/"

/-- Adds a part to a path: one dot stays, two dots go up. -/
def addPart (parts : List String) (part : String) : List String :=
  if part.isEmpty || part == "." then parts
  else if part == ".." then parts.dropLast
  else parts ++ [part]

/-- The parts of a path as seen from a directory, without dots. -/
def resolveParts (directory : List String) (path : String) : List String :=
  let start := if path.startsWith "/" then [] else directory
  (pathParts path).foldl addPart start

/-- A path from its parts. -/
def joinParts (parts : List String) : String := "/" ++ String.intercalate "/" parts

/-! ## Files -/

/-- What is found at a path. -/
inductive Found
  | file (bytes : List UInt8)
  | nothing
  /-- A part of the path is longer than a name can be. -/
  | nameTooLong
deriving DecidableEq, Repr

/-- The most bytes that a name can have. -/
def longestName : Nat := 255

/-- The most bytes that a whole path can have. -/
def longestPath : Nat := 4095

/-- The directories of the system, outside of every workspace. -/
def systemDirectories : List (List String) :=
  ["boot", "dev", "etc", "home", "media", "mnt", "opt", "proc", "root", "run", "srv", "sys",
    "tmp", "usr", "var"].map ([·])

/-- A workspace: where it is, its files, and its directories. Files and
directories have paths as seen from the workspace. -/
structure Workspace where
  location : List String
  files : List (String × List UInt8) := []
  directories : List String := []

namespace Workspace

/-- The parts of a path from the root of the system. -/
def whole (w : Workspace) (path : String) : List String := resolveParts w.location path

/-- A path as it is shown, from the root of the system. -/
def shown (w : Workspace) (path : String) : String := joinParts (w.whole path)

/-- The files by the parts of their paths. -/
def fileParts (w : Workspace) : List (List String × List UInt8) :=
  w.files.map fun (path, bytes) => (w.whole path, bytes)

/-- Whether some parts lead to a directory: one of the system or of the
workspace, or one that such a directory or a file lies in. -/
def isDirectory (w : Workspace) (parts : List String) : Bool :=
  let known := systemDirectories ++ [w.location] ++ w.directories.map w.whole
    ++ w.fileParts.map (·.1.dropLast)
  known.any fun d => parts.isPrefixOf d

/-- Whether a path is too long, or a name in it at a place where names are
looked up. -/
def isTooLong (w : Workspace) (parts : List String) : Bool :=
  longestPath < (joinParts parts).utf8ByteSize ||
    parts.zipIdx.any fun (part, i) =>
      longestName < part.utf8ByteSize && w.isDirectory (parts.take i)

/-- Looks a path up. -/
def find (w : Workspace) (path : String) : Found :=
  let parts := w.whole path
  match w.fileParts.lookup parts with
  | some bytes => .file bytes
  | none => if w.isTooLong parts then .nameTooLong else .nothing

/-- Whether a file is at a path. -/
def isFile (w : Workspace) (path : String) : Bool := (w.fileParts.lookup (w.whole path)).isSome

end Workspace

end SyntaxAtlas.CommandLine

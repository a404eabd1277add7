import SyntaxView.Text.Utf8
import SyntaxView.Language

/-!
# Files

The files a run can read.  A `FileSystem` is any two answers to any path: whether it names a
directory, and what is read under it, be it bytes or an `IoError`.  Nothing is supposed of it, so
what is said of every file system holds whatever a system may refuse and in whatever words.

A `FileStore` is one that can be written down: a tree of directories below a working directory, and
nothing that can be named outside it except the directories on the way up.  A path is walked in it
from left to right.
-/

namespace SyntaxView

/-- Why a path could not be read. -/
inductive IoError where
  /-- Nothing stands under the path. -/
  | notFound
  /-- The path goes through something that is no directory. -/
  | notADirectory
  /-- The path names a directory. -/
  | isADirectory
  /-- The file is no UTF-8 text. -/
  | notText
  /-- Anything else, in the words of the system. -/
  | other (remark : String)
  deriving Repr, DecidableEq

namespace IoError

def message : IoError → String
  | notFound => "No such file or directory (os error 2)"
  | notADirectory => "Not a directory (os error 20)"
  | isADirectory => "Is a directory (os error 21)"
  | notText => "stream did not contain valid UTF-8"
  | other remark => remark

end IoError

/-! ### Paths -/

namespace Path

/-- The stretches of a path between its slashes, empty ones included. -/
def segments (path : String) : List String :=
  (path.toList.splitOn '/').map String.ofList

/-- The last component of a path, slashes and dots at the end passed over. -/
def fileName? (path : String) : Option String :=
  match ((segments path).filter fun s => s ≠ "" ∧ s ≠ ".").getLast? with
  | some ".." => none
  | name => name

/-- The part of the last component after its last dot, unless the component starts with that
dot. -/
def extension? (path : String) : Option String := do
  let name ← fileName? path
  let reversed := name.toList.reverse
  match reversed.dropWhile (· ≠ '.') with
  | [] | [_] => none
  | _ :: _ :: _ => some (.ofList (reversed.takeWhile (· ≠ '.')).reverse)

end Path

/-! ### File systems -/

/-- What can be asked about a path. -/
structure FileSystem where
  /-- Whether the path names a directory. -/
  isDirectory : String → Bool
  /-- The bytes of the file under the path. -/
  read : String → Except IoError (List UInt8)

namespace FileSystem

/-- The text of the file under a path. -/
def readText (files : FileSystem) (path : String) : Except IoError String := do
  match Text.Utf8.decode? (← files.read path) with
  | some text => return .ofList text
  | none => throw .notText

end FileSystem

/-! ### Stores -/

/-- Directories and files below the working directory, each under the components of its path. -/
structure FileStore where
  directories : List (List String)
  files : List (List String × List UInt8)
  deriving Repr

/-- What stands under a path. -/
inductive FileEntry where
  | file (bytes : List UInt8)
  | directory
  deriving Repr

namespace FileStore

/-- A store of nothing but the working directory. -/
def empty : FileStore := ⟨[], []⟩

/-- The components of a path, without empty ones and dots. -/
def components (path : String) : List String :=
  (Path.segments path).filter fun s => s ≠ "" ∧ s ≠ "."

/-- A directory and all those it stands in, the working directory first. -/
def lineage : List String → List (List String)
  | [] => [[]]
  | s :: rest => [] :: (lineage rest).map (s :: ·)

/-- The store with those directories and files, and with every directory on the way to them.  Of two
files with one path the later takes the place of the other. -/
def ofEntries (directories : List String) (files : List (String × List UInt8)) : FileStore :=
  let files := files.reverse.map fun (path, bytes) => (components path, bytes)
  let directories := directories.map components
  { directories := directories.flatMap lineage ++ files.flatMap fun f => lineage f.1.dropLast
    files := files }

/-- Where a walk along a path has come to. -/
inductive Place where
  /-- A directory of the store, given by its components. -/
  | inside (path : List String)
  /-- A directory above the working directory. -/
  | outside
  /-- A file. -/
  | file (bytes : List UInt8)
  deriving Repr

/-- The next segment of a path.  An empty segment stays in place like a dot, and both of them, like
any other segment, need a directory to stand in. -/
def walk (store : FileStore) : Place → String → Except IoError Place
  | .file _, _ => .error .notADirectory
  | .outside, s => if s = "" ∨ s = "." ∨ s = ".." then .ok .outside else .error .notFound
  | .inside path, s =>
    if s = "" ∨ s = "." then .ok (.inside path)
    else if s = ".." then
      if path = [] then .ok .outside else .ok (.inside path.dropLast)
    else
      let path := path ++ [s]
      match store.files.lookup path with
      | some bytes => .ok (.file bytes)
      | none => if store.directories.contains path then .ok (.inside path) else .error .notFound

/-- What stands under a path. -/
def find (store : FileStore) (path : String) : Except IoError FileEntry := do
  let place ← match Path.segments path with
    | [""] => .error .notFound
    | "" :: rest => rest.foldlM store.walk .outside
    | segments => segments.foldlM store.walk (.inside [])
  match place with
  | .file bytes => return .file bytes
  | .inside _ | .outside => return .directory

/-- The file system of a store. -/
def system (store : FileStore) : FileSystem where
  isDirectory path :=
    match store.find path with
    | .ok .directory => true
    | _ => false
  read path :=
    match store.find path with
    | .ok (.file bytes) => .ok bytes
    | .ok .directory => .error .isADirectory
    | .error error => .error error

end FileStore

end SyntaxView

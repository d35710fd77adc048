/-!
Where the tool reads and writes files. The tool works with every monad that can look a file up and
store one; a `Directory` is a value that can, for use without a file system.
-/
namespace RowReduction.Tool

inductive Found where
  | absent
  | unreadable
  | file (contents : List UInt8)
  deriving DecidableEq, Repr

/-- The access to files that the tool needs. `store` tells whether the file could be created. -/
class FileStore (m : Type → Type) where
  look : (path : String) → m Found
  store : (path : String) → (contents : List UInt8) → m Bool

structure Directory where
  files : List (String × List UInt8)
  deriving DecidableEq, Repr

namespace Directory

def maxNameBytes : Nat := 255

/-- The largest number of bytes of a path. A longer one leads nowhere, whatever its steps are. -/
def maxPathBytes : Nat := 4095

def steps (path : String) : List String :=
  (path.splitOn "/").filter fun step => step != "" && step != "."

/-- Whether a path leads to the directory itself or upwards from it, so to no file. -/
def isDirectory (path : String) : Bool :=
  !path.isEmpty && path.utf8ByteSize ≤ maxPathBytes && (steps path).all (· == "..")

/-- The name of the file that a path leads to, if it is one of this directory. -/
def fileName? (path : String) : Option String :=
  match steps path with
  | [name] =>
    if path.startsWith "/" || name == ".." || !path.endsWith name then none
    else if path.utf8ByteSize ≤ maxPathBytes ∧ name.utf8ByteSize ≤ maxNameBytes then some name
    else none
  | _ => none

def look (d : Directory) (path : String) : Found :=
  match (fileName? path).bind fun name => d.files.lookup name with
  | some contents => .file contents
  | none => if isDirectory path then .unreadable else .absent

def store (d : Directory) (path : String) (contents : List UInt8) : Bool × Directory :=
  match fileName? path with
  | some name => (true, ⟨(name, contents) :: d.files.filter fun file => file.1 != name⟩)
  | none => (false, d)

end Directory

instance : FileStore (StateM Directory) where
  look path := do return (← get).look path
  store path contents := modifyGet fun d => d.store path contents

end RowReduction.Tool

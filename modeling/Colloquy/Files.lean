/-!
# Files — trees of files, and paths into them

A `Node` is a file or a directory of named nodes. `Node.at?` follows a path, written with slashes,
from a directory; `Files` is whatever can be looked up by path. The name of a file is the last part
of its path, and is cut at its last dot into a stem and an extension.
-/

namespace Colloquy

/-- A file, or a directory of nodes with names of their own. -/
inductive Node
  | file (bytes : ByteArray)
  | directory (entries : List (String × Node))

instance : Inhabited Node := ⟨.directory []⟩

/-- What is found at a path. -/
abbrev Files := String → Option Node

/-! ## Paths -/

/-- The parts of a path, which slashes separate. The first argument holds the part being read, last
character first. -/
def pathPartsFrom : List Char → List Char → List String
  | part, [] => [String.ofList part.reverse]
  | part, c :: cs =>
    if c = '/' then String.ofList part.reverse :: pathPartsFrom [] cs
    else pathPartsFrom (c :: part) cs

/-- The parts of a path. -/
def pathParts (path : String) : List String := pathPartsFrom [] path.toList

/-- Whether one path comes before another or is the same, part by part. -/
def partsLe : List String → List String → Bool
  | [], _ => true
  | _ :: _, [] => false
  | a :: as, b :: bs => decide (a < b) || a == b && partsLe as bs

/-- Whether a part of a path stays where it is. -/
def staysHere (part : String) : Bool := part == "" || part == "."

/-- The name that a path ends in. -/
def fileName? (path : String) : Option String :=
  match ((pathParts path).filter fun part => !staysHere part).getLast? with
  | some part => if part = ".." then none else some part
  | none => none

/-- A name cut at its last dot, which has to stand after something. -/
def splitName (name : String) : String × Option String :=
  let reversed := name.toList.reverse
  let stem := (reversed.dropWhile (· ≠ '.')).drop 1
  if stem = [] then (name, none)
  else (String.ofList stem.reverse, some (String.ofList (reversed.takeWhile (· ≠ '.')).reverse))

/-- The name that a path ends in, without its extension. -/
def fileStem (path : String) : String :=
  match fileName? path with
  | some name => (splitName name).1
  | none => ""

/-- Whether a name has an extension. -/
def hasExtension (extension name : String) : Bool := (splitName name).2 == some extension

/-- A path into a directory. -/
def joinPath (directory name : String) : String :=
  if directory.toList.getLast? = some '/' then directory ++ name else directory ++ "/" ++ name

/-! ## Trees -/

namespace Node

/-- Whether a node is a directory. -/
def isDirectory : Node → Bool
  | directory _ => true
  | file _ => false

/-- The text of a file, if it is text. -/
def text? : Node → Option String
  | file bytes => String.fromUTF8? bytes
  | directory _ => none

/-- The entries of a directory, in the order of their names. -/
def sortedEntries (entries : List (String × Node)) : List (String × Node) :=
  entries.mergeSort fun a b => decide (a.1 ≤ b.1)

/-- Follows the parts of a path. The list holds the directories above, nearest first. -/
def follow? : List Node → Node → List String → Option Node
  | _, here, [] => some here
  | _, file _, _ :: _ => none
  | above, directory entries, part :: parts =>
    if staysHere part then follow? above (directory entries) parts
    else if part = ".." then
      match above with
      | [] => none
      | up :: above => follow? above up parts
    else
      match entries.lookup part with
      | some node => follow? (directory entries :: above) node parts
      | none => none

/-- What a path leads to from a directory. No path leads out of it. -/
def at? (root : Node) (path : String) : Option Node :=
  match path.toList with
  | [] | '/' :: _ => none
  | _ => follow? [] root (pathParts path)

/-- The entries of a node, none if it is a file. -/
def entries : Node → List (String × Node)
  | directory entries => entries
  | file _ => []

/-- A tree with something put in some place, below directories that are made for it. -/
def put (make : Option Node → Node) : List String → Option Node → Node
  | [], here => make here
  | part :: parts, here =>
    let entries := (here.map Node.entries).getD []
    directory ((part, put make parts (entries.lookup part)) ::
      entries.filter fun e => e.1 != part)

end Node

/-- The text of the file at a path. -/
def Files.text? (files : Files) (path : String) : Option String := (files path).bind Node.text?

end Colloquy

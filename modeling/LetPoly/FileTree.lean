import LetPoly.Failure
import LetPoly.Text.Escape

/-!
# Trees of files

Folders and text files under one root, with a working folder; there are no links.  A path is read
from the root or from the working folder, `..` leads one folder up, and `.` and repeated slashes mean
nothing.

* `FileTree.locate`      what a path leads to;
* `FileTree.openFile`    makes sure that a file can be written, and creates it if it is missing;
* `FileTree.writeFile`   replaces the text of a file;
* `FileTree.listing`     the files below the working folder, in order.
-/

namespace LetPoly

/-- a path as names of nested folders, the outermost first -/
abbrev Names := List String

structure FileTree where
  folders : List Names := [[]]
  files : List (Names × String) := []
  /-- folders in which no file may be made; those that are there may be written -/
  readOnly : List Names := []
  working : Names := []

/-- why a path cannot be opened as a file -/
inductive OpenFault where
  /-- a fault that the user is told about -/
  | refused (fault : OutputFault)
  /-- the path goes on below a plain file -/
  | belowFile (path : String)
  | nameTooLong (path : String)
  | embeddedNull
  /-- any other fault, in the words of the system -/
  | other (message : String)

namespace OpenFault

def message : OpenFault → String
  | refused fault => fault.label
  | belowFile path => "[Errno 20] Not a directory: " ++ Text.quoted path
  | nameTooLong path => "[Errno 36] File name too long: " ++ Text.quoted path
  | embeddedNull => "embedded null byte"
  | other message => message

end OpenFault

namespace Path

/-- the parts of a path between slashes -/
def split : List Char → List (List Char)
  | [] => [[]]
  | c :: cs =>
    match split cs with
    | [] => [[]]
    | p :: ps => if c = '/' then [] :: p :: ps else (c :: p) :: ps

/-- the parts that mean something -/
def names (path : String) : Names :=
  ((split path.toList).map String.ofList).filter fun p => p ≠ "" ∧ p ≠ "."

/-- the slashes in front of a path that starts at the root; exactly two are kept -/
def root (path : String) : String :=
  match path.toList with
  | '/' :: '/' :: '/' :: _ => "/"
  | '/' :: '/' :: _ => "//"
  | '/' :: _ => "/"
  | _ => ""

/-- a path without parts that mean nothing -/
def normalized (path : String) : String :=
  let s := root path ++ "/".intercalate (names path)
  if s.isEmpty then "." else s

/-- the longest name of a file, in bytes -/
def maxName : Nat := 255

/-- the longest path, in bytes once it is normalized -/
def maxPath : Nat := 4095

end Path

/-- what a path leads to -/
inductive Place where
  | folder (path : Names)
  | file (path : Names)
  /-- nothing, in a folder that exists -/
  | vacant (path : Names)
  /-- nothing, in a folder that does not exist -/
  | nowhere
  | belowFile
  | tooLong
  deriving DecidableEq

namespace FileTree

def isFolder (t : FileTree) (p : Names) : Bool := t.folders.contains p

def text? (t : FileTree) (p : Names) : Option String := t.files.lookup p

/-- follow names, starting in a folder -/
def walk (t : FileTree) : Names → Names → Place
  | here, [] => .folder here
  | here, n :: ns =>
    if n = ".." then t.walk here.dropLast ns
    else if Path.maxName < n.utf8ByteSize then .tooLong
    else
      let p := here ++ [n]
      if t.isFolder p then t.walk p ns
      else if (t.text? p).isSome then if ns.isEmpty then .file p else .belowFile
      else if ns.isEmpty then .vacant p else .nowhere

def locate (t : FileTree) (path : String) : Place :=
  if Path.maxPath < (Path.normalized path).utf8ByteSize then .tooLong
  else t.walk (if (Path.root path).isEmpty then t.working else []) (Path.names path)

/-- the files with a new text for one of them, which is added at the end if it is missing -/
def put (p : Names) (text : String) : List (Names × String) → List (Names × String)
  | [] => [(p, text)]
  | f :: fs => if f.1 = p then (p, text) :: fs else f :: put p text fs

def setText (t : FileTree) (p : Names) (text : String) : FileTree :=
  { t with files := put p text t.files }

/-- whether the folder of `p` is read-only -/
def locked (t : FileTree) (p : Names) : Bool := t.readOnly.contains p.dropLast

def openFile (t : FileTree) (path : String) : Except OpenFault FileTree :=
  if path.contains '\x00' then .error .embeddedNull
  else match t.locate path with
    | .folder _ => .error (.refused .pathIsFolder)
    | .file _ => .ok t
    | .vacant p => if t.locked p then .error (.refused .noPermission) else .ok (t.setText p "")
    | .nowhere => .error (.refused .fileNotFound)
    | .belowFile => .error (.belowFile (Path.normalized path))
    | .tooLong => .error (.nameTooLong (Path.normalized path))

/-- replace the text of a file that is there -/
def writeFile (t : FileTree) (path text : String) : FileTree :=
  match t.locate path with
  | .file p => t.setText p text
  | _ => t

/-- add a folder and all folders that it lies in -/
def addFolder (t : FileTree) (p : Names) : FileTree :=
  { t with folders := (List.range (p.length + 1)).foldl (fun l n => l.insert (p.take n)) t.folders }

/-- the names of a file below the working folder -/
def below? (t : FileTree) (p : Names) : Option Names :=
  if t.working.isPrefixOf p then some (p.drop t.working.length) else none

def listing (t : FileTree) : List (String × String) :=
  let found := t.files.filterMap fun f => (t.below? f.1).map fun p => ("/".intercalate p, f.2)
  found.mergeSort fun a b => decide (a.1 ≤ b.1)

end FileTree
end LetPoly

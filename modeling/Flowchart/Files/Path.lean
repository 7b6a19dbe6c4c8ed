import Flowchart.Text.Split

/-! Paths as they are written. A path names a way through directories, one step for each part between
slashes. -/
namespace Flowchart.Files

inductive Step where
  /-- An empty part or a dot. It stays, and demands a directory. -/
  | stay
  | up
  | into (name : String)
deriving DecidableEq, Repr

def maxName : Nat := 255

namespace Path

def maxLength : Nat := 4095

def isAbsolute (path : String) : Bool := path.toList.head? == some '/'

def endsInSlash (path : String) : Bool := path.toList.getLast? == some '/'

def step (part : String) : Step :=
  if part = "" ∨ part = "." then .stay
  else if part = ".." then .up
  else .into part

def steps (path : String) : List Step := (Text.split '/' path).map step

def closesName (path : String) : Bool :=
  match (Text.split '/' path).reverse with
  | "" :: parts =>
    match (parts.dropWhile (· == "")).head?.map step with
    | some (.into _) => true
    | _ => false
  | _ => false

def join (directory below : String) : String :=
  if directory = "" ∨ endsInSlash directory then directory ++ below else directory ++ "/" ++ below

def ofNames (names : List String) : String := "/".intercalate names

/-- The path of what lies below a directory along the given names; no names, and it is the directory. -/
def below (directory : String) (names : List String) : String :=
  if names.isEmpty then directory else join directory (ofNames names)

def isIdle (part : String) : Bool := part = "" ∨ part = "."

/-- The paths of the directories around a path, given its first part and the other parts in reverse. -/
def parentsFrom (first : String) : List String → List String
  | [] => []
  | part :: parts =>
    if isIdle part then parentsFrom first parts
    else
      let around := (parts.dropWhile isIdle).reverse
      let path := if around.isEmpty ∧ first = "" then "/" else ofNames (first :: around)
      path :: parentsFrom first parts

/-- The directories that the text of a path names around its last part, the nearest first. The
directory in which a relative path starts is not among them. -/
def parents (path : String) : List String :=
  match Text.split '/' path with
  | [] => []
  | first :: parts => parentsFrom first parts.reverse

end Path

namespace Name

/-- A name parted at its last dot. A dot at the very front parts nothing. -/
def parted? (name : String) : Option (String × String) :=
  let cs := name.toList.reverse
  match cs.dropWhile (· != '.') with
  | [] | [_] => none
  | _ :: stem => some (String.ofList stem.reverse, String.ofList (cs.takeWhile (· != '.')).reverse)

def extension? (name : String) : Option String := (parted? name).map Prod.snd

/-- The name with another extension, or with one if it has none. If only a dot stands before the last
one, there is no name to extend: what is left names the directory above. -/
def withExtension (name extension : String) : String :=
  match parted? name with
  | some (stem, _) => if stem = "." then ".." else stem ++ "." ++ extension
  | none => name ++ "." ++ extension

end Name

end Flowchart.Files

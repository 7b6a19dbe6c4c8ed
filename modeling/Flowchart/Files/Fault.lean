/-! What can go wrong between a program and its files. -/
namespace Flowchart.Files

inductive Fault where
  | notFound
  | alreadyExists
  | notDirectory
  | isDirectory
  | nameTooLong
  | tooManyLinks
deriving DecidableEq, Repr

def Fault.message : Fault → String
  | .notFound => "No such file or directory (os error 2)"
  | .alreadyExists => "File exists (os error 17)"
  | .notDirectory => "Not a directory (os error 20)"
  | .isDirectory => "Is a directory (os error 21)"
  | .nameTooLong => "File name too long (os error 36)"
  | .tooManyLinks => "Too many levels of symbolic links (os error 40)"

inductive ReadFault where
  | refused (fault : Fault)
  | invalidText
deriving DecidableEq, Repr

def ReadFault.message : ReadFault → String
  | .refused fault => fault.message
  | .invalidText => "stream did not contain valid UTF-8"

/-- A directory whose sources could not all be read. Paths start with the directory as it was named. -/
inductive WalkFault where
  | invalidText
  | loop (path ancestor : String)
  | refused (path : String) (fault : Fault)
deriving DecidableEq, Repr

namespace WalkFault

def message : WalkFault → String
  | invalidText => ReadFault.invalidText.message
  | loop path ancestor =>
    "File system loop found: " ++ path ++ " points to an ancestor " ++ ancestor
  | refused path fault => "IO error for operation on " ++ path ++ ": " ++ fault.message

def cause? : WalkFault → Option String
  | refused _ fault => some fault.message
  | _ => none

end WalkFault

end Flowchart.Files

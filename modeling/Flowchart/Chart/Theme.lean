import Flowchart.Chart.Shape
import Flowchart.Failure
import Flowchart.Text.Space

/-! Themes: a fill for the boxes of some shapes, and a stroke for the links. -/
namespace Flowchart

inductive Theme where
  | plain
  | bright
  | vivid
deriving DecidableEq, Repr

namespace Theme

def all : List Theme := [plain, bright, vivid]

def name : Theme → String
  | plain => "none"
  | bright => "bright"
  | vivid => "vivid"

def ofText (text : String) : Except Failure Theme :=
  let key := (Text.trim text).map Char.toLower
  match all.find? (fun theme => theme.name = key) with
  | some theme => .ok theme
  | none => .error (.unknownTheme text)

def fill? : Theme → Shape → Option String
  | bright, .condition => some "#c3516b"
  | vivid, .condition => some "hotpink"
  | vivid, .square => some "coral"
  | vivid, .rounded => some "black,color:white"
  | vivid, .circular => some "mediumseagreen"
  | _, _ => none

def stroke? : Theme → Option String
  | vivid => some "red"
  | _ => none

def classSuffix (theme : Theme) (shape : Shape) : String :=
  if (theme.fill? shape).isSome then ":::" ++ shape.name else ""

def classLine? (theme : Theme) (shape : Shape) : Option String :=
  (theme.fill? shape).map fun fill => "classDef " ++ shape.name ++ " fill:" ++ fill ++ "\n"

def linkLine? (theme : Theme) : Option String :=
  theme.stroke?.map fun stroke => "linkStyle default stroke: " ++ stroke ++ "\n"

end Theme

end Flowchart

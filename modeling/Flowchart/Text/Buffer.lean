import Flowchart.Text.Peek

/-! Text collected one character at a time. The length in characters is kept beside the text, so that
asking for it costs nothing. -/
namespace Flowchart.Text

structure Buffer where
  text : String := ""
  length : Nat := 0
  length_eq : length = text.length := by rfl

namespace Buffer

def empty : Buffer := {}

def push (b : Buffer) (c : Char) : Buffer :=
  ⟨b.text.push c, b.length + 1, by simp [b.length_eq]⟩

@[simp] theorem text_push (b : Buffer) (c : Char) : (b.push c).text = b.text.push c := rfl

@[simp] theorem length_push (b : Buffer) (c : Char) : (b.push c).length = b.length + 1 := rfl

theorem toList_push (b : Buffer) (c : Char) :
    (b.push c).text.toList = b.text.toList ++ [c] := by
  simp

def pushPeek (b : Buffer) : Peek → Buffer
  | some c => b.push c
  | none => b

def pushAll (b : Buffer) (text : String) : Buffer := text.toList.foldl push b

def isEmpty (b : Buffer) : Bool := b.length == 0

def equals (b : Buffer) (text : String) : Bool := b.text == text

def take (b : Buffer) : String × Buffer := (b.text, empty)

end Buffer

end Flowchart.Text

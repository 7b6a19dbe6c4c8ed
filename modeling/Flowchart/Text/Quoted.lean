import Flowchart.Text.Unseen

/-! Texts shown between double quotes, with the characters escaped that would not show or would end
the quotation. -/
namespace Flowchart.Text

/-- A quotation mark and a backslash have a backslash before them. Four controls have a letter, and the
other characters that would not be seen are written by their number in hexadecimal. All others stand
for themselves. -/
def escape (c : Char) : List Char :=
  if c = '\x22' ∨ c = '\\' then ['\\', c]
  else if c = '\n' then ['\\', 'n']
  else if c = '\r' then ['\\', 'r']
  else if c = '\t' then ['\\', 't']
  else if c.toNat = 0 then ['\\', '0']
  else if isUnseen c then ['\\', 'u', '\x7b'] ++ Nat.toDigits 16 c.toNat ++ ['\x7d']
  else [c]

def quote (text : String) : String :=
  String.ofList ('\x22' :: text.toList.flatMap escape ++ ['\x22'])

end Flowchart.Text

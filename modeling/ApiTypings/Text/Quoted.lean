import ApiTypings.Text.CaseTable
import ApiTypings.Text.HiddenTable

/-! # Texts shown in messages

A text inside a message stands in double quotes, and what could not be seen there is written as
an escape sequence.
-/

namespace ApiTypings.Text

def showChar (c : Char) : List Char :=
  if c = '\u0000' then ['\\', '0']
  else if c = '\t' then ['\\', 't']
  else if c = '\r' then ['\\', 'r']
  else if c = '\n' then ['\\', 'n']
  else if c = '\\' ∨ c = '"' then ['\\', c]
  else if inRanges hiddenRanges c.toNat then
    ['\\', 'u', '\x7b'] ++ Nat.toDigits 16 c.toNat ++ ['\x7d']
  else [c]

def quoted (s : String) : String :=
  String.ofList ('"' :: s.toList.flatMap showChar ++ ['"'])

end ApiTypings.Text

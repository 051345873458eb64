import MemoryTrial.Text.Hex
import MemoryTrial.Text.Hidden

/-! Strings in double quotes, with the characters that need it escaped by a backslash. -/

namespace MemoryTrial.Text

/-- A character inside quotes: a quote, a backslash and the common control characters have short
escapes, and other characters that would not be seen are written by their number. -/
def quotedChar (c : Char) : List Char :=
  if c = '"' then ['\\', '"']
  else if c = '\\' then ['\\', '\\']
  else if c = '\n' then ['\\', 'n']
  else if c = '\r' then ['\\', 'r']
  else if c = '\t' then ['\\', 't']
  else if c.toNat = 0 then ['\\', '0']
  else if isHidden c then ['\\', 'u', '\x7b'] ++ hexDigits c.toNat ++ ['\x7d']
  else [c]

def quoted (s : String) : String :=
  String.ofList ('"' :: s.toList.flatMap quotedChar ++ ['"'])

end MemoryTrial.Text

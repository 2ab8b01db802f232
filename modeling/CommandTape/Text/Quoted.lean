import CommandTape.Text.CharacterClass
import CommandTape.Text.Hexadecimal

/-!
# Quoted text

A text between double quotes, with every character that cannot be shown written as an escape.
-/

namespace CommandTape.Quoted

/-- A character as it stands inside double quotes. -/
def escape (c : Char) : List Char :=
  if c = '\x00' then ['\\', '0']
  else if c = '\t' then ['\\', 't']
  else if c = '\r' then ['\\', 'r']
  else if c = '\n' then ['\\', 'n']
  else if c = '\\' then ['\\', '\\']
  else if c = '"' then ['\\', '"']
  else if CharacterClass.isShown c then [c]
  else ['\\', 'u', '\x7b'] ++ (Hexadecimal.ofNat c.toNat).toList ++ ['\x7d']

/-- A text between double quotes. -/
def ofString (text : String) : String :=
  String.ofList (['"'] ++ text.toList.flatMap escape ++ ['"'])

end CommandTape.Quoted

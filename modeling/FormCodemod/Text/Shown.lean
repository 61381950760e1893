import FormCodemod.Text.Hidden
import FormCodemod.Text.Letter
import FormCodemod.Text.Quoted

/-!
# Strings in messages

How a message shows a string: between double quotes, with escapes for quotes, for
backslashes and for characters that do not show by themselves.
-/

namespace FormCodemod.Text

def hexText (n : Nat) : String := String.ofList (Nat.toDigits 16 n)

/-- How a message shows a character of a string. -/
def showChar (c : Char) : String :=
  if c == '\x00' then "\\0"
  else if c == '\t' then "\\t"
  else if c == '\r' then "\\r"
  else if c == '\n' then "\\n"
  else if c == '\x22' then "\\\""
  else if c == '\\' then "\\\\"
  else if inRanges hiddenRanges c.toNat then "\\u\x7b" ++ hexText c.toNat ++ "\x7d"
  else String.ofList [c]

def shown (s : String) : String := "\"" ++ String.join (s.toList.map showChar) ++ "\""

end FormCodemod.Text

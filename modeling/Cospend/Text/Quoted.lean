import Cospend.Text.Shapeless

/-!
# Quoted text

A text between double quotes in which every character can be told in print. The quote and the
backslash take a backslash before them, the tab, the two line ends and the null character have a
letter or figure of their own, and a character without a shape is written by its number.
-/

namespace Cospend.Quoted

/-- How a character is written between the quotes. -/
def escape (c : Char) : List Char :=
  if c = '\x00' then ['\\', '0']
  else if c = '\t' then ['\\', 't']
  else if c = '\r' then ['\\', 'r']
  else if c = '\n' then ['\\', 'n']
  else if c = '"' then ['\\', '"']
  else if c = '\\' then ['\\', '\\']
  else if isShapeless c then ['\\', 'u', '\x7b'] ++ Nat.toDigits 16 c.toNat ++ ['\x7d']
  else [c]

def encode (s : String) : String :=
  String.ofList (['"'] ++ s.toList.flatMap escape ++ ['"'])

end Cospend.Quoted

/-!
# Quoted text

Text in double quotes for reports, and lists of it in brackets.  A quote and a
backslash are written with a backslash before them, line ends, tabs and the null
character by the letters for them, and whatever cannot be printed by its number.
Which characters beyond ASCII can be printed is a matter of the tables of Unicode in
use, and so it is given.
-/

namespace TransitionFeatures.Text.Quoted

/-- A character is shown as it is: from space to tilde in ASCII, and beyond ASCII if it
can be printed by itself. -/
def isShown (printable : Char → Bool) (letter : Char) : Bool :=
  if letter.toNat < 128 then 32 ≤ letter.toNat ∧ letter.toNat < 127 else printable letter

/-- The letters that stand for a character between quotes. -/
def escape (printable : Char → Bool) (letter : Char) : List Char :=
  if letter = '"' then ['\\', '"']
  else if letter = '\\' then ['\\', '\\']
  else if letter = '\n' then ['\\', 'n']
  else if letter = '\r' then ['\\', 'r']
  else if letter = '\t' then ['\\', 't']
  else if letter.toNat = 0 then ['\\', '0']
  else if isShown printable letter then [letter]
  else ['\\', 'u', '{'] ++ Nat.toDigits 16 letter.toNat ++ ['}']

/-- A text in quotes. -/
def quote (printable : Char → Bool) (text : String) : String :=
  String.ofList ('"' :: (text.toList.flatMap (escape printable) ++ ['"']))

/-- A list of texts, each in quotes. -/
def quoteList (printable : Char → Bool) (texts : List String) : String :=
  "[" ++ ", ".intercalate (texts.map (quote printable)) ++ "]"

end TransitionFeatures.Text.Quoted

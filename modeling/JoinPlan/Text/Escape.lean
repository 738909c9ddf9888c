import JoinPlan.Text.Hidden
import JoinPlan.Text.Joining
/-!
# Texts shown in quotes

A text that is shown to a person stands in double quotes. Quotes, backslashes, line ends and tabs
are written with a backslash, and what would not be seen on its own is written with its code point.
-/
namespace JoinPlan.Text

/-- Letters that keep the place of a missing part of a Hangul syllable and show nothing. -/
def fillers : List Char :=
  ['\u115f', '\u1160', '\u3164', '\uffa0']

/-- Whether a character shows nothing, or only changes the character in front of it. -/
def isUnseen (c : Char) : Bool :=
  isHidden c || isJoining c || fillers.contains c

/-- How a character is shown. -/
def reveal (c : Char) : List Char :=
  if c = '"' ∨ c = '\\' then ['\\', c]
  else if c = '\n' then ['\\', 'n']
  else if c = '\r' then ['\\', 'r']
  else if c = '\t' then ['\\', 't']
  else if c.toNat = 0 then ['\\', '0']
  else if isUnseen c then "\\u\x7b".toList ++ Nat.toDigits 16 c.toNat ++ ['\x7d']
  else [c]

/-- A text in double quotes. -/
def showQuoted (s : String) : String :=
  String.ofList ('"' :: (s.toList.flatMap reveal ++ ['"']))

end JoinPlan.Text

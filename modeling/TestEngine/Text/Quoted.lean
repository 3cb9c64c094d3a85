import TestEngine.Text.GraphemeExtend
import TestEngine.Text.Unprintable

/-!
Quoted text. Every character that could not be told apart in print, or that would end the quotation,
is written as an escape, so a quoted text stands on one line.
-/

namespace TestEngine.Text.Quoted

/-- A code point in small hexadecimal digits, without leading zeros. -/
def codePoint (c : Char) : List Char :=
  '\\' :: 'u' :: '\x7b' :: Nat.toDigits 16 c.toNat ++ ['\x7d']

/-- Marks are escaped too, since they would join the quote before them. -/
def isShown (c : Char) : Bool :=
  !CharSet.graphemeExtend.contains c && !CharSet.unprintable.contains c

def escape (c : Char) : List Char :=
  if c = '\x00' then ['\\', '0']
  else if c = '\t' then ['\\', 't']
  else if c = '\r' then ['\\', 'r']
  else if c = '\n' then ['\\', 'n']
  else if c = '\\' then ['\\', '\\']
  else if c = '"' then ['\\', '"']
  else if isShown c then [c]
  else codePoint c

end Quoted

def quote (s : String) : String :=
  String.ofList ('"' :: s.toList.flatMap Quoted.escape ++ ['"'])

end TestEngine.Text

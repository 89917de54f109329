import OrmDdl.Text.Unprintable
import OrmDdl.Text.Extender
/-!
# Text quoted for messages

A text in double quotes, on one line and free of characters that do not show: those are written
by letter or by code point.
-/

namespace OrmDdl.Text

/-- How one character stands between double quotes. -/
def quotedChar (c : Char) : List Char :=
  if c = '\x00' then ['\\', '0']
  else if c = '\t' then ['\\', 't']
  else if c = '\r' then ['\\', 'r']
  else if c = '\n' then ['\\', 'n']
  else if c = '"' ∨ c = '\\' then ['\\', c]
  else if isExtender c ∨ isUnprintable c then
    '\\' :: 'u' :: '\x7b' :: (Nat.toDigits 16 c.toNat ++ ['\x7d'])
  else [c]

/-- The text in double quotes. -/
def quoted (s : String) : String :=
  String.ofList ('"' :: (s.toList.flatMap quotedChar ++ ['"']))

end OrmDdl.Text

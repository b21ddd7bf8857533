import ImageNaming.Text.Basic
import ImageNaming.Text.Printable

/-!
# Quoted texts

Messages show a text between quotes so that a reader can tell where it ends and what it holds. The
quote is the single one, unless the text holds single quotes and no double ones. A backslash and the
quote in use are written after a backslash, the common line controls by their letter, and every
other character that is not printable by the hexadecimal number of its code point.
-/

namespace ImageNaming.Text

/-- The quote that a text is written between. -/
def quoteFor (t : Text) : Char :=
  if t.contains '\'' && !t.contains '"' then '"' else '\''

/-- The hexadecimal form of a character, in two, four or eight digits: as few as its code point
needs. -/
def escapeCodePoint (c : Char) : Text :=
  if c.toNat < 0x100 then "\\x" ++ ofHex 2 c.toNat
  else if c.toNat < 0x10000 then "\\u" ++ ofHex 4 c.toNat
  else "\\U" ++ ofHex 8 c.toNat

/-- A character as it is written between two of the given quotes. -/
def escapeIn (quote c : Char) : Text :=
  if c = quote || c = '\\' then ['\\', c]
  else if c = '\n' then "\\n"
  else if c = '\r' then "\\r"
  else if c = '\t' then "\\t"
  else if isPrintable c then [c]
  else escapeCodePoint c

/-- A text as messages quote it. -/
def quoted (t : Text) : Text :=
  let quote := quoteFor t
  quote :: t.flatMap (escapeIn quote) ++ [quote]

end ImageNaming.Text

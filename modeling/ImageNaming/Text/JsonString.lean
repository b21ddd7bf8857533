import ImageNaming.Text.Basic

/-!
# JSON strings

A text as a JSON string of ASCII characters only. The quote, the backslash and the common controls
have escapes of two characters; every other character outside the printable ASCII range is written
by its UTF-16 code units, so a character beyond the basic plane takes two of them.
-/

namespace ImageNaming.Text

/-- A UTF-16 code unit as an escape. -/
def unitEscape (unit : Nat) : Text := "\\u" ++ ofHex 4 unit

/-- A character within a JSON string. -/
def jsonEscape (c : Char) : Text :=
  if c = '"' then "\\\""
  else if c = '\\' then "\\\\"
  else if c = '\n' then "\\n"
  else if c = '\r' then "\\r"
  else if c = '\t' then "\\t"
  else if c = '\x08' then "\\b"
  else if c = '\x0c' then "\\f"
  else if ' ' ≤ c && c ≤ '~' then [c]
  else if c.toNat < 0x10000 then unitEscape c.toNat
  else
    let offset := c.toNat - 0x10000
    unitEscape (0xD800 + offset / 0x400) ++ unitEscape (0xDC00 + offset % 0x400)

/-- A text as a JSON string. -/
def jsonString (t : Text) : Text := "\"" ++ t.flatMap jsonEscape ++ "\""

end ImageNaming.Text

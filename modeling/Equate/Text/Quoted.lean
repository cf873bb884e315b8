import Equate.Text.Printable

/-!
# Quoted texts

Messages show a text between double quotes. The quote, the backslash and the
control characters that have a short escape are written with it, any other
character that has no shape of its own by its code point in hexadecimal, and the
rest as it is.
-/

namespace Equate
namespace Text

/-- The hexadecimal escape of a character, in lower case and without padding. -/
def codePointEscape (c : Char) : String :=
  "\\u\x7b" ++ String.ofList (Nat.toDigits 16 c.toNat) ++ "\x7d"

def escapeChar (c : Char) : String :=
  if c = '"' then "\\\""
  else if c = '\\' then "\\\\"
  else if c = '\n' then "\\n"
  else if c = '\r' then "\\r"
  else if c = '\t' then "\\t"
  else if c = '\x00' then "\\0"
  else if isPrintable c then c.toString
  else codePointEscape c

def quote (s : String) : String :=
  "\"" ++ String.join (s.toList.map escapeChar) ++ "\""

end Text
end Equate

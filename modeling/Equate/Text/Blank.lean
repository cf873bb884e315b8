/-!
# Blank characters

A blank is a code point with the Unicode property `White_Space`. The reader of
numerals skips blanks on both sides of a numeral, and names of definitions are
trimmed of them. The lexer skips fewer characters, see `Equate.Token.Lexer`.
-/

namespace Equate
namespace Text

/-- The twenty-five code points with the property `White_Space`. -/
def isBlank (c : Char) : Bool :=
  let n := c.toNat
  (9 <= n && n <= 13) || n == 0x20 || n == 0x85 || n == 0xa0 || n == 0x1680
    || (0x2000 <= n && n <= 0x200a) || n == 0x2028 || n == 0x2029 || n == 0x202f
    || n == 0x205f || n == 0x3000

/-!
## Trimming
-/

def trimBlanks (cs : List Char) : List Char :=
  ((cs.dropWhile isBlank).reverse.dropWhile isBlank).reverse

end Text
end Equate

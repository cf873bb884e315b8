import Equate.Decimal.Layout
import Equate.Operator
import Equate.Text.Quoted

/-!
# Tokens

A token is a literal, a name, a keyword, a mark or the end of a line. Placed tokens
know the line on which they start. Messages describe a token by its variant, and a
token with a payload by its payload as well.
-/

namespace Equate

/-- The words that start a statement. They are never names. -/
inductive Keyword where
  | «let»
  | assert
  | org
deriving DecidableEq, Repr

inductive Mark where
  | dollar
  | plus
  | minus
  | star
  | slash
  | percent
  | shiftLeft
  | shiftRight
  | ampersand
  | doubleAmpersand
  | caret
  | pipe
  | doublePipe
  | tilde
  | bang
  | question
  | colon
  | dot
  | lParen
  | rParen
  | lBracket
  | rBracket
  | comma
  | equals
  | equalEqual
  | bangEqual
  | tripleEqual
  | bangDoubleEqual
  | lessEqual
  | greaterEqual
  | less
  | greater
deriving DecidableEq, Repr

inductive Token where
  | integer (n : UInt64)
  | float (x : Float)
  | text (s : String)
  | name (n : String)
  | keyword (k : Keyword)
  | mark (m : Mark)
  | newLine
deriving DecidableEq

structure PlacedToken where
  token : Token
  line : Nat
deriving DecidableEq

/-!
## Descriptions
-/

namespace Keyword

def all : List Keyword :=
  [.let, .assert, .org]

def word : Keyword -> String
  | .let => "let"
  | .assert => "assert"
  | .org => "org"

def ofWord? (w : String) : Option Keyword :=
  all.find? fun k => k.word == w

def describe : Keyword -> String
  | .let => "Let"
  | .assert => "Assert"
  | .org => "Org"

end Keyword

namespace Mark

def describe : Mark -> String
  | .dollar => "Dollar"
  | .plus => "Plus"
  | .minus => "Minus"
  | .star => "Star"
  | .slash => "Slash"
  | .percent => "Percent"
  | .shiftLeft => "ShiftLeft"
  | .shiftRight => "ShiftRight"
  | .ampersand => "Ampersand"
  | .doubleAmpersand => "DoubleAmpersand"
  | .caret => "Caret"
  | .pipe => "Pipe"
  | .doublePipe => "DoublePipe"
  | .tilde => "Tilde"
  | .bang => "Bang"
  | .question => "Question"
  | .colon => "Colon"
  | .dot => "Dot"
  | .lParen => "LParen"
  | .rParen => "RParen"
  | .lBracket => "LBracket"
  | .rBracket => "RBracket"
  | .comma => "Comma"
  | .equals => "Equals"
  | .equalEqual => "EqualEqual"
  | .bangEqual => "BangEqual"
  | .tripleEqual => "TripleEqual"
  | .bangDoubleEqual => "BangDoubleEqual"
  | .lessEqual => "LessEqual"
  | .greaterEqual => "GreaterEqual"
  | .less => "Less"
  | .greater => "Greater"

end Mark

def Token.describe : Token -> String
  | .integer n => "Integer(" ++ toString n.toNat ++ ")"
  | .float x => "Float(" ++ Decimal.literal.text x ++ ")"
  | .text s => "String(" ++ Text.quote s ++ ")"
  | .name n => "Identifier(" ++ Text.quote n ++ ")"
  | .keyword k => k.describe
  | .mark m => m.describe
  | .newLine => "NewLine"

/-!
## Spellings
-/

namespace Mark

def spelling : Mark -> String
  | .dollar => "$"
  | .plus => "+"
  | .minus => "-"
  | .star => "*"
  | .slash => "/"
  | .percent => "%"
  | .shiftLeft => "<<"
  | .shiftRight => ">>"
  | .ampersand => "&"
  | .doubleAmpersand => "&&"
  | .caret => "^"
  | .pipe => "|"
  | .doublePipe => "||"
  | .tilde => "~"
  | .bang => "!"
  | .question => "?"
  | .colon => ":"
  | .dot => "."
  | .lParen => "("
  | .rParen => ")"
  | .lBracket => "["
  | .rBracket => "]"
  | .comma => ","
  | .equals => "="
  | .equalEqual => "=="
  | .bangEqual => "!="
  | .tripleEqual => "==="
  | .bangDoubleEqual => "!=="
  | .lessEqual => "<="
  | .greaterEqual => ">="
  | .less => "<"
  | .greater => ">"

/-- All marks, the longer spellings first. -/
def all : List Mark :=
  [.tripleEqual, .bangDoubleEqual,
    .shiftLeft, .shiftRight, .doubleAmpersand, .doublePipe, .equalEqual, .bangEqual,
    .lessEqual, .greaterEqual,
    .dollar, .plus, .minus, .star, .slash, .percent, .ampersand, .caret, .pipe, .tilde,
    .bang, .question, .colon, .dot, .lParen, .rParen, .lBracket, .rBracket, .comma,
    .equals, .less, .greater]

theorem mem_all (m : Mark) : m ∈ all := by
  cases m <;> decide

def longest? (cs : List Char) : Option Mark :=
  all.find? fun m => m.spelling.toList.isPrefixOf cs

end Mark

/-!
## Operators as tokens

A plus and a minus are both unary and binary. Which of them is meant follows from the
place where they stand.
-/

namespace Mark

def binary? : Mark -> Option BinaryOp
  | .star => some (.arithmetic .mul)
  | .slash => some (.arithmetic .div)
  | .percent => some (.arithmetic .mod)
  | .plus => some (.arithmetic .add)
  | .minus => some (.arithmetic .sub)
  | .shiftLeft => some (.shift .left)
  | .shiftRight => some (.shift .right)
  | .less => some (.comparison .less)
  | .lessEqual => some (.comparison .lessEqual)
  | .greater => some (.comparison .greater)
  | .greaterEqual => some (.comparison .greaterEqual)
  | .equalEqual => some (.comparison .equal)
  | .bangEqual => some (.comparison .notEqual)
  | .tripleEqual => some (.strict .equal)
  | .bangDoubleEqual => some (.strict .notEqual)
  | .ampersand => some (.bitwise .and)
  | .caret => some (.bitwise .xor)
  | .pipe => some (.bitwise .or)
  | .doubleAmpersand => some (.logical .and)
  | .doublePipe => some (.logical .or)
  | _ => none

def unary? : Mark -> Option UnaryOp
  | .plus => some .plus
  | .minus => some .negate
  | .tilde => some .complement
  | .bang => some .not
  | _ => none

end Mark

def Token.binary? : Token -> Option BinaryOp
  | .mark m => m.binary?
  | _ => none

def Token.unary? : Token -> Option UnaryOp
  | .mark m => m.unary?
  | _ => none

end Equate

import Mathlib.Computability.Language
import Mathlib.Data.Nat.Digits.Defs
import Equate.Token.Lexer

/-!
# The patterns of tokens

Every shape of a piece has a pattern, a regular language over characters. The patterns say
what may be cut from a text, and how a text is divided by them is said here without any
function of the lexer: at each place the longest prefix that some pattern matches is taken,
and it is skipped or denotes one token.
-/

namespace Equate
namespace Lexer

/-!
## Classes of characters
-/

def oneOf (p : Char -> Bool) : Language Char :=
  {cs | exists c, p c = true ∧ cs = [c]}

def manyOf (p : Char -> Bool) : Language Char :=
  {cs | forall c, c ∈ cs -> p c = true}

def someOf (p : Char -> Bool) : Language Char :=
  oneOf p * manyOf p

def isQuote (c : Char) : Bool :=
  c == '"'

def isPlain (c : Char) : Bool :=
  !(c == '"' || c == '\\' || c == '\n')

def isPoint (c : Char) : Bool :=
  c == '.'

def isSign (c : Char) : Bool :=
  c == '+' || c == '-'

def isExponentMark (c : Char) : Bool :=
  c == 'e' || c == 'E'

def isHexLetter (c : Char) : Bool :=
  c == 'x' || c == 'X'

def isBinaryLetter (c : Char) : Bool :=
  c == 'b' || c == 'B'

/-!
## Parts of literals
-/

def fraction : Language Char :=
  oneOf isPoint * someOf Char.isDigit

def exponent : Language Char :=
  oneOf isExponentMark * ((1 + oneOf isSign) * someOf Char.isDigit)

/-- A plain character, or a backslash with any other character of the line. -/
def textUnit : Language Char :=
  oneOf isPlain + oneOf (fun c => c == '\\') * oneOf fun c => c != '\n'

def radixNumber (isLetter isDigit : Char -> Bool) : Language Char :=
  oneOf (fun c => c == '0') * (oneOf isLetter * someOf isDigit)

end Lexer

open Lexer Computability

/--
The pattern of a shape. A text that is not closed and a stray character have none. The
words that are keywords have no pattern of their own: each is a word.
-/
def Shape.language : Shape -> Language Char
  | .blank => someOf isSkipped
  | .comment => oneOf (fun c => c == ';') * manyOf fun c => !isLineEnd c
  | .newLine => oneOf fun c => c == '\n'
  | .mark m => {m.spelling.toList}
  | .word => oneOf isWordStart * manyOf isWordChar
  | .decimal => someOf Char.isDigit
  | .hexadecimal => radixNumber isHexLetter isHexDigit
  | .binary => radixNumber isBinaryLetter isBinaryDigit
  | .float =>
      someOf Char.isDigit * (fraction * (1 + exponent)) + someOf Char.isDigit * exponent
  | .text => oneOf isQuote * (textUnit∗ * oneOf isQuote)
  | .openText => 0
  | .stray => 0

def Shape.isPatterned : Shape -> Bool
  | .openText => false
  | .stray => false
  | _ => true

/-!
## What lexemes denote
-/

namespace Lexer

def integerOf (radix : Nat) (digits : List Char) : Nat :=
  Nat.ofDigits radix (digits.map Piece.digitValue).reverse

inductive Escape : Char -> Char -> Prop where
  | quote : Escape '"' '"'
  | backslash : Escape '\\' '\\'
  | newLine : Escape 'n' '\n'
  | tab : Escape 't' '\t'

inductive Spells : List Char -> List Char -> Prop where
  | done : Spells [] []
  | plain {c : Char} {body text : List Char} :
      isPlain c = true -> Spells body text -> Spells (c :: body) (c :: text)
  | escape {e c : Char} {body text : List Char} :
      Escape e c -> Spells body text -> Spells ('\\' :: e :: body) (c :: text)

/-- The token that a lexeme of a shape denotes. -/
inductive Denotes : Shape -> List Char -> Token -> Prop where
  | newLine (lexeme : List Char) : Denotes .newLine lexeme .newLine
  | mark (m : Mark) (lexeme : List Char) : Denotes (.mark m) lexeme (.mark m)
  | keyword (k : Keyword) : Denotes .word k.word.toList (.keyword k)
  | name {lexeme : List Char} :
      (forall k : Keyword, lexeme ≠ k.word.toList) ->
      Denotes .word lexeme (.name (String.ofList lexeme))
  | decimal {digits : List Char} {n : UInt64} :
      integerOf 10 digits = n.toNat -> Denotes .decimal digits (.integer n)
  | hexadecimal {zero letter : Char} {digits : List Char} {n : UInt64} :
      integerOf 16 digits = n.toNat ->
      Denotes .hexadecimal (zero :: letter :: digits) (.integer n)
  | binary {zero letter : Char} {digits : List Char} {n : UInt64} :
      integerOf 2 digits = n.toNat -> Denotes .binary (zero :: letter :: digits) (.integer n)
  | float {lexeme : List Char} {x : Float} :
      Numeral.float? (String.ofList lexeme) = some x -> Denotes .float lexeme (.float x)
  | text {body text : List Char} :
      Spells body text ->
      Denotes .text ('"' :: body ++ ['"']) (.text (String.ofList text))

def IsSkippedShape (s : Shape) : Prop :=
  s = .blank ∨ s = .comment

/-!
## Texts and their tokens
-/

/-- A prefix of a text that a pattern matches and than which no pattern matches a longer one. -/
structure IsLongest (s : Shape) (lexeme text : List Char) : Prop where
  matched : lexeme ∈ s.language
  starts : lexeme <+: text
  longest : forall (other : Shape) (q : List Char),
    q ∈ other.language -> q <+: text -> q.length ≤ lexeme.length

/--
The tokens of a text, when another text stands before it. The line of a token is counted
by the line breaks before it.
-/
inductive Lexes : List Char -> List Char -> List PlacedToken -> Prop where
  | done (before : List Char) : Lexes before [] []
  | skip {before lexeme rest : List Char} {ts : List PlacedToken} {s : Shape} :
      IsLongest s lexeme (lexeme ++ rest) ->
      IsSkippedShape s ->
      Lexes (before ++ lexeme) rest ts ->
      Lexes before (lexeme ++ rest) ts
  | token {before lexeme rest : List Char} {ts : List PlacedToken} {s : Shape} {t : Token} :
      IsLongest s lexeme (lexeme ++ rest) ->
      Denotes s lexeme t ->
      Lexes (before ++ lexeme) rest ts ->
      Lexes before (lexeme ++ rest) (⟨t, before.count '\n' + 1⟩ :: ts)

end Lexer
end Equate

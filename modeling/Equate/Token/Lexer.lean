import Equate.Decimal.Numeral
import Equate.SyntaxError

/-!
# Cutting a source into tokens

The source is cut into pieces from the left. At each place the longest piece that any
pattern admits is taken, and a character that starts no piece is a piece of its own.
The pieces put together are the source again. Afterwards every piece is read: blanks
and comments are skipped, a few pieces are refused, the others are tokens.
-/

namespace Equate

/-!
## Character classes
-/

namespace Lexer

/-- The blanks between tokens: space, tab, carriage return and form feed. -/
def isSkipped (c : Char) : Bool :=
  c == ' ' || c == '\t' || c == '\r' || c == '\x0c'

def isLineEnd (c : Char) : Bool :=
  c == '\n' || c == '\r'

def isWordStart (c : Char) : Bool :=
  c.isAlpha || c == '_'

def isWordChar (c : Char) : Bool :=
  c.isAlphanum || c == '_'

def isHexDigit (c : Char) : Bool :=
  c.isDigit || ('a' <= c && c <= 'f') || ('A' <= c && c <= 'F')

def isBinaryDigit (c : Char) : Bool :=
  c == '0' || c == '1'

/-!
## Extents

Each function gives the part of the remaining text that belongs to a piece whose
beginning was already read.
-/

/--
The rest of a text literal after its opening quote, and whether it is closed. An
unclosed literal extends to the end of the line, without a backslash that escapes
nothing on the line.
-/
def textTail : List Char -> Bool × List Char
  | [] => (false, [])
  | '"' :: _ => (true, ['"'])
  | '\n' :: _ => (false, [])
  | ['\\'] => (false, [])
  | '\\' :: c :: cs =>
      if c = '\n' then (false, [])
      else
        let (closed, tail) := textTail cs
        (closed, '\\' :: c :: tail)
  | c :: cs =>
      let (closed, tail) := textTail cs
      (closed, c :: tail)

def fractionTail : List Char -> List Char
  | '.' :: cs =>
      match cs.takeWhile Char.isDigit with
      | [] => []
      | digits => '.' :: digits
  | _ => []

def signTail : List Char -> List Char
  | '+' :: _ => ['+']
  | '-' :: _ => ['-']
  | _ => []

def exponentTail : List Char -> List Char
  | [] => []
  | mark :: cs =>
      if mark == 'e' || mark == 'E' then
        let sign := signTail cs
        match (cs.drop sign.length).takeWhile Char.isDigit with
        | [] => []
        | digits => mark :: sign ++ digits
      else []

/-!
## Pieces
-/

end Lexer

open Lexer

inductive Shape where
  | blank
  | comment
  | newLine
  | mark (m : Mark)
  | word
  | decimal
  | hexadecimal
  | binary
  | float
  | text
  /-- A text literal that is not closed. -/
  | openText
  /-- A character that starts no piece. -/
  | stray
deriving DecidableEq, Repr

structure Piece where
  shape : Shape
  chars : List Char
deriving DecidableEq, Repr

namespace Piece

def cutDecimal (cs : List Char) : Shape × List Char :=
  let digits := cs.takeWhile Char.isDigit
  let fraction := fractionTail (cs.drop digits.length)
  let exponent := exponentTail (cs.drop (digits.length + fraction.length))
  (if fraction.isEmpty && exponent.isEmpty then .decimal else .float,
    digits ++ fraction ++ exponent)

def cutRadix? : List Char -> Option (Shape × List Char)
  | [] => none
  | mark :: cs =>
      if mark == 'x' || mark == 'X' then
        match cs.takeWhile isHexDigit with
        | [] => none
        | digits => some (.hexadecimal, mark :: digits)
      else if mark == 'b' || mark == 'B' then
        match cs.takeWhile isBinaryDigit with
        | [] => none
        | digits => some (.binary, mark :: digits)
      else none

def cutNumber (c : Char) (cs : List Char) : Shape × List Char :=
  if c == '0' then (cutRadix? cs).getD (cutDecimal cs) else cutDecimal cs

/-- The shape of the piece at the start of `c :: cs`, and its characters after `c`. -/
def cut (c : Char) (cs : List Char) : Shape × List Char :=
  if c == '\n' then (.newLine, [])
  else if isSkipped c then (.blank, cs.takeWhile isSkipped)
  else if c == ';' then (.comment, cs.takeWhile fun c => !isLineEnd c)
  else if c == '"' then
    let (closed, tail) := textTail cs
    (if closed then .text else .openText, tail)
  else if c.isDigit then cutNumber c cs
  else if isWordStart c then (.word, cs.takeWhile isWordChar)
  else
    match Mark.longest? (c :: cs) with
    | some m => (.mark m, cs.take (m.spelling.length - 1))
    | none => (.stray, [])

def allAfter : Nat -> List Char -> List Piece
  | _, [] => []
  | skip + 1, _ :: cs => allAfter skip cs
  | 0, c :: cs =>
      let (shape, tail) := cut c cs
      ⟨shape, c :: tail⟩ :: allAfter tail.length cs

def all (cs : List Char) : List Piece :=
  allAfter 0 cs

theorem allAfter_eq_drop (skip : Nat) (cs : List Char) :
    allAfter skip cs = allAfter 0 (cs.drop skip) := by
  induction cs generalizing skip with
  | nil => cases skip <;> simp [allAfter]
  | cons c cs ih =>
      cases skip with
      | zero => rfl
      | succ skip =>
          rw [List.drop_succ_cons]
          exact ih skip

/-!
## Reading pieces
-/

def digitValue (c : Char) : Nat :=
  if c.isDigit then c.toNat - '0'.toNat
  else if 'a' <= c then c.toNat - 'a'.toNat + 10
  else c.toNat - 'A'.toNat + 10

def natOfDigits (radix : Nat) (digits : List Char) : Nat :=
  digits.foldl (fun n c => n * radix + digitValue c) 0

/-- An integer literal, if it fits into an unsigned word. -/
def integer? (radix : Nat) (digits : List Char) : Option Token :=
  let n := natOfDigits radix digits
  if n < UInt64.size then some (.integer n.toUInt64) else none

def unescape : List Char -> Option (List Char)
  | [] => none
  | ['"'] => some []
  | '\\' :: '"' :: cs => (unescape cs).map ('"' :: ·)
  | '\\' :: '\\' :: cs => (unescape cs).map ('\\' :: ·)
  | '\\' :: 'n' :: cs => (unescape cs).map ('\n' :: ·)
  | '\\' :: 't' :: cs => (unescape cs).map ('\t' :: ·)
  | '\\' :: _ => none
  | c :: cs => (unescape cs).map (c :: ·)

def ofWord (w : String) : Token :=
  match Keyword.ofWord? w with
  | some k => .keyword k
  | none => .name w

inductive Meaning where
  | skipped
  | token (t : Token)
  | invalid

def Meaning.ofOption : Option Token -> Meaning
  | some t => .token t
  | none => .invalid

def meaning (p : Piece) : Meaning :=
  match p.shape with
  | .blank => .skipped
  | .comment => .skipped
  | .newLine => .token .newLine
  | .mark m => .token (.mark m)
  | .word => .token (ofWord (String.ofList p.chars))
  | .decimal => .ofOption (integer? 10 p.chars)
  | .hexadecimal => .ofOption (integer? 16 (p.chars.drop 2))
  | .binary => .ofOption (integer? 2 (p.chars.drop 2))
  | .float => .ofOption ((Numeral.float? (String.ofList p.chars)).map Token.float)
  | .text =>
      .ofOption ((unescape (p.chars.drop 1)).map fun cs => .text (String.ofList cs))
  | .openText => .invalid
  | .stray => .invalid

def place : Nat -> List Piece -> Except SyntaxError (List PlacedToken)
  | _, [] => .ok []
  | line, p :: ps =>
      match p.meaning with
      | .skipped => place line ps
      | .invalid => .error (.invalidInput (String.ofList p.chars) line)
      | .token t =>
          let next := if t = .newLine then line + 1 else line
          (place next ps).map (⟨t, line⟩ :: ·)

end Piece

def tokenize (source : String) : Except SyntaxError (List PlacedToken) :=
  Piece.place 1 (Piece.all source.toList)

end Equate

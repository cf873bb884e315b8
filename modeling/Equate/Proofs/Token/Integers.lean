import Equate.Proofs.Token.Boundaries

/-!
# Integers as literals

An integer can be written in three radixes, behind the marker of its radix and any number of
zeros. The digits of an integer are found again by their values, which do not depend on whether
they are written as capitals.
-/

namespace Equate

inductive Radix where
  | decimal
  | hexadecimal
  | binary
deriving DecidableEq, Repr

namespace Lexer

/-!
## Digits
-/

def cased (capital : Bool) (c : Char) : Char :=
  if capital then c.toUpper else c

def recase (capital : Nat -> Bool) : List Char -> List Char
  | [] => []
  | c :: cs => cased (capital 0) c :: recase (fun position => capital (position + 1)) cs

theorem recase_false (cs : List Char) : recase (fun _ => false) cs = cs := by
  induction cs with
  | nil => rfl
  | cons c cs ih => exact congrArg (c :: ·) ih

theorem map_recase {β : Type} {f : Char -> β} {cs : List Char}
    (h : forall c, c ∈ cs -> forall b, f (cased b c) = f c) (capital : Nat -> Bool) :
    (recase capital cs).map f = cs.map f := by
  induction cs generalizing capital with
  | nil => rfl
  | cons c cs ih =>
      rcases List.forall_mem_cons.mp h with ⟨hc, hcs⟩
      rw [recase, List.map_cons, List.map_cons, hc, ih hcs]

theorem recase_mem_someOf {p : Char -> Bool} {cs : List Char} (hne : cs ≠ [])
    (h : forall c, c ∈ cs -> forall b, p (cased b c) = true) (capital : Nat -> Bool) :
    recase capital cs ∈ someOf p := by
  cases cs with
  | nil => exact absurd rfl hne
  | cons c cs =>
      rcases List.forall_mem_cons.mp h with ⟨hc, hcs⟩
      refine cons_mem_oneOf_mul (hc (capital 0)) ?_
      generalize (fun position => capital (position + 1)) = capital
      intro d hd
      have hmap : (recase capital cs).map p = cs.map p :=
        map_recase (fun c hc b => (hcs c hc b).trans (hcs c hc false).symm) capital
      rcases List.mem_map.mp (hmap ▸ List.mem_map_of_mem hd) with ⟨e, he, heq⟩
      rw [← heq]
      exact hcs e he false

theorem exists_of_mem_toDigits {radix : Nat} (hradix : 1 < radix) {n : Nat} {c : Char}
    (h : c ∈ Nat.toDigits radix n) : exists d, d < radix ∧ c = Nat.digitChar d := by
  induction n using Nat.strong_induction_on with
  | _ n ih =>
      rw [Nat.toDigits_eq_if hradix] at h
      split at h
      · rename_i hlt
        exact ⟨n, hlt, List.mem_singleton.mp h⟩
      · rename_i hge
        have hsmaller : n / radix < n := Nat.div_lt_self (by omega) hradix
        rcases List.mem_append.mp h with h | h
        · exact ih _ hsmaller h
        · exact ⟨n % radix, Nat.mod_lt n (by omega), List.mem_singleton.mp h⟩

theorem integerOf_append (radix : Nat) (digits : List Char) (c : Char) :
    integerOf radix (digits ++ [c]) = integerOf radix digits * radix + Piece.digitValue c := by
  have hdigits : ((digits ++ [c]).map Piece.digitValue).reverse =
      Piece.digitValue c :: (digits.map Piece.digitValue).reverse := by
    simp
  rw [integerOf, hdigits, Nat.ofDigits_cons, Nat.mul_comm, Nat.add_comm]
  rfl

theorem digitValue_digitChar {d : Nat} (h : d < 16) (b : Bool) :
    Piece.digitValue (cased b (Nat.digitChar d)) = d := by
  have hall : ∀ d < 16, ∀ b, Piece.digitValue (cased b (Nat.digitChar d)) = d := by
    decide
  exact hall d h b

theorem integerOf_toDigits {radix : Nat} (hradix : 1 < radix) (hsmall : radix ≤ 16) (n : Nat) :
    integerOf radix (Nat.toDigits radix n) = n := by
  have hvalue {d : Nat} (hd : d < radix) : Piece.digitValue (Nat.digitChar d) = d :=
    digitValue_digitChar (Nat.lt_of_lt_of_le hd hsmall) false
  induction n using Nat.strong_induction_on with
  | _ n ih =>
      rw [Nat.toDigits_eq_if hradix]
      split
      · rename_i hlt
        exact Nat.ofDigits_singleton.trans (hvalue hlt)
      · have hsmaller : n / radix < n := Nat.div_lt_self (by omega) hradix
        rw [integerOf_append, ih _ hsmaller, hvalue (Nat.mod_lt n (by omega))]
        exact Nat.div_add_mod' n radix

theorem integerOf_zeros (radix zeros : Nat) (digits : List Char) :
    integerOf radix (List.replicate zeros '0' ++ digits) = integerOf radix digits := by
  rw [integerOf, List.map_append, List.map_replicate, List.reverse_append, List.reverse_replicate]
  exact Nat.ofDigits_append_replicate_zero _

end Lexer

/-!
## Radixes
-/

namespace Radix

open Lexer

def base : Radix -> Nat
  | .decimal => 10
  | .hexadecimal => 16
  | .binary => 2

def marker : Radix -> List Char
  | .decimal => []
  | .hexadecimal => ['0', 'x']
  | .binary => ['0', 'b']

/--
A way to write an integer: behind the marker and some zeros, with capitals at the chosen places
for small letters.
-/
def text (r : Radix) (capital : Nat -> Bool) (zeros n : Nat) : String :=
  String.ofList <| recase capital <|
    r.marker ++ (List.replicate zeros '0' ++ Nat.toDigits r.base n)

example :
    hexadecimal.text (fun position => position == 1 || position == 5) 2 0xabe = "0X00aBe" := by
  decide +kernel

def shape : Radix -> Shape
  | .decimal => .decimal
  | .hexadecimal => .hexadecimal
  | .binary => .binary

def isDigit : Radix -> Char -> Bool
  | .decimal => Char.isDigit
  | .hexadecimal => isHexDigit
  | .binary => isBinaryDigit

theorem one_lt_base (r : Radix) : 1 < r.base := by
  cases r <;> decide

theorem base_le (r : Radix) : r.base ≤ 16 := by
  cases r <;> decide

theorem isDigit_digitChar (r : Radix) {d : Nat} (h : d < r.base) (b : Bool) :
    r.isDigit (cased b (Nat.digitChar d)) = true := by
  have hall : ∀ d < r.base, ∀ b, r.isDigit (cased b (Nat.digitChar d)) = true := by
    cases r <;> decide
  exact hall d h b

theorem lexeme_of_digits (r : Radix) {digits : List Char} (hne : digits ≠ [])
    (hdigits : forall c, c ∈ digits -> exists d, d < r.base ∧ c = Nat.digitChar d) {n : UInt64}
    (hn : integerOf r.base digits = n.toNat) (capital : Nat -> Bool) :
    recase capital (r.marker ++ digits) ∈ r.shape.language ∧
      Denotes r.shape (recase capital (r.marker ++ digits)) (.integer n) := by
  have hmem (capital : Nat -> Bool) : recase capital digits ∈ someOf r.isDigit := by
    refine recase_mem_someOf hne ?_ capital
    intro c hc b
    rcases hdigits c hc with ⟨d, hd, rfl⟩
    exact r.isDigit_digitChar hd b
  have hvalue (capital : Nat -> Bool) : integerOf r.base (recase capital digits) = n.toNat := by
    rw [← hn, integerOf, integerOf, map_recase]
    intro c hc b
    rcases hdigits c hc with ⟨d, hd, rfl⟩
    have hd := Nat.lt_of_lt_of_le hd r.base_le
    rw [digitValue_digitChar hd b]
    exact (digitValue_digitChar hd false).symm
  have hzero (b : Bool) : (cased b '0' == '0') = true := by
    cases b <;> rfl
  cases r with
  | decimal => exact ⟨hmem capital, .decimal (hvalue capital)⟩
  | hexadecimal =>
      have hletter (b : Bool) : isHexLetter (cased b 'x') = true := by
        cases b <;> rfl
      exact ⟨cons_mem_oneOf_mul (hzero _) (cons_mem_oneOf_mul (hletter _) (hmem _)),
        .hexadecimal (hvalue _)⟩
  | binary =>
      have hletter (b : Bool) : isBinaryLetter (cased b 'b') = true := by
        cases b <;> rfl
      exact ⟨cons_mem_oneOf_mul (hzero _) (cons_mem_oneOf_mul (hletter _) (hmem _)),
        .binary (hvalue _)⟩

theorem lexeme_of_word (r : Radix) (capital : Nat -> Bool) (zeros : Nat) (n : UInt64) :
    let lexeme := recase capital
      (r.marker ++ (List.replicate zeros '0' ++ Nat.toDigits r.base n.toNat))
    lexeme ∈ r.shape.language ∧ Denotes r.shape lexeme (.integer n) := by
  refine r.lexeme_of_digits (List.append_ne_nil_of_right_ne_nil _ Nat.toDigits_ne_nil) ?_ ?_ capital
  · intro c hc
    rcases List.mem_append.mp hc with hc | hc
    · have hpos : 0 < r.base := Nat.zero_lt_of_lt r.one_lt_base
      exact ⟨0, hpos, List.eq_of_mem_replicate hc⟩
    · exact exists_of_mem_toDigits r.one_lt_base hc
  · rw [integerOf_zeros, integerOf_toDigits r.one_lt_base r.base_le]

theorem decimal_text (n : Nat) : decimal.text (fun _ => false) 0 n = toString n := by
  rw [text, recase_false, Nat.toString_eq_ofList_toDigits]
  rfl

end Radix

/-!
## Tokens
-/

/-- An integer that fits into a word is read as this word, however it is written. -/
theorem tokenize_radix (r : Radix) (capital : Nat -> Bool) (zeros : Nat) (n : UInt64) :
    tokenize (r.text capital zeros n.toNat) = .ok [⟨.integer n, 1⟩] := by
  rcases r.lexeme_of_word capital zeros n with ⟨hmem, hdenotes⟩
  exact Piece.tokenize_of_denotes hmem hdenotes

theorem tokenize_minus (n : UInt64) :
    tokenize ("-" ++ toString n.toNat) = .ok [⟨.mark .minus, 1⟩, ⟨.integer n, 1⟩] := by
  have htoken := tokenize_radix .decimal (fun _ => false) 0 n
  rw [Radix.decimal_text] at htoken
  have htext : ("-" ++ toString n.toNat).toList = '-' :: (toString n.toNat).toList := by
    simp
  have hminus (cs : List Char) : Piece.all ('-' :: cs) = ⟨.mark .minus, ['-']⟩ :: Piece.all cs :=
    rfl
  rw [tokenize] at htoken ⊢
  rw [htext, hminus, Piece.place_cons_of_token _ _ rfl]
  exact congrArg (Except.map _) htoken

end Equate

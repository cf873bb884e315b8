import Equate.Proofs.Operator.Dispatch

/-!
# Kinds of results

An operator that has a value has one of a kind that the kinds of its operands fix, a text
counting as a float wherever it is read as a numeral. One difference is the exception:
that of two unsigned words becomes signed below zero, so that the words themselves decide.
The rules are stated here apart from the table of coercions and from the operations, which
choose the kind of a result case by case.
-/

namespace Equate

/-!
## Rules
-/

namespace Value

def readKind (v : Value) : Kind :=
  if v.kind = .text then .float else v.kind

def isBelow : Value -> Value -> Bool
  | .number (.unsigned u), .number (.unsigned v) => u < v
  | _, _ => false

end Value

def Kind.word (unsigned : Bool) : Kind :=
  if unsigned then .unsigned else .signed

def ArithmeticOp.resultKind (op : ArithmeticOp) (l r : Value) : Kind :=
  if l.readKind = .float ∨ r.readKind = .float then .float
  else
    .word (l.readKind == .unsigned && r.readKind == .unsigned && !(op == .sub && l.isBelow r))

def shiftKind (l : Value) : Kind :=
  .word (l.readKind == .unsigned)

def bitwiseKind (l r : Value) : Kind :=
  .word (l.readKind == .unsigned && r.readKind == .unsigned)

/-- What an operator may give for two operands. -/
inductive BinaryOp.Produces (l r : Value) : BinaryOp -> Value -> Prop where
  | comparison (o : ComparisonOp) {v : Value} :
      v = .unsigned 0 ∨ v = .unsigned 1 -> Produces l r (.comparison o) v
  | strict (o : StrictOp) {v : Value} :
      v = .unsigned 0 ∨ v = .unsigned 1 -> Produces l r (.strict o) v
  | logical (o : LogicalOp) {v : Value} :
      v = l ∨ v = r -> Produces l r (.logical o) v
  | joined : l.kind = .text ∨ r.kind = .text ->
      Produces l r (.arithmetic .add) (.text (l.toText ++ r.toText))
  | arithmetic (o : ArithmeticOp) {v : Value} :
      ¬ (o = .add ∧ (l.kind = .text ∨ r.kind = .text)) -> v.kind = o.resultKind l r ->
      Produces l r (.arithmetic o) v
  | shift (o : ShiftOp) {v : Value} : v.kind = shiftKind l -> Produces l r (.shift o) v
  | bitwise (o : BitwiseOp) {v : Value} : v.kind = bitwiseKind l r -> Produces l r (.bitwise o) v

/-!
## Arithmetic on numbers
-/

def OfKind (kind : Kind) (outcome : Except Diagnostic Number) : Prop :=
  forall n, outcome = .ok n -> (Value.number n).kind = kind

theorem ofKind_ok (n : Number) : OfKind (Value.number n).kind (.ok n) := by
  intro m h
  cases h
  rfl

theorem ofKind_refused (refused : Prop) [Decidable refused] (diagnostic : Diagnostic)
    (n : Number) : OfKind (Value.number n).kind (if refused then .error diagnostic else .ok n) := by
  split
  · intro m h
    cases h
  · exact ofKind_ok n

namespace ArithmeticOp

theorem ofKind_onFloat (op : ArithmeticOp) (x y : Float) : OfKind .float (op.onFloat x y) := by
  cases op with
  | mul => exact ofKind_ok (.float (x * y))
  | add => exact ofKind_ok (.float (x + y))
  | sub => exact ofKind_ok (.float (x - y))
  | div => exact ofKind_refused _ _ (.float (x / y))
  | mod => exact ofKind_refused _ _ (.float (Binary64.remainder x y))

theorem ofKind_onSigned (op : ArithmeticOp) (i j : Int64) : OfKind .signed (op.onSigned i j) := by
  cases op with
  | mul => exact ofKind_ok (.signed (i * j))
  | add => exact ofKind_ok (.signed (i + j))
  | sub => exact ofKind_ok (.signed (i - j))
  | div => exact ofKind_refused _ _ (.signed (i / j))
  | mod => exact ofKind_refused _ _ (.signed (i % j))

/-- Only the difference of unsigned words may be signed. -/
theorem ofKind_onUnsigned (op : ArithmeticOp) (u v : UInt64) :
    OfKind (.word !(op == .sub && decide (u < v))) (op.onUnsigned u v) := by
  cases op with
  | mul => exact ofKind_ok (.unsigned (u * v))
  | add => exact ofKind_ok (.unsigned (u + v))
  | div => exact ofKind_refused _ _ (.unsigned (u / v))
  | mod => exact ofKind_refused _ _ (.unsigned (u % v))
  | sub =>
      unfold onUnsigned
      by_cases h : u < v
      · simp only [h]
        exact ofKind_ok (.signed (u - v).toInt64)
      · simp only [h]
        exact ofKind_ok (.unsigned (u - v))

theorem ofKind_onNumbers (op : ArithmeticOp) (a b : Number) :
    OfKind (op.resultKind (.number a) (.number b)) (op.onNumbers a b) := by
  cases a with
  | float x => exact op.ofKind_onFloat x b.toFloat
  | signed i =>
      cases b with
      | float y => exact op.ofKind_onFloat _ y
      | signed j => exact op.ofKind_onSigned i j
      | unsigned v => exact op.ofKind_onSigned i v.toInt64
  | unsigned u =>
      cases b with
      | float y => exact op.ofKind_onFloat _ y
      | signed j => exact op.ofKind_onSigned u.toInt64 j
      | unsigned v => exact op.ofKind_onUnsigned u v

end ArithmeticOp

theorem kind_shift (o : ShiftOp) (a b : Number) :
    (Value.number (o.onNumbers a b)).kind = shiftKind (.number a) := by
  cases o <;> cases a <;> rfl

theorem kind_bitwise (o : BitwiseOp) (a b : Number) :
    (Value.number (o.onNumbers a b)).kind = bitwiseKind (.number a) (.number b) := by
  cases a <;> cases b <;> rfl

/-!
## Operands that are read
-/

namespace Value

theorem operand_eq_ok {v : Value} {operator : String} {n : Number}
    (h : v.operand operator = .ok n) :
    v = .number n ∨ exists s x, v = .text s ∧ n = .float x := by
  cases v with
  | number m =>
      cases h
      exact Or.inl rfl
  | function f => cases h
  | text s =>
      right
      replace h : parseText s = .ok n := h
      cases hs : Numeral.float? s with
      | none =>
          rw [parseText_of_none hs] at h
          cases h
      | some x =>
          rw [parseText_of_some hs] at h
          cases h
          exact ⟨s, x, rfl, rfl⟩

theorem operands_eq_ok {l r : Value} {operator : String} {a b : Number}
    (h : operands operator l r = .ok (a, b)) :
    l.operand operator = .ok a ∧ r.operand operator = .ok b := by
  unfold operands at h
  split at h
  · cases h
  · split at h
    · cases h
    · split at h
      · cases h
      · rename_i ha _ _ hb
        cases h
        exact ⟨ha, hb⟩

section

variable {l r : Value} {operator : String} {a b : Number}

theorem readKind_of_operand (ha : l.operand operator = .ok a) :
    (number a).readKind = l.readKind := by
  rcases operand_eq_ok ha with rfl | ⟨s, x, rfl, rfl⟩
  · rfl
  · rfl

theorem resultKind_of_operands (op : ArithmeticOp) (ha : l.operand operator = .ok a)
    (hb : r.operand operator = .ok b) :
    op.resultKind (.number a) (.number b) = op.resultKind l r := by
  -- Only two numbers are looked at again, and those were not changed by reading.
  rcases operand_eq_ok ha with rfl | ⟨s, x, rfl, rfl⟩
  · rcases operand_eq_ok hb with rfl | ⟨t, y, rfl, rfl⟩
    · rfl
    · cases a <;> rfl
  · rfl

end

theorem map_number_eq_ok {outcome : Except Diagnostic Number} {v : Value}
    (h : outcome.map number = .ok v) : exists n, outcome = .ok n ∧ v = .number n := by
  cases outcome with
  | error diagnostic => cases h
  | ok n =>
      cases h
      exact ⟨n, rfl, rfl⟩

theorem numeric_eq_ok {op : BinaryOp} {f : Number -> Number -> Except Diagnostic Number}
    {l r v : Value} (h : numeric op f l r = .ok v) :
    exists a b n, l.operand op.symbol = .ok a ∧ r.operand op.symbol = .ok b ∧
      f a b = .ok n ∧ v = .number n := by
  unfold numeric at h
  split at h
  · cases h
  · rename_i a b hoperands
    rcases operands_eq_ok hoperands with ⟨ha, hb⟩
    rcases map_number_eq_ok h with ⟨n, hn, hv⟩
    exact ⟨a, b, n, ha, hb, hn, hv⟩

theorem sum_eq_ok {l r v : Value} (h : l.sum r = .ok v) :
    ((l.kind = .text ∨ r.kind = .text) ∧ v = .text (l.toText ++ r.toText)) ∨
      exists a b n, l = .number a ∧ r = .number b ∧
        ArithmeticOp.add.onNumbers a b = .ok n ∧ v = .number n := by
  unfold sum at h
  split at h
  · cases h
  · rename_i hfunction
    rcases l with a | s | f
    · rcases r with b | t | g
      · rcases map_number_eq_ok h with ⟨n, hn, hv⟩
        exact Or.inr ⟨a, b, n, rfl, rfl, hn, hv⟩
      · exact Or.inl ⟨Or.inr rfl, (Except.ok.inj h).symm⟩
      · exact absurd (Bool.or_true _) hfunction
    · exact Or.inl ⟨Or.inl rfl, (Except.ok.inj h).symm⟩
    · exact absurd rfl hfunction

theorem kind_number_ne_text (n : Number) : (number n).kind ≠ .text := by
  intro h
  cases n <;> cases h

end Value

/-!
## Operators
-/

theorem Value.ofBool_eq (b : Bool) : ofBool b = .unsigned 0 ∨ ofBool b = .unsigned 1 := by
  cases b
  · exact Or.inl rfl
  · exact Or.inr rfl

namespace BinaryOp

theorem produces_sum {l r v : Value} (h : l.sum r = .ok v) :
    Produces l r (.arithmetic .add) v := by
  rcases Value.sum_eq_ok h with ⟨htext, rfl⟩ | ⟨a, b, n, rfl, rfl, hn, rfl⟩
  · exact .joined htext
  · refine .arithmetic .add ?_ (ArithmeticOp.ofKind_onNumbers .add a b n hn)
    rintro ⟨_, ha | hb⟩
    · exact Value.kind_number_ne_text a ha
    · exact Value.kind_number_ne_text b hb

theorem produces_numeric {o : ArithmeticOp} (ho : o ≠ .add) {l r v : Value}
    (h : Value.numeric (.arithmetic o) o.onNumbers l r = .ok v) :
    Produces l r (.arithmetic o) v := by
  rcases Value.numeric_eq_ok h with ⟨a, b, n, ha, hb, hn, rfl⟩
  refine .arithmetic o (fun hadd => ho hadd.1) ?_
  rw [← Value.resultKind_of_operands o ha hb]
  exact o.ofKind_onNumbers a b n hn

/-- A result has the kind that the rule of the operator gives to its operands. -/
theorem apply_produces {op : BinaryOp} {l r v : Value} {arena : Option Arena}
    (h : (op.apply l r arena).1 = .ok v) : Produces l r op v := by
  cases op with
  | arithmetic o =>
      cases o with
      | add => exact produces_sum h
      | mul => exact produces_numeric (by decide) h
      | div => exact produces_numeric (by decide) h
      | mod => exact produces_numeric (by decide) h
      | sub => exact produces_numeric (by decide) h
  | shift o =>
      rcases Value.numeric_eq_ok h with ⟨a, b, n, ha, _, hn, rfl⟩
      cases hn
      apply Produces.shift
      rw [kind_shift, shiftKind, shiftKind, Value.readKind_of_operand ha]
  | bitwise o =>
      rcases Value.numeric_eq_ok h with ⟨a, b, n, ha, hb, hn, rfl⟩
      cases hn
      apply Produces.bitwise
      rw [kind_bitwise, bitwiseKind, bitwiseKind, Value.readKind_of_operand ha,
        Value.readKind_of_operand hb]
  | comparison o =>
      cases h
      exact .comparison o (Value.ofBool_eq _)
  | strict o =>
      cases h
      exact .strict o (Value.ofBool_eq _)
  | logical o =>
      replace h : (if o.decides (some l) then l else r) = v := Except.ok.inj h
      rw [← h]
      apply Produces.logical
      split
      · exact Or.inl rfl
      · exact Or.inr rfl

theorem apply_produces_deficit :
    ((arithmetic .sub).apply (.unsigned 4) (.unsigned 42) none).1 = .ok (.signed (-38)) ∧
      Produces (.unsigned 4) (.unsigned 42) (arithmetic .sub) (.signed (-38)) := by
  have happly : ((arithmetic .sub).apply (.unsigned 4) (.unsigned 42) none).1 =
      .ok (.signed (-38)) := rfl
  exact ⟨happly, apply_produces happly⟩

end BinaryOp
end Equate

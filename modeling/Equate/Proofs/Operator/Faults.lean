import Equate.Proofs.Binary64.Binade
import Equate.Proofs.Number.Words
import Equate.Proofs.Operator.Dispatch

/-!
# Faults

An operator has no value for some operands, and then exactly one diagnostic says why. A
numeric operator refuses functions first, then the leftmost text that is not a numeral,
and a division refuses a zero divisor last. The operands are described here without the
order in which they are converted. That a zero divisor is found by each of the three
arithmetics, whatever the kinds of the operands, rests on the conversion of words to
floats, which makes no zero out of another word.
-/

namespace Equate

/-!
## Zero
-/

def Number.IsZero : Number -> Prop
  | .float x => x = 0.0 ∨ x = -0.0
  | .signed i => i = 0
  | .unsigned u => u = 0

def Value.IsZero : Value -> Prop
  | .number n => n.IsZero
  | .text s => exists x, Numeral.float? s = some x ∧ (x = 0.0 ∨ x = -0.0)
  | .function _ => False

namespace Number

theorem toFloat_beq_zero_iff (n : Number) : (n.toFloat == 0.0) = true ↔ n.IsZero := by
  cases n with
  | float x => exact Binary64.beq_zero_iff x
  | signed i => exact Binary64.ofSigned_beq_zero_iff i
  | unsigned u => exact Binary64.ofUnsigned_beq_zero_iff u

end Number

/-!
## Division on numbers
-/

namespace ArithmeticOp

def Divides (op : ArithmeticOp) : Prop :=
  op = .div ∨ op = .mod

/-- An outcome is refused exactly for a zero divisor, `zero` saying that it is one. -/
def Refuses (op : ArithmeticOp) (zero : Prop) (outcome : Except Diagnostic Number) : Prop :=
  (op.Divides ∧ zero ∧ outcome = .error .divisionByZero) ∨
    (¬ (op.Divides ∧ zero) ∧ exists n, outcome = .ok n)

theorem Refuses.congr {op : ArithmeticOp} {zero zero' : Prop}
    {outcome : Except Diagnostic Number} (h : op.Refuses zero outcome)
    (hzero : zero ↔ zero') : op.Refuses zero' outcome := by
  rw [← propext hzero]
  exact h

theorem refuses_of_cases {zero : Prop} [Decidable zero]
    (outcome : ArithmeticOp -> Except Diagnostic Number)
    (hmul : exists n, outcome .mul = .ok n) (hadd : exists n, outcome .add = .ok n)
    (hsub : exists n, outcome .sub = .ok n)
    (hdiv : exists n, outcome .div = if zero then .error .divisionByZero else .ok n)
    (hmod : exists n, outcome .mod = if zero then .error .divisionByZero else .ok n)
    (op : ArithmeticOp) : op.Refuses zero (outcome op) := by
  have hdivides : (exists n, outcome op = if zero then .error .divisionByZero else .ok n) ->
      op.Divides -> op.Refuses zero (outcome op) := by
    rintro ⟨n, hn⟩ hop
    rw [hn]
    split
    · rename_i hzero
      exact Or.inl ⟨hop, hzero, rfl⟩
    · rename_i hzero
      exact Or.inr ⟨fun h => hzero h.2, n, rfl⟩
  cases op with
  | mul => exact Or.inr ⟨by simp [Divides], hmul⟩
  | add => exact Or.inr ⟨by simp [Divides], hadd⟩
  | sub => exact Or.inr ⟨by simp [Divides], hsub⟩
  | div => exact hdivides hdiv (Or.inl rfl)
  | mod => exact hdivides hmod (Or.inr rfl)

theorem refuses_onUnsigned (op : ArithmeticOp) (a b : UInt64) :
    op.Refuses (b = 0) (op.onUnsigned a b) :=
  refuses_of_cases (fun op => op.onUnsigned a b)
    ⟨_, rfl⟩ ⟨_, rfl⟩ ⟨_, rfl⟩ ⟨_, rfl⟩ ⟨_, rfl⟩ op

theorem refuses_onSigned (op : ArithmeticOp) (a b : Int64) :
    op.Refuses (b = 0) (op.onSigned a b) :=
  refuses_of_cases (fun op => op.onSigned a b)
    ⟨_, rfl⟩ ⟨_, rfl⟩ ⟨_, rfl⟩ ⟨_, rfl⟩ ⟨_, rfl⟩ op

theorem refuses_onFloat (op : ArithmeticOp) (a b : Float) :
    op.Refuses ((b == 0.0) = true) (op.onFloat a b) :=
  refuses_of_cases (fun op => op.onFloat a b)
    ⟨_, rfl⟩ ⟨_, rfl⟩ ⟨_, rfl⟩ ⟨_, rfl⟩ ⟨_, rfl⟩ op

theorem refuses_onNumbers (op : ArithmeticOp) (a b : Number) :
    op.Refuses b.IsZero (op.onNumbers a b) := by
  have hfloat : forall x, op.Refuses b.IsZero (op.onFloat x b.toFloat) := by
    intro x
    exact (refuses_onFloat op x b.toFloat).congr b.toFloat_beq_zero_iff
  cases b with
  | float y => cases a <;> exact hfloat _
  | signed j =>
      cases a with
      | float x => exact hfloat x
      | signed i => exact refuses_onSigned op i j
      | unsigned u => exact refuses_onSigned op u.toInt64 j
  | unsigned v =>
      cases a with
      | float x => exact hfloat x
      | signed i =>
          exact (refuses_onSigned op i v.toInt64).congr (Number.toInt64_eq_zero_iff v)
      | unsigned u => exact refuses_onUnsigned op u v

end ArithmeticOp

/-!
## Faults of the operands
-/

def Value.Unreadable (v : Value) (t : String) : Prop :=
  v = .text t ∧ Numeral.float? t = none

namespace BinaryOp

def RejectsFunction (op : BinaryOp) (l r : Value) : Prop :=
  op.family.isNumeric = true ∧ (l.isFunction = true ∨ r.isFunction = true)

/-- The text `t` is not a numeral, and no text to its left is one that is not. -/
def RejectsText (op : BinaryOp) (l r : Value) (t : String) : Prop :=
  op.family.isNumeric = true ∧ op ≠ .arithmetic .add ∧
    (l.Unreadable t ∨ (forall s, ¬ l.Unreadable s) ∧ r.Unreadable t)

def RejectsDivisor (op : BinaryOp) (r : Value) : Prop :=
  (op = .arithmetic .div ∨ op = .arithmetic .mod) ∧ r.IsZero

/-- The diagnostics of an application, each of them giving way to the ones before it. -/
inductive Fault (op : BinaryOp) (l r : Value) : Diagnostic -> Prop where
  | function : op.RejectsFunction l r -> Fault op l r (.functionOperand op.symbol)
  | text {t : String} : ¬ op.RejectsFunction l r -> op.RejectsText l r t ->
      Fault op l r (.notANumeral t)
  | divisor : ¬ op.RejectsFunction l r -> (forall t, ¬ op.RejectsText l r t) ->
      op.RejectsDivisor r -> Fault op l r .divisionByZero

end BinaryOp

inductive UnaryOp.Fault (op : UnaryOp) (v : Value) : Diagnostic -> Prop where
  | function : op ≠ .not -> v.isFunction = true -> Fault op v (.functionOperand op.symbol)
  | text {t : String} : op ≠ .not -> v.Unreadable t -> Fault op v (.notANumeral t)

/-!
## Faults and outcomes
-/

section Outcome

variable {outcome : Except Diagnostic Value} {Fault : Diagnostic -> Prop}

theorem eq_error_iff
    (herror : forall diagnostic, Fault diagnostic -> outcome = .error diagnostic)
    (htotal : (exists diagnostic, Fault diagnostic) ∨ exists v, outcome = .ok v)
    (diagnostic : Diagnostic) : outcome = .error diagnostic ↔ Fault diagnostic := by
  constructor
  · intro houtcome
    rcases htotal with ⟨other, hfault⟩ | ⟨v, hv⟩
    · -- Faults exclude each other, since each of them fixes the outcome.
      rw [herror other hfault] at houtcome
      cases houtcome
      exact hfault
    · rw [hv] at houtcome
      cases houtcome
  · exact herror diagnostic

theorem exists_ok_iff
    (h : forall diagnostic, outcome = .error diagnostic ↔ Fault diagnostic) :
    (exists v, outcome = .ok v) ↔ forall diagnostic, ¬ Fault diagnostic := by
  cases outcome with
  | error diagnostic =>
      constructor
      · rintro ⟨v, hv⟩
        cases hv
      · intro hnone
        exact absurd ((h diagnostic).mp rfl) (hnone diagnostic)
  | ok v =>
      constructor
      · intro _ diagnostic hfault
        cases (h diagnostic).mpr hfault
      · intro _
        exact ⟨v, rfl⟩

end Outcome

/-!
## Readings of the operands
-/

namespace Value

theorem Unreadable.operand {v : Value} {t : String} (h : v.Unreadable t)
    (operator : String) : v.operand operator = .error (.notANumeral t) := by
  rcases h with ⟨rfl, ht⟩
  exact parseText_of_none ht

theorem Unreadable.isFunction {v : Value} {t : String} (h : v.Unreadable t) :
    v.isFunction = false := by
  rw [h.1]
  rfl

theorem exists_operand {v : Value} (hfunction : v.isFunction = false)
    (htext : forall t, ¬ v.Unreadable t) (operator : String) :
    exists n, v.operand operator = .ok n ∧ (n.IsZero ↔ v.IsZero) := by
  cases v with
  | number n => exact ⟨n, rfl, Iff.rfl⟩
  | function f => cases hfunction
  | text s =>
      cases hs : Numeral.float? s with
      | none => exact absurd ⟨rfl, hs⟩ (htext s)
      | some x =>
          refine ⟨.float x, parseText_of_some hs, ?_⟩
          constructor
          · intro h
            exact ⟨x, hs, h⟩
          · rintro ⟨y, hy, h⟩
            rw [hs] at hy
            cases hy
            exact h

end Value

namespace BinaryOp

section Readings

variable {op : BinaryOp} {l r : Value}

theorem isFunction_of_not_rejects (hop : op.family.isNumeric = true)
    (h : ¬ op.RejectsFunction l r) : l.isFunction = false ∧ r.isFunction = false := by
  have hnone : ¬ (l.isFunction = true ∨ r.isFunction = true) := fun hsome => h ⟨hop, hsome⟩
  exact ⟨Bool.eq_false_iff.mpr fun hl => hnone (Or.inl hl),
    Bool.eq_false_iff.mpr fun hr => hnone (Or.inr hr)⟩

theorem apply_of_rejectsFunction (h : op.RejectsFunction l r) (arena : Option Arena) :
    op.apply l r arena = (.error (.functionOperand op.symbol), arena) := by
  apply apply_of_isFunction h.left
  cases h.right with
  | inl hl => rw [hl, Bool.true_or]
  | inr hr => rw [hr, Bool.or_true]

theorem apply_of_rejectsText {t : String} (hfunction : ¬ op.RejectsFunction l r)
    (h : op.RejectsText l r t) (arena : Option Arena) :
    op.apply l r arena = (.error (.notANumeral t), arena) := by
  rcases h with ⟨hop, hadd, htext⟩
  rcases isFunction_of_not_rejects hop hfunction with ⟨hl, hr⟩
  rcases apply_eq_numeric hop hadd with ⟨f, hf, _⟩
  rw [hf]
  unfold Value.numeric
  rcases htext with hunreadable | ⟨hread, hunreadable⟩
  · rw [Value.operands_of_left_error hl hr (hunreadable.operand op.symbol)]
  · rcases Value.exists_operand hl hread op.symbol with ⟨a, ha, _⟩
    rw [Value.operands_of_right_error hl hr ha (hunreadable.operand op.symbol)]

theorem exists_operands (hop : op.family.isNumeric = true) (hadd : op ≠ .arithmetic .add)
    (hfunction : ¬ op.RejectsFunction l r) (htext : forall t, ¬ op.RejectsText l r t) :
    exists a b, Value.operands op.symbol l r = .ok (a, b) ∧ (b.IsZero ↔ r.IsZero) := by
  rcases isFunction_of_not_rejects hop hfunction with ⟨hl, hr⟩
  have hleft : forall t, ¬ l.Unreadable t := fun t h => htext t ⟨hop, hadd, Or.inl h⟩
  have hright : forall t, ¬ r.Unreadable t :=
    fun t h => htext t ⟨hop, hadd, Or.inr ⟨hleft, h⟩⟩
  rcases Value.exists_operand hl hleft op.symbol with ⟨a, ha, _⟩
  rcases Value.exists_operand hr hright op.symbol with ⟨b, hb, hzero⟩
  exact ⟨a, b, Value.operands_of_ok hl hr ha hb, hzero⟩

end Readings

/-!
## Binary operators
-/

section Outcomes

variable {op : BinaryOp} {l r : Value}

theorem apply_of_operands (hop : op.family.isNumeric = true) (hadd : op ≠ .arithmetic .add)
    (hfunction : ¬ op.RejectsFunction l r) (htext : forall t, ¬ op.RejectsText l r t)
    (arena : Option Arena) :
    (op.RejectsDivisor r ∧ op.apply l r arena = (.error .divisionByZero, arena)) ∨
      (¬ op.RejectsDivisor r ∧ exists n, op.apply l r arena = (.ok (.number n), arena)) := by
  rcases exists_operands hop hadd hfunction htext with ⟨a, b, hoperands, hzero⟩
  rcases apply_eq_numeric hop hadd with ⟨f, hf, hkind⟩
  have happly : op.apply l r arena = ((f a b).map .number, arena) := by
    rw [hf, Value.numeric, hoperands]
  rw [happly]
  rcases hkind with ⟨o, rfl, rfl⟩ | ⟨hother, hvalue⟩
  · have hdivisor : (arithmetic o).RejectsDivisor r ↔ o.Divides ∧ b.IsZero := by
      rw [hzero]
      simp [RejectsDivisor, ArithmeticOp.Divides]
    rcases o.refuses_onNumbers a b with ⟨hdivides, hb, houtcome⟩ | ⟨hnot, n, houtcome⟩
    · left
      rw [houtcome]
      exact ⟨hdivisor.mpr ⟨hdivides, hb⟩, rfl⟩
    · right
      rw [houtcome]
      exact ⟨fun h => hnot (hdivisor.mp h), n, rfl⟩
  · right
    rcases hvalue a b with ⟨n, hn⟩
    rw [hn]
    refine ⟨?_, n, rfl⟩
    rintro ⟨hdiv | hmod, _⟩
    · exact hother .div hdiv
    · exact hother .mod hmod

theorem apply_of_rejectsDivisor (hfunction : ¬ op.RejectsFunction l r)
    (htext : forall t, ¬ op.RejectsText l r t) (h : op.RejectsDivisor r)
    (arena : Option Arena) :
    op.apply l r arena = (.error .divisionByZero, arena) := by
  have hop : op.family.isNumeric = true ∧ op ≠ .arithmetic .add := by
    rcases h.left with rfl | rfl
    · exact ⟨rfl, by decide⟩
    · exact ⟨rfl, by decide⟩
  have hoperands := apply_of_operands hop.left hop.right hfunction htext arena
  rcases hoperands with ⟨_, happly⟩ | ⟨hnot, _⟩
  · exact happly
  · exact absurd h hnot

theorem exists_sum (hl : l.isFunction = false) (hr : r.isFunction = false) :
    exists v, l.sum r = .ok v := by
  unfold Value.sum
  rw [hl, hr]
  rcases l with a | s | f
  · rcases r with b | t | g
    · rcases ArithmeticOp.add.refuses_onNumbers a b with ⟨hdivides, _⟩ | ⟨_, n, hn⟩
      · rcases hdivides with h | h <;> cases h
      · refine ⟨.number n, ?_⟩
        show (ArithmeticOp.add.onNumbers a b).map Value.number = _
        rw [hn]
        rfl
    · exact ⟨_, rfl⟩
    · exact ⟨_, rfl⟩
  · exact ⟨_, rfl⟩
  · exact ⟨_, rfl⟩

/-- Comparison, strict equality and the logical operators have a value for all operands. -/
theorem apply_of_not_isNumeric (hop : op.family.isNumeric = false) (arena : Option Arena) :
    exists v, (op.apply l r arena).1 = .ok v := by
  cases op with
  | arithmetic o => cases o <;> cases hop
  | shift o => cases hop
  | comparison o => exact ⟨_, rfl⟩
  | strict o => exact ⟨_, rfl⟩
  | bitwise o => cases hop
  | logical o => exact ⟨_, rfl⟩

theorem apply_of_no_fault (hfunction : ¬ op.RejectsFunction l r)
    (htext : forall t, ¬ op.RejectsText l r t) (h : ¬ op.RejectsDivisor r)
    (arena : Option Arena) :
    exists v, (op.apply l r arena).1 = .ok v := by
  cases hop : op.family.isNumeric with
  | false => exact apply_of_not_isNumeric hop arena
  | true =>
      cases Decidable.em (op = .arithmetic .add) with
      | inl hadd =>
          rcases isFunction_of_not_rejects hop hfunction with ⟨hl, hr⟩
          rw [hadd]
          exact exists_sum hl hr
      | inr hadd =>
          have hoperands := apply_of_operands hop hadd hfunction htext arena
          rcases hoperands with ⟨hdivisor, _⟩ | ⟨_, n, hn⟩
          · exact absurd hdivisor h
          · exact ⟨.number n, congrArg Prod.fst hn⟩

theorem Fault.apply {diagnostic : Diagnostic} (h : op.Fault l r diagnostic)
    (arena : Option Arena) : op.apply l r arena = (.error diagnostic, arena) := by
  cases h with
  | function hfunction => exact apply_of_rejectsFunction hfunction arena
  | text hfunction htext => exact apply_of_rejectsText hfunction htext arena
  | divisor hfunction htext hdivisor =>
      exact apply_of_rejectsDivisor hfunction htext hdivisor arena

theorem fault_or_value (op : BinaryOp) (l r : Value) (arena : Option Arena) :
    (exists diagnostic, op.Fault l r diagnostic) ∨
      exists v, (op.apply l r arena).1 = .ok v := by
  -- The causes are tried in the order in which they give way to each other.
  by_cases hfunction : op.RejectsFunction l r
  · exact Or.inl ⟨_, .function hfunction⟩
  by_cases htext : exists t, op.RejectsText l r t
  · rcases htext with ⟨t, ht⟩
    exact Or.inl ⟨_, .text hfunction ht⟩
  have htexts : forall t, ¬ op.RejectsText l r t := fun t ht => htext ⟨t, ht⟩
  by_cases hdivisor : op.RejectsDivisor r
  · exact Or.inl ⟨_, .divisor hfunction htexts hdivisor⟩
  · exact Or.inr (apply_of_no_fault hfunction htexts hdivisor arena)

theorem apply_eq_error_iff (op : BinaryOp) (l r : Value) (arena : Option Arena)
    (diagnostic : Diagnostic) :
    (op.apply l r arena).1 = .error diagnostic ↔ op.Fault l r diagnostic := by
  apply eq_error_iff _ (fault_or_value op l r arena)
  intro diagnostic hfault
  rw [hfault.apply arena]

end Outcomes

end BinaryOp

/-!
## Unary operators
-/

namespace UnaryOp

theorem Fault.apply {op : UnaryOp} {v : Value} {diagnostic : Diagnostic}
    (h : op.Fault v diagnostic) : op.apply v = .error diagnostic := by
  cases h with
  | function hop hfunction =>
      rcases apply_eq_numeric hop with ⟨f, hf, _⟩
      cases v with
      | number n => cases hfunction
      | text s => cases hfunction
      | function g =>
          rw [hf]
          rfl
  | text hop hunreadable =>
      rcases apply_eq_numeric hop with ⟨f, hf, _⟩
      rw [hf, hunreadable.operand op.symbol]
      rfl

theorem fault_or_value (op : UnaryOp) (v : Value) :
    (exists diagnostic, op.Fault v diagnostic) ∨ exists w, op.apply v = .ok w := by
  by_cases hop : op = .not
  · rw [hop]
    exact Or.inr ⟨_, rfl⟩
  by_cases hfunction : v.isFunction = true
  · exact Or.inl ⟨_, .function hop hfunction⟩
  by_cases htext : exists t, v.Unreadable t
  · rcases htext with ⟨t, ht⟩
    exact Or.inl ⟨_, .text hop ht⟩
  rcases apply_eq_numeric hop with ⟨f, hf, _⟩
  rcases Value.exists_operand (Bool.eq_false_iff.mpr hfunction) (fun t ht => htext ⟨t, ht⟩)
    op.symbol with ⟨n, hn, _⟩
  right
  rw [hf, hn]
  exact ⟨_, rfl⟩

theorem apply_eq_error_iff (op : UnaryOp) (v : Value) (diagnostic : Diagnostic) :
    op.apply v = .error diagnostic ↔ op.Fault v diagnostic :=
  eq_error_iff (fun _ hfault => hfault.apply) (fault_or_value op v) diagnostic

end UnaryOp

/-!
## All operators
-/

/--
The dispatch by the table ends with a rule for all operands. Its outcome is a diagnostic
exactly for a fault and a value otherwise. Only the numeric operators have faults, and
addition has none but a function.
-/
theorem operators_outcome :
    (forall (op : BinaryOp) (l r : Value) (arena : Option Arena), exists outcome after,
      op.dispatch? l r arena = some (outcome, after) ∧ op.apply l r arena = (outcome, after) ∧
        (forall diagnostic, outcome = .error diagnostic ↔ op.Fault l r diagnostic) ∧
        ((exists v, outcome = .ok v) ↔ forall diagnostic, ¬ op.Fault l r diagnostic) ∧
        (op.family.isNumeric = false -> exists v, outcome = .ok v) ∧
        (op = .arithmetic .add -> l.isFunction = false -> r.isFunction = false ->
          exists v, outcome = .ok v)) ∧
    forall (op : UnaryOp) (v : Value), exists outcome,
      op.dispatch? v = some outcome ∧ op.apply v = outcome ∧
        (forall diagnostic, outcome = .error diagnostic ↔ op.Fault v diagnostic) ∧
        ((exists w, outcome = .ok w) ↔ forall diagnostic, ¬ op.Fault v diagnostic) := by
  constructor
  · intro op l r arena
    have hfault := op.apply_eq_error_iff l r arena
    refine ⟨_, _, op.dispatch?_eq_apply l r arena, rfl, hfault, exists_ok_iff hfault, ?_, ?_⟩
    · intro hop
      exact BinaryOp.apply_of_not_isNumeric hop arena
    · intro hop hl hr
      rw [hop]
      exact BinaryOp.exists_sum hl hr
  · intro op v
    have hfault := op.apply_eq_error_iff v
    exact ⟨_, op.dispatch?_eq_apply v, rfl, hfault, exists_ok_iff hfault⟩

end Equate

import Equate.Operator.Binary

/-!
# Dispatch

The table of coercions can drive the operators. The kinds of the operands are looked up,
and the rule of the operator's group is applied to the coercion found there. A rule is
partial: it knows only the coercions of its own group, and a text or a function is not
read as a number by it. This module applies the rules with `none` for a case that they
do not know, and shows that no such case is met and that the dispatch by the table is
the application of the operator.
-/

namespace Equate

/-!
## Operands
-/

namespace Value

def number? : Value -> Option Number
  | .number n => some n
  | _ => none

def parsed : Value -> Except Diagnostic Value
  | .text s => (parseText s).map .number
  | v => .ok v

def samePayload? : Value -> Value -> Option Bool
  | .number (.float x), .number (.float y) => some (Binary64.same x y)
  | .number (.signed i), .number (.signed j) => some (i == j)
  | .number (.unsigned u), .number (.unsigned v) => some (u == v)
  | .text s, .text t => some (s == t)
  | .function f, .function g => some (f.same g)
  | _, _ => none

/-- The number of texts in a value, which reading it as a number takes away. -/
def texts : Value -> Nat
  | .text _ => 1
  | _ => 0

theorem parseText_of_some {s : String} {x : Float} (h : Numeral.float? s = some x) :
    parseText s = .ok (.float x) := by
  unfold parseText
  rw [h]

theorem parseText_of_none {s : String} (h : Numeral.float? s = none) :
    parseText s = .error (.notANumeral s) := by
  unfold parseText
  rw [h]

theorem parsed_text (s : String) : (text s).parsed = (parseText s).map .number := rfl

theorem parsed_eq_ok {v v' : Value} (h : v.parsed = .ok v') :
    (v.isText = false ∧ v' = v) ∨
      exists s x, v = .text s ∧ Numeral.float? s = some x ∧ v' = .float x := by
  cases v with
  | number n =>
      cases h
      exact Or.inl ⟨rfl, rfl⟩
  | function f =>
      cases h
      exact Or.inl ⟨rfl, rfl⟩
  | text s =>
      cases hs : Numeral.float? s with
      | none =>
          rw [parsed_text, parseText_of_none hs] at h
          cases h
      | some x =>
          rw [parsed_text, parseText_of_some hs] at h
          cases h
          exact Or.inr ⟨s, x, rfl, hs, rfl⟩

theorem parsed_eq_error {v : Value} {diagnostic : Diagnostic}
    (h : v.parsed = .error diagnostic) :
    exists s, v = .text s ∧ Numeral.float? s = none ∧ diagnostic = .notANumeral s := by
  cases v with
  | number n => cases h
  | function f => cases h
  | text s =>
      cases hs : Numeral.float? s with
      | none =>
          rw [parsed_text, parseText_of_none hs] at h
          cases h
          exact ⟨s, rfl, hs, rfl⟩
      | some x =>
          rw [parsed_text, parseText_of_some hs] at h
          cases h

theorem texts_of_parsed {v v' : Value} (h : v.parsed = .ok v') : v'.texts = 0 := by
  rcases parsed_eq_ok h with ⟨htext, rfl⟩ | ⟨s, x, _, _, rfl⟩
  · cases v' with
    | number n => rfl
    | text s => cases htext
    | function f => rfl
  · rfl

theorem texts_pos_of_kind {v : Value} (h : v.kind = .text) : 0 < v.texts := by
  cases v with
  | number n => cases n <;> cases h
  | text s => exact Nat.one_pos
  | function f => cases h

theorem exists_number {v : Value} (hfunction : v.kind ≠ .function) (htext : v.kind ≠ .text) :
    exists n, v = .number n := by
  cases v with
  | number n => exact ⟨n, rfl⟩
  | text s => exact absurd rfl htext
  | function f => exact absurd rfl hfunction

theorem exists_number_of_parsed {v v' : Value} (h : v.parsed = .ok v')
    (hfunction : v.kind ≠ .function) : exists n, v' = .number n := by
  rcases parsed_eq_ok h with ⟨htext, rfl⟩ | ⟨s, x, _, _, rfl⟩
  · apply exists_number hfunction
    intro hkind
    exact absurd (texts_of_parsed h) (Nat.ne_of_gt (texts_pos_of_kind hkind))
  · exact ⟨.float x, rfl⟩

theorem operand_of_parsed {v : Value} {n : Number} (operator : String)
    (h : v.parsed = .ok (.number n)) : v.operand operator = .ok n := by
  rcases parsed_eq_ok h with ⟨_, rfl⟩ | ⟨s, x, rfl, hs, hn⟩
  · rfl
  · cases hn
    exact parseText_of_some hs

theorem operand_of_parsed_error {v : Value} {diagnostic : Diagnostic} (operator : String)
    (h : v.parsed = .error diagnostic) : v.operand operator = .error diagnostic := by
  rcases parsed_eq_error h with ⟨s, rfl, hs, rfl⟩
  exact parseText_of_none hs

theorem isFunction_eq_false {v : Value} (h : v.kind ≠ .function) : v.isFunction = false := by
  cases hv : v.isFunction with
  | false => rfl
  | true => exact absurd ((isFunction_iff v).mp hv) h

section Operands

variable {l r : Value} {operator : String} {diagnostic : Diagnostic} {a b : Number}

theorem operands_of_left_error (hl : l.isFunction = false) (hr : r.isFunction = false)
    (h : l.operand operator = .error diagnostic) :
    operands operator l r = .error diagnostic := by
  unfold operands
  rw [hl, hr, h]
  rfl

theorem operands_of_right_error (hl : l.isFunction = false) (hr : r.isFunction = false)
    (ha : l.operand operator = .ok a) (h : r.operand operator = .error diagnostic) :
    operands operator l r = .error diagnostic := by
  unfold operands
  rw [hl, hr, ha, h]
  rfl

theorem operands_of_ok (hl : l.isFunction = false) (hr : r.isFunction = false)
    (ha : l.operand operator = .ok a) (hb : r.operand operator = .ok b) :
    operands operator l r = .ok (a, b) := by
  unfold operands
  rw [hl, hr, ha, hb]
  rfl

end Operands

theorem sum_of_text {l r : Value} (hl : l.kind ≠ .function) (hr : r.kind ≠ .function)
    (htext : l.kind = .text ∨ r.kind = .text) :
    l.sum r = .ok (.text (l.toText ++ r.toText)) := by
  unfold sum
  rw [isFunction_eq_false hl, isFunction_eq_false hr]
  rcases l with a | s | f
  · rcases r with b | t | g
    · cases htext with
      | inl h => cases a <;> cases h
      | inr h => cases b <;> cases h
    · rfl
    · rfl
  · rfl
  · rfl

end Value

/-!
## Rules of the groups
-/

namespace BinaryOp

def arithmeticBy? (op : BinaryOp) (coercion : Coercion) (l r : Value) :
    Option (Except Diagnostic Value) := do
  let a <- l.number?
  let b <- r.number?
  match op, coercion with
  | .arithmetic o, .unsigned => some ((o.onUnsigned a.toUnsigned b.toUnsigned).map .number)
  | .arithmetic o, .signed => some ((o.onSigned a.toSigned b.toSigned).map .number)
  | .arithmetic o, .float => some ((o.onFloat a.toFloat b.toFloat).map .number)
  | _, _ => none

def shiftBy? (op : BinaryOp) (coercion : Coercion) (l r : Value) : Option Value := do
  let a <- l.number?
  let b <- r.number?
  let count := shiftCount b
  match op, coercion with
  | .shift .left, .unsigned => some (.unsigned (a.toUnsigned <<< count))
  | .shift .right, .unsigned => some (.unsigned (a.toUnsigned >>> count))
  | .shift .left, .signed => some (.signed (a.toSigned <<< count.toInt64))
  | .shift .right, .signed => some (.signed (a.toSigned >>> count.toInt64))
  | _, _ => none

def bitwiseBy? (op : BinaryOp) (coercion : Coercion) (l r : Value) : Option Value := do
  let a <- l.number?
  let b <- r.number?
  match op, coercion with
  | .bitwise o, .unsigned => some (.unsigned (o.onUnsigned a.toUnsigned b.toUnsigned))
  | .bitwise o, .signed => some (.signed (o.onSigned a.toSigned b.toSigned))
  | _, _ => none

def orderBy? (coercion : Coercion) (l r : Value) (arena : Option Arena) :
    Option (Option Ordering × Option Arena) :=
  match coercion with
  | .functionIdentity =>
      match l, r with
      | .function f, .function g =>
          let (order, after) := Arena.compareIn arena f g
          some (some order, after)
      | _, _ => none
  | .functionDominates => some (some (if l.isFunction then .gt else .lt), arena)
  | .text => some (some (compare l.toText r.toText), arena)
  | .float => do
      let a <- l.number?
      let b <- r.number?
      some (Binary64.compare? a.toFloat b.toFloat, arena)
  | .unsigned => do
      let a <- l.number?
      let b <- r.number?
      some (some (compare a.toUnsigned b.toUnsigned), arena)
  | .signed => do
      let a <- l.number?
      let b <- r.number?
      some (some (compare a.toSigned b.toSigned), arena)
  | .mixedSign =>
      match l, r with
      | .number (.signed i), .number (.unsigned u) =>
          some (some (Number.compareMixed i u), arena)
      | .number (.unsigned u), .number (.signed i) =>
          some (some (Number.compareMixed i u).swap, arena)
      | _, _ => none
  | _ => none

def comparisonBy? (op : BinaryOp) (coercion : Coercion) (l r : Value)
    (arena : Option Arena) : Option (Value × Option Arena) := do
  let (order, after) <- orderBy? coercion l r arena
  match op with
  | .comparison o => some (.ofBool (o.holds order), after)
  | _ => none

def strictBy? (op : BinaryOp) (coercion : Coercion) (l r : Value) : Option Value := do
  let identical <-
    match coercion with
    | .kindMismatch => some false
    | .sameKind => l.samePayload? r
    | _ => none
  match op with
  | .strict o => some (.ofBool (o.holds identical))
  | _ => none

def logicalBy? (op : BinaryOp) (l r : Value) : Option Value :=
  match op with
  | .logical o => some (if o.decides (some l) then l else r)
  | _ => none

/-- The rule of a group for a coercion that leaves the operands as they are. -/
def combine? (op : BinaryOp) (coercion : Coercion) (l r : Value) (arena : Option Arena) :
    Option (Except Diagnostic Value × Option Arena) :=
  match op.family with
  | .additive => (op.arithmeticBy? coercion l r).map fun outcome => (outcome, arena)
  | .arithmetic => (op.arithmeticBy? coercion l r).map fun outcome => (outcome, arena)
  | .shift => (op.shiftBy? coercion l r).map fun v => (.ok v, arena)
  | .bitwise => (op.bitwiseBy? coercion l r).map fun v => (.ok v, arena)
  | .comparison =>
      (op.comparisonBy? coercion l r arena).map fun (v, after) => (.ok v, after)
  | .strictEquality => (op.strictBy? coercion l r).map fun v => (.ok v, arena)
  | .logical => none

/-- Apply a binary operator by the coercion of its operands, texts being read first. -/
def dispatch? (op : BinaryOp) (l r : Value) (arena : Option Arena) :
    Option (Except Diagnostic Value × Option Arena) :=
  match _hkinds : op.coercion (some l.kind) (some r.kind) with
  | .undetermined => none
  | .rejectFunction => some (.error (.functionOperand op.symbol), arena)
  | .concatenate => some (.ok (.text (l.toText ++ r.toText)), arena)
  | .parseTexts =>
      match _hl : l.parsed, _hr : r.parsed with
      | .error diagnostic, _ => some (.error diagnostic, arena)
      | .ok _, .error diagnostic => some (.error diagnostic, arena)
      | .ok l', .ok r' => op.dispatch? l' r' arena
  | .shortCircuit => (op.logicalBy? l r).map fun v => (.ok v, arena)
  | coercion => op.combine? coercion l r arena
termination_by l.texts + r.texts
decreasing_by
  rcases (op.coercion_eq_parseTexts_iff l.kind r.kind).mp _hkinds with ⟨_, _, _, _, htext⟩
  rw [Value.texts_of_parsed _hl, Value.texts_of_parsed _hr]
  cases htext with
  | inl h => exact Nat.add_pos_left (Value.texts_pos_of_kind h) _
  | inr h => exact Nat.add_pos_right _ (Value.texts_pos_of_kind h)

/-!
## No case without a rule

Every rule is complete for the coercions that the table gives to its group.
-/

theorem arithmeticBy?_numbers (o : ArithmeticOp) (a b : Number) :
    (arithmetic o).arithmeticBy?
        ((arithmetic o).coercion (some (Value.number a).kind) (some (Value.number b).kind))
        (.number a) (.number b) =
      some ((o.onNumbers a b).map .number) := by
  cases o <;> cases a <;> cases b <;> rfl

theorem shiftBy?_numbers (o : ShiftOp) (a b : Number) :
    (shift o).shiftBy?
        ((shift o).coercion (some (Value.number a).kind) (some (Value.number b).kind))
        (.number a) (.number b) =
      some (.number (o.onNumbers a b)) := by
  cases o <;> cases a <;> cases b <;> rfl

theorem bitwiseBy?_numbers (o : BitwiseOp) (a b : Number) :
    (bitwise o).bitwiseBy?
        ((bitwise o).coercion (some (Value.number a).kind) (some (Value.number b).kind))
        (.number a) (.number b) =
      some (.number (o.onNumbers a b)) := by
  cases a <;> cases b <;> rfl

theorem orderBy?_eq_compare? (o : ComparisonOp) (l r : Value) (arena : Option Arena) :
    orderBy? ((comparison o).coercion (some l.kind) (some r.kind)) l r arena =
      some (l.compare? r arena) := by
  rcases l with a | s | f <;> rcases r with b | t | g
  · cases a <;> cases b <;> rfl
  · cases a <;> rfl
  · cases a <;> rfl
  · cases b <;> rfl
  · rfl
  · rfl
  · cases b <;> rfl
  · rfl
  · rfl

theorem strictBy?_eq_identical (o : StrictOp) (l r : Value) :
    (strict o).strictBy? ((strict o).coercion (some l.kind) (some r.kind)) l r =
      some (.ofBool (o.holds (l.identical r))) := by
  rcases l with a | s | f <;> rcases r with b | t | g
  · cases a <;> cases b <;> rfl
  · cases a <;> rfl
  · cases a <;> rfl
  · cases b <;> rfl
  · rfl
  · rfl
  · cases b <;> rfl
  · rfl
  · rfl

theorem family_eq_additive_iff (op : BinaryOp) :
    op.family = .additive ↔ op = .arithmetic .add := by
  rcases op with o | o | o | o | o | o
  · cases o <;> decide
  all_goals simp [family]

theorem coercion_eq_concatenate_iff (op : BinaryOp) (l r : Kind) :
    op.coercion (some l) (some r) = .concatenate ↔
      op = .arithmetic .add ∧ l ≠ .function ∧ r ≠ .function ∧ (l = .text ∨ r = .text) := by
  rw [← family_eq_additive_iff]
  unfold coercion
  cases op.family <;> cases l <;> cases r <;> decide

theorem coercion_eq_shortCircuit_iff (op : BinaryOp) (l r : Kind) :
    op.coercion (some l) (some r) = .shortCircuit ↔ op.family = .logical := by
  unfold coercion
  cases op.family <;> cases l <;> cases r <;> decide

theorem kinds_of_numbers {op : BinaryOp} {l r : Kind} (hop : op.family.isNumeric = true)
    (hfunction : op.coercion (some l) (some r) ≠ .rejectFunction)
    (hconcatenate : op.coercion (some l) (some r) ≠ .concatenate)
    (hparse : op.coercion (some l) (some r) ≠ .parseTexts) :
    (l ≠ .function ∧ l ≠ .text) ∧ r ≠ .function ∧ r ≠ .text := by
  unfold coercion at hfunction hconcatenate hparse
  revert hop hfunction hconcatenate hparse
  cases op.family <;> cases l <;> cases r <;> decide

theorem combine?_eq_apply {op : BinaryOp} {l r : Value} (arena : Option Arena)
    (hfunction : op.coercion (some l.kind) (some r.kind) ≠ .rejectFunction)
    (hconcatenate : op.coercion (some l.kind) (some r.kind) ≠ .concatenate)
    (hparse : op.coercion (some l.kind) (some r.kind) ≠ .parseTexts)
    (hlogical : op.coercion (some l.kind) (some r.kind) ≠ .shortCircuit) :
    op.combine? (op.coercion (some l.kind) (some r.kind)) l r arena =
      some (op.apply l r arena) := by
  have hnumbers : op.family.isNumeric = true -> exists a b, l = .number a ∧ r = .number b := by
    intro hop
    rcases kinds_of_numbers hop hfunction hconcatenate hparse with ⟨⟨hl, hl'⟩, hr, hr'⟩
    rcases Value.exists_number hl hl' with ⟨a, ha⟩
    rcases Value.exists_number hr hr' with ⟨b, hb⟩
    exact ⟨a, b, ha, hb⟩
  cases op with
  | arithmetic o =>
      rcases hnumbers (by cases o <;> rfl) with ⟨a, b, rfl, rfl⟩
      have hcombine : (arithmetic o).combine?
          ((arithmetic o).coercion (some (Value.number a).kind) (some (Value.number b).kind))
          (.number a) (.number b) arena =
            some ((o.onNumbers a b).map .number, arena) := by
        have hrule := arithmeticBy?_numbers o a b
        cases o <;> exact congrArg (Option.map fun outcome => (outcome, arena)) hrule
      rw [hcombine]
      cases o <;> rfl
  | shift o =>
      rcases hnumbers rfl with ⟨a, b, rfl, rfl⟩
      show ((shift o).shiftBy? _ _ _).map _ = _
      rw [shiftBy?_numbers]
      rfl
  | comparison o =>
      have hrule := orderBy?_eq_compare? o l r arena
      show ((comparison o).comparisonBy? _ l r arena).map _ = _
      unfold comparisonBy?
      rw [hrule]
      rfl
  | strict o =>
      show ((strict o).strictBy? _ _ _).map _ = _
      rw [strictBy?_eq_identical]
      rfl
  | bitwise o =>
      rcases hnumbers rfl with ⟨a, b, rfl, rfl⟩
      show ((bitwise o).bitwiseBy? _ _ _).map _ = _
      rw [bitwiseBy?_numbers]
      rfl
  | logical o => exact absurd ((coercion_eq_shortCircuit_iff _ _ _).mpr rfl) hlogical

/--
The numeric operators other than addition only see the numbers of their operands, and
apart from arithmetic they have a value for any two numbers.
-/
theorem apply_eq_numeric {op : BinaryOp} (hop : op.family.isNumeric = true)
    (hadd : op ≠ .arithmetic .add) :
    exists f : Number -> Number -> Except Diagnostic Number,
      (forall l r arena, op.apply l r arena = (Value.numeric op f l r, arena)) ∧
        ((exists o, op = .arithmetic o ∧ f = o.onNumbers) ∨
          (forall o, op ≠ .arithmetic o) ∧ forall a b, exists n, f a b = .ok n) := by
  cases op with
  | arithmetic o =>
      refine ⟨o.onNumbers, ?_, Or.inl ⟨o, rfl, rfl⟩⟩
      intro l r arena
      cases o with
      | add => exact absurd rfl hadd
      | mul => rfl
      | div => rfl
      | mod => rfl
      | sub => rfl
  | shift o =>
      refine ⟨fun a b => .ok (o.onNumbers a b), fun _ _ _ => rfl, Or.inr ⟨?_, ?_⟩⟩
      · intro o' h
        cases h
      · intro a b
        exact ⟨_, rfl⟩
  | bitwise o =>
      refine ⟨fun a b => .ok (o.onNumbers a b), fun _ _ _ => rfl, Or.inr ⟨?_, ?_⟩⟩
      · intro o' h
        cases h
      · intro a b
        exact ⟨_, rfl⟩
  | comparison o => cases hop
  | strict o => cases hop
  | logical o => cases hop

section Texts

variable {op : BinaryOp} {l r : Value}

theorem apply_of_concatenate
    (h : op.coercion (some l.kind) (some r.kind) = .concatenate) (arena : Option Arena) :
    op.apply l r arena = (.ok (.text (l.toText ++ r.toText)), arena) := by
  rcases (op.coercion_eq_concatenate_iff l.kind r.kind).mp h with ⟨rfl, hl, hr, htext⟩
  show (l.sum r, arena) = _
  rw [Value.sum_of_text hl hr htext]

theorem numeric_of_parseTexts
    (h : op.coercion (some l.kind) (some r.kind) = .parseTexts) :
    l.kind ≠ .function ∧ r.kind ≠ .function ∧
      exists f, forall l r arena, op.apply l r arena = (Value.numeric op f l r, arena) := by
  rcases (op.coercion_eq_parseTexts_iff l.kind r.kind).mp h with ⟨hop, hfamily, hl, hr, _⟩
  have hadd : op ≠ .arithmetic .add := fun hadd => hfamily (op.family_eq_additive_iff.mpr hadd)
  rcases apply_eq_numeric hop hadd with ⟨f, hf, _⟩
  exact ⟨hl, hr, f, hf⟩

theorem apply_of_left_error {diagnostic : Diagnostic}
    (h : op.coercion (some l.kind) (some r.kind) = .parseTexts)
    (hparsed : l.parsed = .error diagnostic) (arena : Option Arena) :
    op.apply l r arena = (.error diagnostic, arena) := by
  rcases numeric_of_parseTexts h with ⟨hl, hr, f, hf⟩
  have hoperand := Value.operand_of_parsed_error op.symbol hparsed
  rw [hf, Value.numeric, Value.operands_of_left_error (Value.isFunction_eq_false hl)
    (Value.isFunction_eq_false hr) hoperand]

theorem apply_of_right_error {l' : Value} {diagnostic : Diagnostic}
    (h : op.coercion (some l.kind) (some r.kind) = .parseTexts)
    (hparsed : l.parsed = .ok l') (hparsed' : r.parsed = .error diagnostic)
    (arena : Option Arena) :
    op.apply l r arena = (.error diagnostic, arena) := by
  rcases numeric_of_parseTexts h with ⟨hl, hr, f, hf⟩
  rcases Value.exists_number_of_parsed hparsed hl with ⟨a, rfl⟩
  have hoperand := Value.operand_of_parsed op.symbol hparsed
  have hoperand' := Value.operand_of_parsed_error op.symbol hparsed'
  rw [hf, Value.numeric, Value.operands_of_right_error (Value.isFunction_eq_false hl)
    (Value.isFunction_eq_false hr) hoperand hoperand']

theorem apply_of_parsed {l' r' : Value}
    (h : op.coercion (some l.kind) (some r.kind) = .parseTexts)
    (hparsed : l.parsed = .ok l') (hparsed' : r.parsed = .ok r') (arena : Option Arena) :
    op.apply l r arena = op.apply l' r' arena := by
  rcases numeric_of_parseTexts h with ⟨hl, hr, f, hf⟩
  rcases Value.exists_number_of_parsed hparsed hl with ⟨a, rfl⟩
  rcases Value.exists_number_of_parsed hparsed' hr with ⟨b, rfl⟩
  have hoperand := Value.operand_of_parsed op.symbol hparsed
  have hoperand' := Value.operand_of_parsed op.symbol hparsed'
  rw [hf, hf, Value.numeric, Value.operands_of_ok (Value.isFunction_eq_false hl)
    (Value.isFunction_eq_false hr) hoperand hoperand']
  rfl

theorem logicalBy?_eq_apply
    (h : op.coercion (some l.kind) (some r.kind) = .shortCircuit) (arena : Option Arena) :
    (op.logicalBy? l r).map (fun v => (.ok v, arena)) = some (op.apply l r arena) := by
  have hop := (op.coercion_eq_shortCircuit_iff l.kind r.kind).mp h
  rcases op with o | o | o | o | o | o
  · cases o <;> cases hop
  · cases hop
  · cases hop
  · cases hop
  · cases hop
  · rfl

end Texts

/-- The dispatch by the table always finds a rule, and it applies the operator. -/
theorem dispatch?_eq_apply (op : BinaryOp) (l r : Value) (arena : Option Arena) :
    op.dispatch? l r arena = some (op.apply l r arena) := by
  -- The induction follows the second look at the table, which sees no text any more.
  fun_induction dispatch? op l r arena with
  | case1 l r h => exact absurd h (op.coercion_some_ne_undetermined l.kind r.kind)
  | case2 l r h => rw [apply_of_rejectFunction h]
  | case3 l r h => rw [apply_of_concatenate h]
  | case4 l r h diagnostic hl => rw [apply_of_left_error h hl]
  | case5 l r h l' diagnostic hl hr => rw [apply_of_right_error h hl hr]
  | case6 l r h l' r' hl hr ih => rw [ih, apply_of_parsed h hl hr]
  | case7 l r h => exact logicalBy?_eq_apply h arena
  | case8 l r _ hfunction hconcatenate hparse hlogical =>
      exact combine?_eq_apply arena hfunction hconcatenate hparse hlogical

end BinaryOp

/-!
## Unary operators
-/

namespace UnaryOp

def combine? : UnaryOp -> Value -> Option Value
  | .plus, .number n => some (.number n.asSigned)
  | .plus, v => some v
  | .negate, .number n => some (.number n.negate)
  | .complement, .number n => some (.number n.complement)
  | _, _ => none

def dispatch? (op : UnaryOp) (v : Value) : Option (Except Diagnostic Value) :=
  if op = .not then some (.ok (.ofBool (!v.isTrue)))
  else if v.isFunction then some (.error (.functionOperand op.symbol))
  else
    match v.parsed with
    | .error diagnostic => some (.error diagnostic)
    | .ok v' => (op.combine? v').map .ok

theorem apply_eq_numeric {op : UnaryOp} (hop : op ≠ .not) :
    exists f : Number -> Number,
      (forall v, op.apply v = (v.operand op.symbol).map fun n => .number (f n)) ∧
      forall n, op.combine? (.number n) = some (.number (f n)) := by
  cases op with
  | plus => exact ⟨Number.asSigned, fun _ => rfl, fun _ => rfl⟩
  | negate => exact ⟨Number.negate, fun _ => rfl, fun _ => rfl⟩
  | complement => exact ⟨Number.complement, fun _ => rfl, fun _ => rfl⟩
  | not => exact absurd rfl hop

theorem dispatch?_eq_apply (op : UnaryOp) (v : Value) :
    op.dispatch? v = some (op.apply v) := by
  unfold dispatch?
  split
  · rename_i hop
    rw [hop]
    rfl
  · rename_i hop
    rcases apply_eq_numeric hop with ⟨f, hf, hcombine⟩
    rw [hf]
    split
    · rename_i hfunction
      cases v with
      | number n => cases hfunction
      | text s => cases hfunction
      | function g => rfl
    · rename_i hfunction
      have hkind : v.kind ≠ .function := by
        intro hkind
        exact hfunction ((Value.isFunction_iff v).mpr hkind)
      cases hparsed : v.parsed with
      | error diagnostic =>
          rw [Value.operand_of_parsed_error op.symbol hparsed]
          rfl
      | ok v' =>
          rcases Value.exists_number_of_parsed hparsed hkind with ⟨n, rfl⟩
          rw [Value.operand_of_parsed op.symbol hparsed]
          show (op.combine? (.number n)).map _ = _
          rw [hcombine]
          rfl

end UnaryOp
end Equate

import Equate.Expr
import Equate.Token

/-!
# The grammar of expressions

An expression is written as a list of tokens. Written without parentheses of its own, a
tree need not be the tree that its tokens show: a sum below a product would come back as
a product below a sum. The grammar names the trees that are what they look like. Every
node has a level that says how tightly it binds, and every position asks for one.
-/

namespace Equate

/-!
## Tokens of operators

A mark in the place of an operator stands for one operator, and every operator has one
mark. Prefix operators and binary operators are looked up apart, since plus and minus
are both.
-/

def UnaryOp.mark : UnaryOp -> Mark
  | .plus => .plus
  | .negate => .minus
  | .complement => .tilde
  | .not => .bang

def BinaryOp.mark : BinaryOp -> Mark
  | .arithmetic .mul => .star
  | .arithmetic .div => .slash
  | .arithmetic .mod => .percent
  | .arithmetic .add => .plus
  | .arithmetic .sub => .minus
  | .shift .left => .shiftLeft
  | .shift .right => .shiftRight
  | .comparison .less => .less
  | .comparison .lessEqual => .lessEqual
  | .comparison .greater => .greater
  | .comparison .greaterEqual => .greaterEqual
  | .comparison .equal => .equalEqual
  | .comparison .notEqual => .bangEqual
  | .strict .equal => .tripleEqual
  | .strict .notEqual => .bangDoubleEqual
  | .bitwise .and => .ampersand
  | .bitwise .xor => .caret
  | .bitwise .or => .pipe
  | .logical .and => .doubleAmpersand
  | .logical .or => .doublePipe

theorem UnaryOp.unary?_mark (op : UnaryOp) : op.mark.unary? = some op := by
  cases op <;> rfl

theorem BinaryOp.binary?_mark (op : BinaryOp) : op.mark.binary? = some op := by
  rcases op with o | o | o | o | o | o <;> cases o <;> rfl

theorem Token.unary?_eq_some_iff {t : Token} {op : UnaryOp} :
    t.unary? = some op ↔ t = .mark op.mark := by
  constructor
  · intro h
    cases t with
    | mark m =>
        cases m <;> cases h <;> rfl
    | _ => cases h
  · intro h
    rw [h]
    exact op.unary?_mark

theorem Token.binary?_eq_some_iff {t : Token} {op : BinaryOp} :
    t.binary? = some op ↔ t = .mark op.mark := by
  constructor
  · intro h
    cases t with
    | mark m =>
        cases m <;> cases h <;> rfl
    | _ => cases h
  · intro h
    rw [h]
    exact op.binary?_mark

/-!
## Tiers of binary operators

The language orders its binary operators by a table of precedence. Operators of one row
bind alike, and the rows stand from the loosest to the tightest. The grammar goes by this
table alone. The reader of expressions has levels of its own, which come to the same tiers.
-/

namespace BinaryOp

def tiers : List (List Mark) :=
  [[.doublePipe],
    [.doubleAmpersand],
    [.pipe],
    [.caret],
    [.ampersand],
    [.equalEqual, .bangEqual, .tripleEqual, .bangDoubleEqual],
    [.less, .lessEqual, .greater, .greaterEqual],
    [.shiftLeft, .shiftRight],
    [.plus, .minus],
    [.star, .slash, .percent]]

/-- The row in which an operator stands, where the loosest is the first. -/
def tier (op : BinaryOp) : Nat :=
  tiers.findIdx (fun row => row.contains op.mark) + 1

theorem level_eq_tier (op : BinaryOp) : op.level = op.tier := by
  rcases op with o | o | o | o | o | o <;> cases o <;> rfl

theorem tier_pos (op : BinaryOp) : 0 < op.tier :=
  Nat.succ_pos _

theorem tier_le (op : BinaryOp) : op.tier ≤ 10 := by
  rcases op with o | o | o | o | o | o <;> cases o <;> decide

end BinaryOp

/-!
## Tokens of expressions
-/

/-- The token of a literal. No token stands for a signed word or a function. -/
def Value.literal? : Value -> Option Token
  | .number (.unsigned n) => some (.integer n)
  | .number (.float x) => some (.float x)
  | .number (.signed _) => none
  | .text s => some (.text s)
  | .function _ => none

namespace Expr

mutual

def tokens : Expr -> List Token
  | .constant v => (v.bind Value.literal?).toList
  | .counter => [.mark .dollar]
  | .name n => [.name n]
  | .unary op e => .mark op.mark :: e.tokens
  | .binary op l r => l.tokens ++ .mark op.mark :: r.tokens
  | .group e => .mark .lParen :: e.tokens ++ [.mark .rParen]
  | .conditional c t f =>
      c.tokens ++ .mark .question :: t.tokens ++ .mark .colon :: f.tokens
  | .index s i => s.tokens ++ .mark .lBracket :: i.tokens ++ [.mark .rBracket]
  | .member l r => l.tokens ++ .mark .dot :: r.tokens
  | .call f args => f.tokens ++ .mark .lParen :: argumentTokens args ++ [.mark .rParen]

def argumentTokens : List Expr -> List Token
  | [] => []
  | [e] => e.tokens
  | e :: es => e.tokens ++ .mark .comma :: argumentTokens es

end

def completeTokens (es : List Expr) : List Token :=
  es.flatMap fun e => e.tokens ++ [.mark .comma]

theorem argumentTokens_cons_cons (e e' : Expr) (es : List Expr) :
    argumentTokens (e :: e' :: es) =
      e.tokens ++ .mark .comma :: argumentTokens (e' :: es) := by
  rw [argumentTokens]
  exact List.cons_ne_nil e' es

theorem argumentTokens_append_singleton (es : List Expr) (e : Expr) :
    argumentTokens (es ++ [e]) = completeTokens es ++ e.tokens := by
  induction es with
  | nil =>
      rw [List.nil_append, argumentTokens]
      rfl
  | cons first rest ih =>
      have hne : rest ++ [e] ≠ [] := by
        simp
      rw [List.cons_append, argumentTokens, ih]
      · simp [completeTokens]
      · exact hne

/-!
## Levels

A conditional binds loosest. The ten tiers of the binary operators come next, then the
prefix operators, then calls, indices and members. A single token or a group cannot be
torn apart.
-/

def level : Expr -> Nat
  | .conditional .. => 0
  | .binary op _ _ => op.tier
  | .unary .. => 11
  | .index .. => 12
  | .member .. => 12
  | .call .. => 12
  | .constant _ => 13
  | .counter => 13
  | .name _ => 13
  | .group _ => 13

def IsUnary (e : Expr) : Prop :=
  11 ≤ e.level

def IsPostfix (e : Expr) : Prop :=
  12 ≤ e.level

def IsPrimary (e : Expr) : Prop :=
  e.level = 13

end Expr

/-!
## Grammatical trees
-/

namespace Expr

mutual

/--
A tree in which every position holds an expression that binds tightly enough for it.
Binary operators associate to the left, and a constant has a token.
-/
def Grammatical : Expr -> Prop
  | .constant v => (v.bind Value.literal?).isSome = true
  | .counter => True
  | .name _ => True
  | .unary _ e => e.IsUnary ∧ e.Grammatical
  | .binary op l r =>
      (op.tier ≤ l.level ∧ op.tier < r.level) ∧ l.Grammatical ∧ r.Grammatical
  | .group e => e.Grammatical
  | .conditional c t f =>
      0 < c.level ∧ c.Grammatical ∧ t.Grammatical ∧ f.Grammatical
  | .index s i => s.IsPostfix ∧ s.Grammatical ∧ i.Grammatical
  | .member l r => (l.IsPostfix ∧ r.IsPrimary) ∧ l.Grammatical ∧ r.Grammatical
  | .call f args => f.IsPostfix ∧ f.Grammatical ∧ AllGrammatical args

def AllGrammatical : List Expr -> Prop
  | [] => True
  | e :: es => e.Grammatical ∧ AllGrammatical es

end

theorem allGrammatical_iff (es : List Expr) :
    AllGrammatical es ↔ forall e, e ∈ es -> e.Grammatical := by
  induction es with
  | nil =>
      simp [AllGrammatical]
  | cons e es ih =>
      simp [AllGrammatical, ih]

theorem IsPostfix.isUnary {e : Expr} (h : e.IsPostfix) : e.IsUnary :=
  Nat.le_trans (by decide) h

theorem IsPrimary.isPostfix {e : Expr} (h : e.IsPrimary) : e.IsPostfix :=
  Nat.le_trans (by decide) (Nat.le_of_eq h.symm)

theorem Grammatical.tokens_ne_nil {e : Expr} (h : e.Grammatical) : e.tokens ≠ [] := by
  cases e with
  | constant v =>
      rw [Grammatical, Option.isSome_iff_exists] at h
      rcases h with ⟨t, ht⟩
      rw [tokens, ht]
      exact List.cons_ne_nil t []
  | _ => simp [tokens]

end Expr
end Equate

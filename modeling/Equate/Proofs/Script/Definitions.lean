import Equate.Proofs.Session.Outcomes
import Equate.Proofs.Token.Lexemes
import Equate.Script

/-!
# Definitions as statements

A definition is read by rules of its own: it is split at its first `=`, and what stands behind
that has to be one expression. A line that starts with `let` is cut into tokens as a whole and
read by the grammar of statements. Definitions of names on one line mean the same both ways, so
that a script with definitions runs like the script behind the lines that state them.
-/

namespace Equate

/-- A definition of a name that is no keyword, by a text on one line. -/
structure Definition where
  name : String
  expression : String
  isWord : name.toList ∈ Shape.word.language
  notKeyword : forall k : Keyword, k.word ≠ name
  onOneLine : '\n' ∉ expression.toList

namespace Definition

open Lexer

def argument (d : Definition) : String :=
  d.name ++ "=" ++ d.expression

def line (d : Definition) : String :=
  "let " ++ d.name ++ " = " ++ d.expression

def linesBefore (ds : List Definition) (source : String) : String :=
  ds.foldr (fun d rest => d.line ++ "\n" ++ rest) source

end Definition

/-!
## Cutting a line
-/

namespace Piece

open Lexer

theorem all_word_append {w : List Char} (h : w ∈ Shape.word.language) {c : Char}
    (hc : isWordChar c = false) (rest : List Char) :
    all (w ++ c :: rest) = ⟨.word, w⟩ :: all (c :: rest) := by
  rcases mem_oneOf_mul_iff.mp h with ⟨d, tail, hd, htail, rfl⟩
  rw [List.cons_append, all_cons, cut_of_wordStart hd, takeWhile_of_stop htail hc,
    List.drop_left]

theorem place_space (line : Nat) (cs : List Char) :
    place line (all (' ' :: cs)) = place line (all cs) := by
  rw [all_cons, cut_of_blank rfl, place_cons_of_skipped _ _ rfl]
  cases cs with
  | nil => rfl
  | cons c cs =>
      by_cases hc : isSkipped c = true
      · rw [List.takeWhile_cons_of_pos hc, all_cons, cut_of_blank hc,
          place_cons_of_skipped _ _ rfl]
        rfl
      · rw [List.takeWhile_cons_of_neg hc]
        rfl

end Piece

namespace Definition

theorem tokenize_line (d : Definition) :
    tokenize d.line = (tokenize d.expression).map fun ts =>
      ⟨.keyword .let, 1⟩ :: ⟨.name d.name, 1⟩ :: ⟨.mark .equals, 1⟩ :: ts := by
  have hline : d.line.toList =
      "let".toList ++ ' ' :: (d.name.toList ++ ' ' :: '=' :: ' ' :: d.expression.toList) := by
    simp [line]
  have hlet : "let".toList ∈ Shape.word.language :=
    Lexer.cons_mem_oneOf_mul (q := ['e', 't']) rfl (List.all_eq_true.mp rfl)
  have hequals (cs : List Char) :
      Piece.all ('=' :: ' ' :: cs) = ⟨.mark .equals, ['=']⟩ :: Piece.all (' ' :: cs) := rfl
  have hname : Piece.meaning ⟨.word, d.name.toList⟩ = .token (.name d.name) := by
    change Piece.Meaning.token (Piece.ofWord (String.ofList d.name.toList)) = _
    rw [String.ofList_toList, Piece.ofWord_eq_iff.mpr (Or.inr ⟨d.notKeyword, rfl⟩)]
  rw [tokenize, hline, Piece.all_word_append hlet rfl, Piece.place_cons_of_token _ _ rfl,
    Piece.place_space, Piece.all_word_append d.isWord rfl, Piece.place_cons_of_token _ _ hname,
    Piece.place_space, hequals, Piece.place_cons_of_token _ _ rfl, Piece.place_space]
  change (((tokenize d.expression).map _).map _).map _ = _
  cases tokenize d.expression <;> rfl

end Definition

/-!
## Reading a line
-/

namespace Statement

def ofSource? (source : String) : Option (List Statement) :=
  (tokenize source).toOption.bind fun ts => (programOfTokens ts).toOption

theorem ofSource?_append_newLine (a b : String) :
    ofSource? (a ++ "\n" ++ b) = (ofSource? a).bind fun ss =>
      (ofSource? b).map fun others => ss ++ others.map (shift (lineCount a)) := by
  unfold ofSource?
  rw [tokenize_append_newLine]
  cases tokenize a with
  | error e => rfl
  | ok ts =>
      cases tokenize b with
      | error e =>
          exact (Option.bind_fun_none (programOfTokens ts).toOption).symm
      | ok us =>
          change (programOfTokens (ts ++ _ :: us.map _)).toOption =
            (programOfTokens ts).toOption.bind fun ss => (programOfTokens us).toOption.map _
          rw [programOfTokens_append]
          cases programOfTokens ts with
          | error e => rfl
          | ok ss => cases programOfTokens us <;> rfl

end Statement

namespace Draft

theorem concludeEnd_toOption (line line' : Nat) (enclosures : List Enclosure) (e : Expr) :
    (concludeEnd line enclosures e).toOption = (concludeEnd line' enclosures e).toOption := by
  induction enclosures generalizing e with
  | nil => rfl
  | cons enclosure enclosures ih =>
      cases enclosure with
      | whenFalse c t => exact ih (.conditional c t e)
      | _ => rfl

theorem run_toOption (line line' : Nat) (d : Draft) (ts : List PlacedToken) :
    (run line d ts).toOption = (run line' d ts).toOption := by
  induction ts generalizing d with
  | nil =>
      rcases d with ⟨enclosures, pending, place⟩
      cases place with
      | after operand =>
          have hmap (ended : Except SyntaxError Expr) :
              (ended.map fun e => (e, ([] : List PlacedToken))).toOption =
                ended.toOption.map fun e => (e, []) := by
            cases ended <;> rfl
          change ((concludeEnd line enclosures _).map _).toOption =
            ((concludeEnd line' enclosures _).map _).toOption
          rw [hmap, hmap, concludeEnd_toOption line line']
      | _ => rfl
  | cons t ts ih =>
      rw [run, run]
      cases d.step t with
      | next d => exact ih d
      | _ => rfl

end Draft

/-- Whether an expression is read does not depend on the line on which its end is reported. -/
theorem Expr.ofTokens_toOption (line line' : Nat) (ts : List PlacedToken) :
    (Expr.ofTokens line ts).toOption = (Expr.ofTokens line' ts).toOption :=
  Draft.run_toOption line line' .start ts

namespace Definition

def value? (d : Definition) : Option Expr :=
  (tokenize d.expression).toOption.bind fun ts =>
    (Expr.ofTokens 0 ts).toOption.bind fun found =>
      if found.2.isEmpty then some found.1 else none

def statement (d : Definition) (e : Expr) : Statement :=
  .define d.name e 1

theorem ofSource?_line (d : Definition) :
    Statement.ofSource? d.line = d.value?.map fun e => [d.statement e] := by
  unfold Statement.ofSource? value?
  rw [tokenize_line]
  cases htokens : tokenize d.expression with
  | error e => rfl
  | ok ts =>
      have hline : Statement.linesOf
          (⟨.keyword .let, 1⟩ :: ⟨.name d.name, 1⟩ :: ⟨.mark .equals, 1⟩ :: ts) =
            [⟨.keyword .let, 1⟩ :: ⟨.name d.name, 1⟩ :: ⟨.mark .equals, 1⟩ :: ts] := by
        have hts := fun t ht => (onLine_of_tokenize d.onOneLine htokens t ht).1
        apply Statement.linesOf_of_ne
        simpa using hts
      change (Statement.programOfTokens _).toOption =
        ((Expr.ofTokens 0 ts).toOption.bind _).map _
      rw [Statement.programOfTokens_eq, hline, Expr.ofTokens_toOption 0 1]
      change (do
        let s ← (Expr.ofTokens 1 ts >>= fun found =>
          Statement.complete (d.statement found.1) found.2)
        return [s] : Except SyntaxError (List Statement)).toOption = _
      cases Expr.ofTokens 1 ts with
      | error e => rfl
      | ok found =>
          rcases found with ⟨e, _ | ⟨t, rest⟩⟩ <;> rfl

def establish (d : Definition) (e : Expr) : SessionM Unit := do
  Session.define d.name (← Session.evaluate e 0) 0

theorem outcome?_execute (d : Definition) (e : Expr) (w : Workplace) :
    outcome? (Session.execute (d.statement e)) w =
      (outcome? (d.establish e) w).map fun found => (none, found.2) := by
  change outcome? (Session.evaluate e 1 >>= fun value =>
    Session.define d.name value 1 >>= fun _ => pure none) w = _
  unfold establish
  rw [outcome?_bind, outcome?_bind, Session.outcome?_evaluate e 1 0, Option.map_bind]
  congr 1
  funext found
  rw [outcome?_bind, Session.outcome?_define d.name found.1 1 0, Function.comp_apply]
  cases outcome? (Session.define d.name found.1 0) found.2 <;> rfl

/-!
## Splitting a definition
-/

theorem isBlank_of_isNameChar {c : Char} (h : Script.isNameChar c = true) :
    Text.isBlank c = false := by
  rcases Bool.or_eq_true_iff.mp h with h | h
  · have hrange : 48 ≤ c.toNat ∧ c.toNat ≤ 122 := by
      rcases Bool.or_eq_true_iff.mp h with halpha | hdigit
      · have hbounds := Lexer.toNat_of_isAlpha halpha
        omega
      · have hbounds := Lexer.toNat_of_isDigit hdigit
        omega
    simp only [Text.isBlank, Bool.or_eq_false_iff, Bool.and_eq_false_iff, decide_eq_false_iff_not,
      beq_eq_false_iff_ne]
    omega
  · cases beq_iff_eq.mp h
    rfl

theorem isNameChar_of_mem (d : Definition) {c : Char} (h : c ∈ d.name.toList) :
    Script.isNameChar c = true := by
  rcases Lexer.mem_oneOf_mul_iff.mp d.isWord with ⟨first, tail, hfirst, htail, hname⟩
  rw [hname] at h
  rcases List.mem_cons.mp h with rfl | h
  · rcases Bool.or_eq_true_iff.mp hfirst with halpha | hline
    · rw [Script.isNameChar, Char.isAlphanum, halpha]
      rfl
    · rw [Script.isNameChar, hline, Bool.or_true]
  · exact htail c h

theorem dropWhile_isBlank {cs : List Char} (h : forall c, c ∈ cs -> Text.isBlank c = false) :
    cs.dropWhile Text.isBlank = cs := by
  cases cs with
  | nil => rfl
  | cons c cs => rw [List.dropWhile_cons, h c List.mem_cons_self]; rfl

theorem splitDefinition?_argument (d : Definition) :
    Script.splitDefinition? d.argument = some (d.name, d.expression) := by
  have hargument : d.argument.toList = d.name.toList ++ '=' :: d.expression.toList := by
    simp [argument]
  have hequals : d.name.toList ∈ Lexer.manyOf fun c => c != '=' := by
    intro c hc
    have hname := d.isNameChar_of_mem hc
    by_contra h
    have hc' : c = '=' := by simpa using h
    subst hc'
    cases hname
  have hblank : forall c, c ∈ d.name.toList -> Text.isBlank c = false :=
    fun c hc => isBlank_of_isNameChar (d.isNameChar_of_mem hc)
  have hdrop : (d.name.toList ++ '=' :: d.expression.toList).dropWhile (fun c => c != '=') =
      '=' :: d.expression.toList :=
    List.dropWhile_append_of_pos hequals
  have htrim : Text.trimBlanks d.name.toList = d.name.toList := by
    rw [Text.trimBlanks, dropWhile_isBlank hblank, dropWhile_isBlank, List.reverse_reverse]
    intro c hc
    exact hblank c (List.mem_reverse.mp hc)
  have hne : d.name.toList.isEmpty = false := by
    rw [List.isEmpty_eq_false_iff]
    exact Piece.ne_nil_of_mem_language d.isWord
  have hall : d.name.toList.all Script.isNameChar = true :=
    List.all_eq_true.mpr fun c hc => d.isNameChar_of_mem hc
  rw [Script.splitDefinition?, hargument, Lexer.takeWhile_of_stop hequals rfl, htrim, hdrop, hne,
    hall]
  simp

end Definition

/-!
## Running scripts
-/

namespace Script

def perform (source : String) : ScriptM (Option Value) := do
  let ts ← ofSyntax (tokenize source)
  let statements ← ofSyntax (Statement.programOfTokens ts)
  ofSession (Session.executeAll none statements)

theorem body_eq (source : String) (options : ScriptOptions) :
    body source options = (do
      ofSession (Session.setCounter options.origin)
      options.definitions.forM define
      perform source) :=
  rfl

section

variable {α : Type} (w : Workplace)

theorem outcome?_ofSyntax (found : Except SyntaxError α) :
    outcome? (ofSyntax found) w = found.toOption.map fun a => (a, w) := by
  cases found <;> rfl

theorem ofSession_run (operation : SessionM α) :
    (ofSession operation).run w =
      ((operation.run w).1.mapError ScriptError.runError, (operation.run w).2) := by
  have hbind (k : Except RunError α -> StateM Workplace (Except ScriptError α)) :
      (operation.run >>= k) w = k (operation.run w).1 (operation.run w).2 := rfl
  unfold ofSession
  rw [ExceptT.run_mk, hbind]
  cases (operation.run w).1 <;> rfl

theorem outcome?_ofSession (operation : SessionM α) :
    outcome? (ofSession operation) w = outcome? operation w := by
  unfold outcome?
  rw [ofSession_run]
  rcases operation.run w with ⟨_ | a, after⟩ <;> rfl

end

theorem outcome?_perform (source : String) (w : Workplace) :
    outcome? (perform source) w =
      (Statement.ofSource? source).bind fun ss => outcome? (Session.executeAll none ss) w := by
  unfold perform Statement.ofSource?
  rw [outcome?_bind, outcome?_ofSyntax, Option.bind_map, Option.bind_assoc]
  congr 1
  funext ts
  change outcome? (ofSyntax (Statement.programOfTokens ts) >>= _) w = _
  rw [outcome?_bind, outcome?_ofSyntax, Option.bind_map]
  congr 1
  funext ss
  exact outcome?_ofSession w (Session.executeAll none ss)

theorem outcome?_define (d : Definition) (w : Workplace) :
    outcome? (define d.argument) w = d.value?.bind fun e => outcome? (d.establish e) w := by
  unfold define Definition.value?
  rw [d.splitDefinition?_argument, Option.bind_assoc]
  dsimp only
  rw [outcome?_bind, outcome?_ofSyntax, Option.bind_map]
  congr 1
  funext ts
  change outcome? (ofSyntax (Expr.ofTokens 0 ts) >>= _) w = _
  rw [outcome?_bind, outcome?_ofSyntax, Option.bind_map, Option.bind_assoc]
  congr 1
  funext found
  rcases found with ⟨e, _ | ⟨t, rest⟩⟩
  · exact outcome?_ofSession w (d.establish e)
  · rfl

/-- A line that states a definition does what the definition does. -/
theorem outcome?_perform_line (d : Definition) (source : String) :
    outcome? (perform (d.line ++ "\n" ++ source)) =
      outcome? (define d.argument >>= fun _ => perform source) := by
  funext w
  rw [outcome?_perform, Statement.ofSource?_append_newLine, d.ofSource?_line, outcome?_bind,
    outcome?_define]
  cases d.value? with
  | none => rfl
  | some e =>
      change ((Statement.ofSource? source).map fun others => _).bind _ = _
      rw [Option.bind_map, Option.bind_some]
      calc (Statement.ofSource? source).bind (fun others =>
            outcome? (Session.executeAll none
              (d.statement e :: others.map (Statement.shift (lineCount d.line)))) w)
        _ = (Statement.ofSource? source).bind (fun others =>
              (outcome? (d.establish e) w).bind fun found =>
                outcome? (Session.executeAll none others) found.2) := by
          congr 1
          funext others
          rw [Session.executeAll, outcome?_bind, d.outcome?_execute, Option.bind_map]
          congr 1
          funext found
          exact congrFun (Session.outcome?_executeAll_shift (lineCount d.line) none others) found.2
        _ = (outcome? (d.establish e) w).bind (fun found =>
              (Statement.ofSource? source).bind fun others =>
                outcome? (Session.executeAll none others) found.2) :=
          Option.bind_comm _ _
        _ = (outcome? (d.establish e) w).bind (fun found =>
              outcome? (perform source) found.2) := by
          congr 1
          funext found
          rw [outcome?_perform]

theorem outcome?_perform_linesBefore (ds : List Definition) (source : String) :
    outcome? (perform (Definition.linesBefore ds source)) =
      outcome? ((ds.map Definition.argument).forM define >>= fun _ => perform source) := by
  induction ds with
  | nil => rfl
  | cons d ds ih =>
      change outcome? (perform (d.line ++ "\n" ++ Definition.linesBefore ds source)) = _
      rw [outcome?_perform_line, List.map_cons]
      change _ = outcome? ((define d.argument >>= fun _ =>
        (ds.map Definition.argument).forM define) >>= fun _ => perform source)
      rw [bind_assoc]
      exact outcome?_bind_congr rfl fun _ => ih

theorem run_eq_ok_iff (source : String) (options : ScriptOptions) (result : Option Value) :
    run source options = .ok result ↔
      (outcome? (body source options) ⟨.create ⟨0⟩ 0, {}⟩).map Prod.fst = some result := by
  unfold run outcome?
  rcases (body source options).run ⟨.create ⟨0⟩ 0, {}⟩ with ⟨_ | found, after⟩ <;> simp

/--
Definitions agree with statements. A script with definitions of names on one line succeeds
with a result iff the script behind lines that state them succeeds with this result.
-/
theorem run_definitions (source : String) (origin : UInt64) (ds : List Definition)
    (result : Option Value) :
    run source ⟨origin, ds.map Definition.argument⟩ = .ok result ↔
      run (Definition.linesBefore ds source) ⟨origin, []⟩ = .ok result := by
  have hbody : outcome? (body source ⟨origin, ds.map Definition.argument⟩) =
      outcome? (body (Definition.linesBefore ds source) ⟨origin, []⟩) := by
    rw [body_eq, body_eq]
    refine outcome?_bind_congr rfl fun _ => ?_
    exact (outcome?_perform_linesBefore ds source).symm
  rw [run_eq_ok_iff, run_eq_ok_iff, hbody]

/-- A comment ends a definition, and a second one refers to the first behind a second `=`. -/
theorem run_definitions_pair :
    run "x + y" ⟨256, ["x=7 ; seven", "y=x + $ == 263"]⟩ = .ok (some (.unsigned 8)) ∧
      run "let x = 7 ; seven\nlet y = x + $ == 263\nx + y" ⟨256, []⟩ =
        .ok (some (.unsigned 8)) := by
  have hword (c : Char) (h : Lexer.isWordStart c = true) : [c] ∈ Shape.word.language :=
    Lexer.cons_mem_oneOf_mul (q := []) h nofun
  let x : Definition :=
    ⟨"x", "7 ; seven", hword 'x' rfl, fun k => by cases k <;> decide, by decide⟩
  let y : Definition :=
    ⟨"y", "x + $ == 263", hword 'y' rfl, fun k => by cases k <;> decide, by decide⟩
  have harguments : [x, y].map Definition.argument = ["x=7 ; seven", "y=x + $ == 263"] := rfl
  have hlines : Definition.linesBefore [x, y] "x + y" =
      "let x = 7 ; seven\nlet y = x + $ == 263\nx + y" :=
    rfl
  have hrun : run "x + y" ⟨256, ["x=7 ; seven", "y=x + $ == 263"]⟩ =
      .ok (some (.unsigned 8)) := by
    decide +kernel
  refine ⟨hrun, ?_⟩
  rw [← hlines, ← run_definitions, harguments]
  exact hrun

end Script
end Equate

import Equate.Proofs.Token.Boundaries

/-!
# Texts as literals

Every text can be written between quotes. Quotes, backslashes and line breaks have to be
escaped, a tab can be, and all other characters stand for themselves. The literal ends where it
is closed and is read as the text, wherever it is put in a source but behind a comment.
-/

namespace Equate
namespace Lexer

open Computability

/-!
## Writing texts
-/

def writeChar (escapesTab : Bool) : Char -> List Char
  | '"' => ['\\', '"']
  | '\\' => ['\\', '\\']
  | '\n' => ['\\', 'n']
  | '\t' => if escapesTab then ['\\', 't'] else ['\t']
  | c => [c]

/-- A text between quotes. For each of its places it can be chosen whether a tab is escaped. -/
def writeText (escapesTab : Nat -> Bool) (text : List Char) : List Char :=
  text.zipIdx.flatMap fun (c, position) => writeChar (escapesTab position) c

def literal (escapesTab : Nat -> Bool) (text : String) : String :=
  String.ofList ('"' :: (writeText escapesTab text.toList ++ ['"']))

example : literal (fun position => position == 3) "\\\"\n\t\t" = "\"\\\\\\\"\\n\\t\t\"" := by
  decide

theorem spells_writeChar (escapesTab : Bool) (c : Char) {body text : List Char}
    (h : Spells body text) : Spells (writeChar escapesTab c ++ body) (c :: text) := by
  unfold writeChar
  split
  · exact .escape .quote h
  · exact .escape .backslash h
  · exact .escape .newLine h
  · cases escapesTab with
    | true => exact .escape .tab h
    | false => exact .plain rfl h
  · rename_i hquote hbackslash hbreak _
    refine .plain ?_ h
    have hplain : (c ≠ '"' ∧ c ≠ '\\') ∧ c ≠ '\n' := ⟨⟨hquote, hbackslash⟩, hbreak⟩
    simpa [isPlain] using hplain

theorem spells_writeText (escapesTab : Nat -> Bool) (text : List Char) :
    Spells (writeText escapesTab text) text := by
  have hfrom (k : Nat) : Spells ((text.zipIdx k).flatMap fun (c, position) =>
      writeChar (escapesTab position) c) text := by
    induction text generalizing k with
    | nil => exact .done
    | cons c text ih =>
        rw [List.zipIdx_cons, List.flatMap_cons]
        exact spells_writeChar (escapesTab k) c (ih (k + 1))
  exact hfrom 0

theorem mem_kstar_of_spells {body text : List Char} (h : Spells body text) :
    body ∈ textUnit∗ := by
  induction h with
  | done => exact Language.nil_mem_kstar textUnit
  | @plain c _ _ hc _ ih =>
      have hunit : [c] ∈ textUnit := Or.inl ⟨c, hc, rfl⟩
      exact append_mem_kstar hunit ih
  | @escape e _ _ _ he _ ih =>
      have hunit : ['\\', e] ∈ textUnit := escape_mem_textUnit (by rintro rfl; cases he)
      exact append_mem_kstar hunit ih

end Lexer

namespace Piece

open Lexer

theorem mem_text_of_spells {body text : List Char} (h : Spells body text) :
    '"' :: (body ++ ['"']) ∈ Shape.text.language :=
  cons_mem_oneOf_mul rfl (Language.append_mem_mul (mem_kstar_of_spells h) ⟨'"', rfl, rfl⟩)

end Piece

/-!
## Literals in a source
-/

/-- Whether the last piece of a source is a comment. It is then on the last line of the source. -/
def endsInComment (source : String) : Bool :=
  (Piece.all source.toList).getLast?.any fun p => p.shape == .comment

namespace Piece

open Lexer

theorem all_append_quote {source : String} {ts : List PlacedToken} (h : tokenize source = .ok ts)
    (hcomment : endsInComment source = false) (rest : List Char) :
    all (source.toList ++ '"' :: rest) = all source.toList ++ all ('"' :: rest) := by
  rcases exists_seam (isPatterned_of_place h) (d := '"') rfl with ⟨ps, last, hseam, hrest⟩
  rw [hrest]
  cases hseam with
  | apart => rfl
  | joined hs hmem hall =>
      exfalso
      rcases hs with rfl | rfl
      · have hquote : '"' ∈ last ++ ['"'] := List.mem_append_right last List.mem_cons_self
        have hskipped := (mem_someOf_iff.mp hmem).2 '"' hquote
        cases hskipped
      · rw [endsInComment, hall] at hcomment
        simp at hcomment

end Piece

open Lexer

/--
Every text is the meaning of its literals. A literal by itself is one token, and between two
sources it is one token as well, on the line where it is put. The tokens of the sources stay
what they are, unless the first source ends in a comment, which would go on with the literal.
-/
theorem tokenize_literal (escapesTab : Nat -> Bool) (text : String) :
    tokenize (literal escapesTab text) = .ok [⟨.text text, 1⟩] ∧
    forall (before after : String) (ts us : List PlacedToken),
      tokenize before = .ok ts -> endsInComment before = false -> tokenize after = .ok us ->
      tokenize (before ++ literal escapesTab text ++ after) =
        .ok (ts ++ ⟨.text text, lineCount before⟩ ::
          us.map (PlacedToken.shift (before.toList.count '\n'))) := by
  have hspells := spells_writeText escapesTab text.toList
  have hmem := Piece.mem_text_of_spells hspells
  have hdenotes := Denotes.text hspells
  rw [String.ofList_toList] at hdenotes
  constructor
  · exact Piece.tokenize_of_denotes hmem hdenotes
  · intro before after ts us hts hcomment hus
    generalize hbody : writeText escapesTab text.toList = body at hmem hdenotes
    have hlongest := Piece.isLongest_of_text hmem after.toList
    have hmeaning := (Piece.denotes_iff hmem (.text text)).mp hdenotes
    have hplaced := Piece.place_shift 1 (before.toList.count '\n') (Piece.all after.toList)
    have hall := Piece.all_append_quote hts hcomment (body ++ ['"'] ++ after.toList)
    have hsource : (before ++ literal escapesTab text ++ after).toList =
        before.toList ++ '"' :: (body ++ ['"'] ++ after.toList) := by
      simp [literal, hbody]
    rw [tokenize] at hts hus ⊢
    rw [hus] at hplaced
    rw [hsource, hall, ← List.cons_append, Piece.all_of_isLongest hlongest, Piece.place_append,
      hts, Piece.countP_all, Piece.place_cons_of_token _ _ hmeaning]
    change ((Piece.place (1 + before.toList.count '\n') (Piece.all after.toList)).map _ >>= _) = _
    rw [hplaced, lineCount, Nat.add_comm 1]
    rfl

/-- The text of the literal has a backslash before a quote, a semicolon and a line break. -/
theorem tokenize_literal_between :
    let before := "; a\n1 +"
    let after := "\nb"
    let ts : List PlacedToken := [⟨.newLine, 1⟩, ⟨.integer 1, 2⟩, ⟨.mark .plus, 2⟩]
    let us : List PlacedToken := [⟨.newLine, 1⟩, ⟨.name "b", 2⟩]
    tokenize before = .ok ts ∧ endsInComment before = false ∧ tokenize after = .ok us ∧
      tokenize (before ++ literal (fun _ => false) "\\\";\n" ++ after) =
        .ok (ts ++ [⟨.text "\\\";\n", 2⟩, ⟨.newLine, 2⟩, ⟨.name "b", 3⟩]) := by
  intro before after ts us
  have hts : tokenize before = .ok ts := by decide +kernel
  have hus : tokenize after = .ok us := by decide +kernel
  have hcomment : endsInComment before = false := by decide
  have hcount : before.toList.count '\n' = 1 := by decide
  have hliteral :=
    (tokenize_literal (fun _ => false) "\\\";\n").2 before after ts us hts hcomment hus
  rw [lineCount, hcount] at hliteral
  exact ⟨hts, hcomment, hus, hliteral⟩

end Equate

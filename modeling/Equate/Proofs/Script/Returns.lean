import Equate.Proofs.Statement.Blame
import Equate.Proofs.Token.Boundaries
import Equate.Script

/-!
# Carriage returns

A carriage return in front of a line break is a blank, or it ends a comment and is a blank then,
or it makes blanks that stand there longer by one. It is never put into a text, because a text in an
accepted source is closed before its line ends. A source with carriage returns at the ends of its
lines therefore has the same tokens on the same lines as the source without them.
-/

namespace Equate

/-- A source with a carriage return in front of each line break. -/
def withReturns (source : String) : String :=
  String.ofList (source.toList.flatMap fun c => if c = '\n' then ['\r', '\n'] else [c])

namespace Piece

open Lexer

theorem place_append_skipped (line : Nat) (ps : List Piece) {p : Piece}
    (h : p.meaning = .skipped) : place line (ps ++ [p]) = place line ps := by
  rw [place_append, place_cons_of_skipped _ _ h]
  cases place line ps with
  | error e => rfl
  | ok ts => exact congrArg Except.ok (List.append_nil ts)

theorem blank_of_seam {cs last : List Char} {ps : List Piece} (h : Seam '\r' cs ps last) :
    last ++ ['\r'] ∈ Shape.blank.language := by
  cases h with
  | apart => exact cons_mem_oneOf_mul (q := []) rfl nofun
  | joined hs hmem _ =>
      rcases hs with rfl | rfl
      · exact hmem
      · exfalso
        rcases mem_oneOf_mul_iff.mp hmem with ⟨c, tail, hc, htail, heq⟩
        have hreturn : '\r' ∈ c :: tail :=
          heq ▸ List.mem_append_right last List.mem_cons_self
        rcases List.mem_cons.mp hreturn with rfl | hreturn
        · cases hc
        · cases htail _ hreturn

theorem place_of_seam {d : Char} {cs last : List Char} {ps : List Piece}
    (h : Seam d cs ps last) (line : Nat) : place line ps = place line (all cs) := by
  cases h with
  | apart => rfl
  | joined hs _ hall =>
      rw [hall, place_append_skipped line ps ((isSkippedShape_iff last).mp hs)]

end Piece

/-!
## Tokens
-/

theorem tokenize_append_return {source : String} {ts : List PlacedToken}
    (h : tokenize source = .ok ts) : tokenize (source ++ "\r") = .ok ts := by
  rcases Piece.exists_seam (Piece.isPatterned_of_place h) (d := '\r') rfl with
    ⟨ps, last, hseam, hrest⟩
  have hsource : (source ++ "\r").toList = source.toList ++ ['\r'] := by
    simp
  rw [tokenize] at h ⊢
  rw [hsource, hrest, Piece.all_of_mem (Piece.blank_of_seam hseam),
    Piece.place_append_skipped 1 ps rfl, Piece.place_of_seam hseam, h]

theorem withReturns_of_not_mem {source : String} (h : '\n' ∉ source.toList) :
    withReturns source = source := by
  have hkept : source.toList.flatMap (fun c => if c = '\n' then ['\r', '\n'] else [c]) =
      source.toList.flatMap fun c => [c] := by
    apply List.flatMap_congr
    intro c hc
    have hne : c ≠ '\n' := by
      rintro rfl
      exact h hc
    exact if_neg hne
  rw [withReturns, hkept, List.flatMap_singleton', String.ofList_toList]

theorem withReturns_append_newLine (a b : String) :
    withReturns (a ++ "\n" ++ b) = withReturns a ++ "\r" ++ "\n" ++ withReturns b := by
  apply String.toList_injective
  simp [withReturns]

theorem tokenize_withReturns {source : String} {ts : List PlacedToken}
    (h : tokenize source = .ok ts) : tokenize (withReturns source) = .ok ts := by
  by_cases hbreak : '\n' ∈ source.toList
  · rcases List.eq_append_cons_of_mem hbreak with ⟨first, others, htext, hfirst⟩
    have hshorter : others.length < source.toList.length := by
      rw [htext, List.length_append, List.length_cons]
      omega
    have hsource : source = String.ofList first ++ "\n" ++ String.ofList others := by
      apply String.toList_injective
      simp [htext]
    have hkept : withReturns (String.ofList first) = String.ofList first :=
      withReturns_of_not_mem (by rwa [String.toList_ofList])
    rw [hsource] at h
    rcases exists_of_tokenize_append_newLine h with ⟨us, vs, hus, hvs, rfl⟩
    have hline : lineCount (String.ofList first ++ "\r") = lineCount (String.ofList first) := by
      simp [lineCount]
    rw [hsource, withReturns_append_newLine, hkept, tokenize_append_newLine,
      tokenize_append_return hus, tokenize_withReturns hvs, hline]
    rfl
  · rw [withReturns_of_not_mem hbreak]
    exact h
termination_by source.toList.length
decreasing_by simpa using hshorter

/--
Carriage returns at the ends of lines do not matter. A source that is accepted is accepted with
them, with the same tokens on the same lines. It has the same statements, or the same error, and
scripts of it have the same results.
-/
theorem withReturns_alike {source : String} {ts : List PlacedToken}
    (h : tokenize source = .ok ts) :
    tokenize (withReturns source) = .ok ts ∧
      (tokenize (withReturns source) >>= Statement.programOfTokens) =
        (tokenize source >>= Statement.programOfTokens) ∧
      forall options, Script.run (withReturns source) options = Script.run source options := by
  have hreturns := tokenize_withReturns h
  refine ⟨hreturns, by rw [hreturns, h], ?_⟩
  intro options
  unfold Script.run Script.body
  rw [hreturns, h]

/-- There are comments, blanks, an empty line and a carriage return behind a backslash. -/
theorem withReturns_alike_comments :
    let source := "let a = 1 ; one\n\n \"\\\\\r\" + a  \n;"
    let ts : List PlacedToken :=
      [⟨.keyword .let, 1⟩, ⟨.name "a", 1⟩, ⟨.mark .equals, 1⟩, ⟨.integer 1, 1⟩, ⟨.newLine, 1⟩,
        ⟨.newLine, 2⟩, ⟨.text "\\\r", 3⟩, ⟨.mark .plus, 3⟩, ⟨.name "a", 3⟩, ⟨.newLine, 3⟩]
    withReturns source = "let a = 1 ; one\r\n\r\n \"\\\\\r\" + a  \r\n;" ∧
      tokenize source = .ok ts ∧ tokenize (withReturns source) = .ok ts ∧
      Script.run (withReturns source) {} = Script.run source {} := by
  intro source ts
  have hsource : tokenize source = .ok ts := by decide +kernel
  rcases withReturns_alike hsource with ⟨htokens, _, hrun⟩
  exact ⟨by decide, hsource, htokens, hrun {}⟩

end Equate

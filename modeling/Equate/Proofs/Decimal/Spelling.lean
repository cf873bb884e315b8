import Equate.Proofs.Decimal.Terms
import Mathlib.Data.List.TakeWhile
import Mathlib.Data.Nat.Digits.Defs

/-!
# Spellings of numerals

How a numeral is written: blanks around an optional sign, digits, an optional point with
digits behind it, and an optional exponent. A spelling can have no other parts, so that its
text is a numeral by construction. The scanner goes through a text once, takes at each
place as much as it can, and never turns back. It accepts the texts of spellings and no
others, and it finds what is spelled.
-/

namespace Equate
namespace Numeral

/-!
## Spellings
-/

inductive Sign where
  | plus
  | minus
deriving DecidableEq

def Sign.char : Sign -> Char
  | .plus => '+'
  | .minus => '-'

def Sign.apply : Option Sign -> Nat -> Int
  | some .minus, n => -n
  | _, n => n

def signText (sign : Option Sign) : List Char :=
  (sign.map Sign.char).toList

def digitChar (d : Fin 10) : Char :=
  Nat.digitChar d

def digitsText (ds : List (Fin 10)) : List Char :=
  ds.map digitChar

def pointText : Option (List (Fin 10)) -> List Char
  | none => []
  | some ds => '.' :: digitsText ds

structure ExponentSpelling where
  capital : Bool
  sign : Option Sign
  digits : List (Fin 10)
  digits_ne_nil : digits ≠ []

namespace ExponentSpelling

def text (e : ExponentSpelling) : List Char :=
  (if e.capital then 'E' else 'e') :: (signText e.sign ++ digitsText e.digits)

/-- The integer that is written, however far from zero. -/
def value (e : ExponentSpelling) : Int :=
  Sign.apply e.sign (Nat.ofDigits 10 (e.digits.reverse.map Fin.val))

end ExponentSpelling

def exponentText (e : Option ExponentSpelling) : List Char :=
  (e.map ExponentSpelling.text).getD []

/-- The parts of a numeral. Without a point there is no fraction, and with it there may be one. -/
structure Spelling where
  before : List Char
  sign : Option Sign
  whole : List (Fin 10)
  fraction : Option (List (Fin 10))
  exponent : Option ExponentSpelling
  after : List Char
  blank_before : forall c, c ∈ before -> Text.isBlank c = true
  blank_after : forall c, c ∈ after -> Text.isBlank c = true
  some_digit : whole ≠ [] ∨ fraction.getD [] ≠ []

/--
An exponent that is brought into the range of signed words before it gets its sign, so that
both ends of the range are equally far from zero.
-/
def saturateMagnitude (z : Int) : Int :=
  max (-greatestExponent) (min greatestExponent z)

namespace Spelling

def text (w : Spelling) : List Char :=
  w.before ++ (signText w.sign ++ (digitsText w.whole ++ (pointText w.fraction ++
    (exponentText w.exponent ++ w.after))))

def exponentValue (w : Spelling) : Int :=
  (w.exponent.map ExponentSpelling.value).getD 0

def numeral (w : Spelling) : Numeral where
  negative := w.sign == some .minus
  whole := w.whole.map Fin.val
  fraction := (w.fraction.getD []).map Fin.val
  exponent := saturateMagnitude w.exponentValue

end Spelling

/-!
## Characters
-/

def isNumeralChar (c : Char) : Bool :=
  c.isDigit || c == '+' || c == '-' || c == '.' || c == 'e' || c == 'E'

theorem isDigit_iff {c : Char} : c.isDigit = true ↔ 48 ≤ c.toNat ∧ c.toNat ≤ 57 := by
  simp only [Char.isDigit, Bool.and_eq_true, decide_eq_true_eq, UInt32.le_iff_toNat_le,
    ge_iff_le]
  rfl

theorem isBlank_eq_false {c : Char} (h : isNumeralChar c = true) : Text.isBlank c = false := by
  simp only [isNumeralChar, Bool.or_eq_true, beq_iff_eq] at h
  rcases h with ((((hdigit | rfl) | rfl) | rfl) | rfl) | rfl
  · have hrange := isDigit_iff.mp hdigit
    simp only [Text.isBlank, Bool.or_eq_false_iff, Bool.and_eq_false_iff,
      decide_eq_false_iff_not, beq_eq_false_iff_ne]
    omega
  all_goals decide

theorem toNat_digitChar : forall d : Fin 10, (digitChar d).toNat = 48 + d := by
  decide

theorem isDigit_digitChar (d : Fin 10) : (digitChar d).isDigit = true := by
  rw [isDigit_iff, toNat_digitChar]
  omega

theorem digitValue_digitChar (d : Fin 10) : digitValue (digitChar d) = d := by
  show (digitChar d).toNat - 48 = d
  rw [toNat_digitChar]
  omega

theorem exists_digitChar {c : Char} (h : c.isDigit = true) : exists d, digitChar d = c := by
  have hrange := isDigit_iff.mp h
  refine ⟨⟨c.toNat - 48, by omega⟩, Char.toNat_inj.mp ?_⟩
  rw [toNat_digitChar]
  show 48 + (c.toNat - 48) = c.toNat
  omega

/-!
## Runs of characters
-/

def Stops (p : Char -> Bool) (cs : List Char) : Prop :=
  forall c, c ∈ cs.head? -> p c = false

section

variable {p : Char -> Bool} {run rest : List Char}

theorem stops_cons {c : Char} (h : p c = false) : Stops p (c :: rest) := by
  intro d hd
  cases hd
  exact h

theorem stops_append (hrun : forall c, c ∈ run -> p c = false) (hrest : Stops p rest) :
    Stops p (run ++ rest) := by
  cases run with
  | nil => exact hrest
  | cons c run => exact stops_cons (hrun c List.mem_cons_self)

theorem takeWhile_append_of_stops (hrun : forall c, c ∈ run -> p c = true)
    (hrest : Stops p rest) : (run ++ rest).takeWhile p = run := by
  rw [List.takeWhile_append_of_pos hrun]
  cases rest with
  | nil => exact List.append_nil run
  | cons c rest =>
      have hc : p c = false := hrest c rfl
      rw [List.takeWhile_cons_of_neg (by simp [hc]), List.append_nil]

theorem dropWhile_append_of_stops (hrun : forall c, c ∈ run -> p c = true)
    (hrest : Stops p rest) : (run ++ rest).dropWhile p = rest := by
  rw [List.dropWhile_append_of_pos hrun]
  cases rest with
  | nil => rfl
  | cons c rest =>
      have hc : p c = false := hrest c rfl
      exact List.dropWhile_cons_of_neg (by simp [hc])

end

def isSign (c : Char) : Bool :=
  c == '+' || c == '-'

theorem isSign_digitChar : forall d : Fin 10, isSign (digitChar d) = false := by
  decide

def isPoint (c : Char) : Bool :=
  c == '.'

def isMark (c : Char) : Bool :=
  c == 'e' || c == 'E'

/-!
## Parts that are found

Each part of a spelling is found in a text that does not go on with a character of that part,
and nothing is taken from such a text by itself.
-/

section

variable {rest : List Char}

theorem isDigit_of_mem {ds : List (Fin 10)} {c : Char} (h : c ∈ digitsText ds) :
    c.isDigit = true := by
  rcases List.mem_map.mp h with ⟨d, _, rfl⟩
  exact isDigit_digitChar d

theorem takeSign_of_stops (h : Stops isSign rest) : takeSign rest = (false, rest) := by
  unfold takeSign
  split
  · exact absurd (h '+' rfl) (by decide)
  · exact absurd (h '-' rfl) (by decide)
  · rfl

theorem takeSign_signText (sign : Option Sign) (h : Stops isSign rest) :
    takeSign (signText sign ++ rest) = (sign == some .minus, rest) := by
  rcases sign with _ | (_ | _)
  · exact takeSign_of_stops h
  · rfl
  · rfl

theorem takeDigits_digitsText (ds : List (Fin 10)) (h : Stops Char.isDigit rest) :
    takeDigits (digitsText ds ++ rest) = (ds.map Fin.val, rest) := by
  have hall : forall c, c ∈ digitsText ds -> c.isDigit = true := fun _ => isDigit_of_mem
  unfold takeDigits
  rw [takeWhile_append_of_stops hall h, dropWhile_append_of_stops hall h, digitsText,
    List.map_map]
  congr 1
  exact List.map_congr_left fun d _ => digitValue_digitChar d

theorem takeFraction_of_stops (h : Stops isPoint rest) : takeFraction rest = ([], rest) := by
  unfold takeFraction
  split
  · exact absurd (h '.' rfl) (by decide)
  · rfl

theorem takeFraction_pointText (f : Option (List (Fin 10))) (h : Stops Char.isDigit rest)
    (hpoint : Stops isPoint rest) :
    takeFraction (pointText f ++ rest) = ((f.getD []).map Fin.val, rest) := by
  cases f with
  | none => exact takeFraction_of_stops hpoint
  | some ds => exact takeDigits_digitsText ds h

/-!
## Exponents
-/

theorem saturate_step (n d : Nat) :
    saturate (saturate (min greatestExponent n * 10) + d) =
      min greatestExponent (n * 10 + d : Nat) := by
  unfold saturate leastExponent greatestExponent
  omega

theorem foldl_saturate (ds : List Nat) (n : Nat) :
    ds.foldl (fun (acc : Int) (d : Nat) => saturate (saturate (acc * 10) + d))
        (min greatestExponent n) =
      min greatestExponent (ds.foldl (fun m d => m * 10 + d) n : Nat) := by
  induction ds generalizing n with
  | nil => rfl
  | cons d ds ih =>
      rw [List.foldl_cons, List.foldl_cons, saturate_step]
      exact ih (n * 10 + d)

theorem magnitude_eq (ds : List Nat) :
    magnitude ds = min greatestExponent (Nat.ofDigits 10 ds.reverse : Nat) := by
  have hdigits : Nat.ofDigits 10 ds.reverse = ds.foldl (fun m d => m * 10 + d) 0 := by
    rw [Nat.ofDigits_eq_foldr, List.foldr_reverse]
    congr 1
    funext n d
    rw [Nat.mul_comm, Nat.add_comm]
    rfl
  rw [hdigits]
  exact foldl_saturate ds 0

theorem saturateMagnitude_apply (sign : Option Sign) (n : Nat) :
    saturateMagnitude (Sign.apply sign n) =
      if sign == some .minus then -(min greatestExponent n) else min greatestExponent n := by
  have hgreatest : 0 ≤ greatestExponent := by decide
  unfold saturateMagnitude
  rcases sign with _ | (_ | _)
  · show max (-greatestExponent) (min greatestExponent (n : Int)) = min greatestExponent n
    omega
  · show max (-greatestExponent) (min greatestExponent (n : Int)) = min greatestExponent n
    omega
  · show max (-greatestExponent) (min greatestExponent (-(n : Int))) = -min greatestExponent n
    omega

theorem saturateMagnitude_value (e : ExponentSpelling) :
    saturateMagnitude e.value =
      if e.sign == some .minus then -magnitude (e.digits.map Fin.val)
      else magnitude (e.digits.map Fin.val) := by
  rw [ExponentSpelling.value, saturateMagnitude_apply, magnitude_eq, List.map_reverse]

theorem stops_digitsText {p : Char -> Bool} (hp : forall d, p (digitChar d) = false)
    {ds : List (Fin 10)} (hne : ds ≠ []) : Stops p (digitsText ds ++ rest) := by
  cases ds with
  | nil => exact absurd rfl hne
  | cons d ds => exact stops_cons (hp d)

theorem takeExponentValue_text (e : ExponentSpelling) (h : Stops Char.isDigit rest) :
    takeExponentValue (signText e.sign ++ (digitsText e.digits ++ rest)) =
      some (saturateMagnitude e.value, rest) := by
  have hsign : Stops isSign (digitsText e.digits ++ rest) :=
    stops_digitsText isSign_digitChar e.digits_ne_nil
  have hne : e.digits.map Fin.val ≠ [] := mt List.map_eq_nil_iff.mp e.digits_ne_nil
  unfold takeExponentValue
  rw [takeSign_signText e.sign hsign, saturateMagnitude_value]
  dsimp only
  rw [takeDigits_digitsText e.digits h]
  cases hds : e.digits.map Fin.val with
  | nil => exact absurd hds hne
  | cons d ds => rfl

theorem takeExponent_of_stops (h : Stops isMark rest) : takeExponent rest = some (0, rest) := by
  unfold takeExponent
  split
  · exact absurd (h 'E' rfl) (by decide)
  · exact absurd (h 'e' rfl) (by decide)
  · rfl

theorem takeExponent_text (e : Option ExponentSpelling) (h : Stops Char.isDigit rest)
    (hmark : Stops isMark rest) :
    takeExponent (exponentText e ++ rest) =
      some (saturateMagnitude ((e.map ExponentSpelling.value).getD 0), rest) := by
  cases e with
  | none => exact takeExponent_of_stops hmark
  | some e =>
      have htext : exponentText (some e) ++ rest =
          (if e.capital then 'E' else 'e') ::
            (signText e.sign ++ (digitsText e.digits ++ rest)) := by
        simp [exponentText, ExponentSpelling.text]
      rw [htext]
      cases e.capital
      · exact takeExponentValue_text e h
      · exact takeExponentValue_text e h

end

/-!
## Whole texts
-/

section

variable {p : Char -> Bool} {rest : List Char}

theorem stops_blanks (hp : forall c, p c = true -> isNumeralChar c = true) {blanks : List Char}
    (h : forall c, c ∈ blanks -> Text.isBlank c = true) : Stops p blanks := by
  intro c hc
  apply Bool.eq_false_iff.mpr
  intro hpc
  have hblank := h c (List.mem_of_mem_head? hc)
  rw [isBlank_eq_false (hp c hpc)] at hblank
  cases hblank

theorem stops_exponentText (hp : p 'e' = false) (hp' : p 'E' = false) (h : Stops p rest)
    (e : Option ExponentSpelling) : Stops p (exponentText e ++ rest) := by
  cases e with
  | none => exact h
  | some e =>
      show Stops p ((if e.capital then 'E' else 'e') :: _)
      cases e.capital
      · exact stops_cons hp
      · exact stops_cons hp'

theorem stops_pointText (hp : p '.' = false) (h : Stops p rest)
    (f : Option (List (Fin 10))) : Stops p (pointText f ++ rest) := by
  cases f with
  | none => exact h
  | some ds => exact stops_cons hp

end

theorem isNumeralChar_of_isDigit {c : Char} (h : c.isDigit = true) :
    isNumeralChar c = true := by
  simp [isNumeralChar, h]

namespace Spelling

/-- The blanks of a spelling end in front of its sign, or else of its first digit or point. -/
theorem stops_isBlank (w : Spelling) (rest : List Char) :
    Stops Text.isBlank (signText w.sign ++ (digitsText w.whole ++
      (pointText w.fraction ++ rest))) := by
  rcases w.sign with _ | (_ | _)
  · show Stops Text.isBlank (digitsText w.whole ++ (pointText w.fraction ++ rest))
    cases hwhole : w.whole with
    | cons d ds =>
        exact stops_cons (isBlank_eq_false (isNumeralChar_of_isDigit (isDigit_digitChar d)))
    | nil =>
        cases hfraction : w.fraction with
        | some ds => exact stops_cons (by decide)
        | none =>
            have hdigit := w.some_digit
            rw [hwhole, hfraction] at hdigit
            simp at hdigit
  · exact stops_cons (by decide)
  · exact stops_cons (by decide)

theorem scan_text (w : Spelling) : scan w.text = some w.numeral := by
  have hafter : forall p : Char -> Bool, (forall c, p c = true -> isNumeralChar c = true) ->
      Stops p w.after := fun _ hp => stops_blanks hp w.blank_after
  have hdigit := hafter Char.isDigit fun _ => isNumeralChar_of_isDigit
  have hpoint := hafter isPoint (by simp +contextual [isPoint, isNumeralChar])
  have hmark := hafter isMark (by simp +contextual [isMark, isNumeralChar])
  have hsign := hafter isSign (by simp +contextual [isSign, isNumeralChar])
  have hexponent := stops_exponentText (p := Char.isDigit) rfl rfl hdigit w.exponent
  have hwhole := stops_pointText (p := isSign) rfl
    (stops_exponentText rfl rfl hsign w.exponent) w.fraction
  have hnotSign : forall c, c ∈ digitsText w.whole -> isSign c = false := by
    intro c hc
    rcases List.mem_map.mp hc with ⟨d, _, rfl⟩
    exact isSign_digitChar d
  have hsome : ¬ ((w.whole.map Fin.val).isEmpty &&
      ((w.fraction.getD []).map Fin.val).isEmpty) = true := by
    have hdigit := w.some_digit
    simp only [Bool.and_eq_true, List.isEmpty_iff, List.map_eq_nil_iff]
    tauto
  have hend : (w.after.dropWhile Text.isBlank).isEmpty = true := by
    rw [List.isEmpty_iff, List.dropWhile_eq_nil_iff]
    exact w.blank_after
  unfold scan text
  rw [dropWhile_append_of_stops w.blank_before (w.stops_isBlank _),
    takeSign_signText w.sign (stops_append hnotSign hwhole)]
  dsimp only
  rw [takeDigits_digitsText w.whole (stops_pointText rfl hexponent w.fraction)]
  dsimp only
  rw [takeFraction_pointText w.fraction hexponent (stops_exponentText rfl rfl hpoint w.exponent)]
  dsimp only
  rw [if_neg hsome, takeExponent_text w.exponent hdigit hmark]
  exact if_pos hend

end Spelling

/-!
## Parts that were taken

Whatever the scanner takes from a text is a part of a spelling.
-/

theorem exists_signText (cs : List Char) : exists sign,
    cs = signText sign ++ (takeSign cs).2 ∧ (takeSign cs).1 = (sign == some .minus) := by
  unfold takeSign
  split
  · exact ⟨some .plus, rfl, rfl⟩
  · exact ⟨some .minus, rfl, rfl⟩
  · exact ⟨none, rfl, rfl⟩

theorem exists_digits {run : List Char} (h : forall c, c ∈ run -> c.isDigit = true) :
    exists ds, run = digitsText ds := by
  induction run with
  | nil => exact ⟨[], rfl⟩
  | cons c run ih =>
      rcases exists_digitChar (h c List.mem_cons_self) with ⟨d, rfl⟩
      rcases ih fun c hc => h c (List.mem_cons_of_mem _ hc) with ⟨ds, rfl⟩
      exact ⟨d :: ds, rfl⟩

theorem exists_digitsText (cs : List Char) : exists ds,
    cs = digitsText ds ++ (takeDigits cs).2 ∧ (takeDigits cs).1 = ds.map Fin.val := by
  have hall : forall c, c ∈ cs.takeWhile Char.isDigit -> c.isDigit = true :=
    fun _ => List.mem_takeWhile_imp
  rcases exists_digits hall with ⟨ds, hds⟩
  refine ⟨ds, ?_, ?_⟩
  · rw [← hds]
    exact List.takeWhile_append_dropWhile.symm
  · show (cs.takeWhile Char.isDigit).map digitValue = _
    rw [hds, digitsText, List.map_map]
    exact List.map_congr_left fun d _ => digitValue_digitChar d

theorem exists_pointText (cs : List Char) : exists f : Option (List (Fin 10)),
    cs = pointText f ++ (takeFraction cs).2 ∧
      (takeFraction cs).1 = (f.getD []).map Fin.val := by
  unfold takeFraction
  split
  · rename_i cs
    rcases exists_digitsText cs with ⟨ds, hcs, hds⟩
    exact ⟨some ds, congrArg ('.' :: ·) hcs, hds⟩
  · exact ⟨none, rfl, rfl⟩

theorem exists_exponent {cs rest : List Char} {z : Int}
    (h : takeExponentValue cs = some (z, rest)) (capital : Bool) :
    exists e : ExponentSpelling, (if capital then 'E' else 'e') :: cs = e.text ++ rest ∧
      z = saturateMagnitude e.value := by
  rcases exists_signText cs with ⟨sign, hsign, hnegative⟩
  rcases exists_digitsText (takeSign cs).2 with ⟨ds, hds, hdigits⟩
  unfold takeExponentValue at h
  generalize takeSign cs = signed at *
  rcases signed with ⟨negative, unsigned⟩
  dsimp only at *
  generalize takeDigits unsigned = taken at *
  rcases taken with ⟨digits, rest'⟩
  dsimp only at *
  cases digits with
  | nil => cases h
  | cons d digits =>
      have hne : ds ≠ [] := by
        rintro rfl
        cases hdigits
      refine ⟨⟨capital, sign, ds, hne⟩, ?_, ?_⟩
      · cases h
        rw [hsign, hds]
        simp [ExponentSpelling.text]
      · rw [saturateMagnitude_value, ← hdigits, ← hnegative]
        cases h
        rfl

theorem exists_exponentText {cs rest : List Char} {z : Int}
    (h : takeExponent cs = some (z, rest)) :
    exists e : Option ExponentSpelling, cs = exponentText e ++ rest ∧
      z = saturateMagnitude ((e.map ExponentSpelling.value).getD 0) := by
  unfold takeExponent at h
  split at h
  · rcases exists_exponent h true with ⟨e, htext, hvalue⟩
    exact ⟨some e, htext, hvalue⟩
  · rcases exists_exponent h false with ⟨e, htext, hvalue⟩
    exact ⟨some e, htext, hvalue⟩
  · cases h
    exact ⟨none, rfl, rfl⟩

/-- An accepted text is spelled, and its spelling says what was found in it. -/
theorem exists_spelling {cs : List Char} {n : Numeral} (h : scan cs = some n) :
    exists w : Spelling, w.text = cs ∧ w.numeral = n := by
  have hbefore : forall c, c ∈ cs.takeWhile Text.isBlank -> Text.isBlank c = true :=
    fun _ => List.mem_takeWhile_imp
  have hcs : cs = cs.takeWhile Text.isBlank ++ cs.dropWhile Text.isBlank :=
    List.takeWhile_append_dropWhile.symm
  rcases exists_signText (cs.dropWhile Text.isBlank) with ⟨sign, hsign, hnegative⟩
  unfold scan at h
  generalize cs.takeWhile Text.isBlank = before at *
  generalize cs.dropWhile Text.isBlank = body at *
  generalize takeSign body = signed at *
  rcases signed with ⟨negative, unsigned⟩
  dsimp only at *
  rcases exists_digitsText unsigned with ⟨ds, hds, hwhole⟩
  generalize takeDigits unsigned = taken at *
  rcases taken with ⟨whole, fractional⟩
  dsimp only at *
  rcases exists_pointText fractional with ⟨f, hf, hfraction⟩
  generalize takeFraction fractional = taken at *
  rcases taken with ⟨fraction, exponential⟩
  dsimp only at *
  split at h
  · cases h
  · rename_i hsome
    split at h
    · cases h
    · rename_i z after hexponent
      rcases exists_exponentText hexponent with ⟨e, he, hvalue⟩
      split at h
      · rename_i hend
        have hafter : forall c, c ∈ after -> Text.isBlank c = true :=
          List.dropWhile_eq_nil_iff.mp (List.isEmpty_iff.mp hend)
        have hdigit : ds ≠ [] ∨ f.getD [] ≠ [] := by
          simp only [hwhole, hfraction, Bool.and_eq_true, List.isEmpty_iff,
            List.map_eq_nil_iff] at hsome
          tauto
        refine ⟨⟨_, sign, ds, f, e, after, hbefore, hafter, hdigit⟩, ?_, ?_⟩
        · rw [hcs, hsign, hds, hf, he]
          rfl
        · cases h
          simp only [Spelling.numeral, Spelling.exponentValue, hnegative, hwhole, hfraction,
            hvalue]
      · cases h

theorem scan_eq_some_iff {cs : List Char} {n : Numeral} :
    scan cs = some n ↔ exists w : Spelling, w.text = cs ∧ w.numeral = n := by
  constructor
  · exact exists_spelling
  · rintro ⟨w, rfl, rfl⟩
    exact w.scan_text

theorem float?_ofList (w : Spelling) :
    float? (String.ofList w.text) = some w.numeral.toFloat := by
  unfold float?
  rw [String.toList_ofList, w.scan_text]
  rfl

theorem exists_float?_iff (s : String) :
    (exists x, float? s = some x) ↔ exists w : Spelling, w.text = s.toList := by
  constructor
  · rintro ⟨x, hx⟩
    rcases Option.map_eq_some_iff.mp hx with ⟨n, hn, _⟩
    rcases exists_spelling hn with ⟨w, hw, _⟩
    exact ⟨w, hw⟩
  · rintro ⟨w, hw⟩
    have hfloat := float?_ofList w
    rw [hw, String.ofList_toList] at hfloat
    exact ⟨_, hfloat⟩

/-!
## The least exponent

An exponent below all signed words is scanned as the opposite of the greatest one, which is
not the least. No text tells the two apart until it has nearly as many digits as there are
signed words.
-/

namespace Spelling

/-- The numeral with the exponent that is nearest to the written one among signed words. -/
def nearest (w : Spelling) : Numeral :=
  { w.numeral with exponent := saturate w.exponentValue }

theorem lt_ten_of_mem {ds : List (Fin 10)} {d : Nat} (h : d ∈ ds.map Fin.val) : d < 10 := by
  rcases List.mem_map.mp h with ⟨d, _, rfl⟩
  exact d.isLt

theorem sum_of_exponent (w : Spelling) {z : Int} (h : w.whole.length + z ≤ -309) :
    sum { w.numeral with exponent := z } = 0.0 := by
  apply sum_of_le (fun _ => lt_ten_of_mem) (fun _ => lt_ten_of_mem)
  show ((w.whole.map Fin.val).length : Int) + z ≤ -309
  rw [List.length_map]
  exact h

theorem toFloat_nearest (w : Spelling)
    (h : (w.text.length : Int) + 309 ≤ greatestExponent) :
    w.nearest.toFloat = w.numeral.toFloat := by
  have hlength : w.whole.length ≤ w.text.length := by
    simp only [text, digitsText, List.length_append, List.length_map]
    omega
  have hbounds : (w.whole.length : Int) - greatestExponent ≤ -309 := by
    omega
  by_cases hleast : -greatestExponent ≤ w.exponentValue
  · have hexponent : saturate w.exponentValue = saturateMagnitude w.exponentValue := by
      unfold saturate saturateMagnitude leastExponent greatestExponent at *
      omega
    unfold nearest
    rw [hexponent]
    rfl
  · have hexponents : saturate w.exponentValue ≤ -greatestExponent ∧
        saturateMagnitude w.exponentValue ≤ -greatestExponent := by
      unfold saturate saturateMagnitude leastExponent greatestExponent at *
      omega
    have hnearest : w.nearest.sum = 0.0 := w.sum_of_exponent (by omega)
    have hnumeral : w.numeral.sum = 0.0 :=
      w.sum_of_exponent (z := saturateMagnitude w.exponentValue) (by omega)
    unfold toFloat
    rw [hnearest, hnumeral]
    rfl

theorem exists_least : exists w : Spelling,
    w.text = "1e-9223372036854775808".toList ∧ w.exponentValue = leastExponent := by
  let exponent : ExponentSpelling :=
    ⟨false, some .minus, [9, 2, 2, 3, 3, 7, 2, 0, 3, 6, 8, 5, 4, 7, 7, 5, 8, 0, 8], by decide⟩
  let w : Spelling :=
    ⟨[], none, [1], none, some exponent, [], by simp, by simp, by decide⟩
  exact ⟨w, by decide, by decide⟩

end Spelling

/--
The reader of numerals reads the texts of spellings and no others. It finds the digits, the
sign and the saturated exponent that are spelled, and their float is the one that is read.
-/
theorem reads_spellings :
    (forall s : String,
        (exists x, float? s = some x) ↔ exists w : Spelling, w.text = s.toList) ∧
      (forall (cs : List Char) (n : Numeral),
        scan cs = some n ↔ exists w : Spelling, w.text = cs ∧ w.numeral = n) ∧
      forall w : Spelling, float? (String.ofList w.text) = some w.numeral.toFloat ∧
        ((w.text.length : Int) + 309 ≤ greatestExponent ->
          w.nearest.toFloat = w.numeral.toFloat) :=
  ⟨exists_float?_iff, fun _ _ => scan_eq_some_iff,
    fun w => ⟨float?_ofList w, w.toFloat_nearest⟩⟩

/-- The least signed word is spelled as an exponent, and another one is found. -/
theorem reads_spellings_least : exists w : Spelling,
    String.ofList w.text = "1e-9223372036854775808" ∧
      w.nearest.exponent = leastExponent ∧ w.numeral.exponent = leastExponent + 1 ∧
      float? "1e-9223372036854775808" = some w.nearest.toFloat := by
  rcases Spelling.exists_least with ⟨w, hlist, hexponent⟩
  have htext : String.ofList w.text = "1e-9223372036854775808" := by
    rw [hlist, String.ofList_toList]
  have hlength : (w.text.length : Int) + 309 ≤ greatestExponent := by
    rw [hlist]
    decide
  rcases reads_spellings.2.2 w with ⟨hfloat, hnearest⟩
  refine ⟨w, htext, congrArg saturate hexponent, congrArg saturateMagnitude hexponent, ?_⟩
  rw [← htext, hfloat, hnearest hlength]

/-- An exponent that is a signed word itself need not be the one that is found. -/
theorem scan_ne_nearest : exists w : Spelling,
    w.text = "1e-9223372036854775808".toList ∧
      w.exponentValue = leastExponent ∧ saturate w.exponentValue = leastExponent ∧
      (exists n, scan w.text = some n ∧ n.exponent = leastExponent + 1) ∧
      scan w.text ≠ some w.nearest := by
  rcases Spelling.exists_least with ⟨w, htext, hexponent⟩
  have hfound : w.numeral.exponent = leastExponent + 1 := congrArg saturateMagnitude hexponent
  have hnearest : w.nearest.exponent = leastExponent := congrArg saturate hexponent
  refine ⟨w, htext, hexponent, hnearest, ⟨w.numeral, w.scan_text, hfound⟩, ?_⟩
  rw [w.scan_text]
  intro hsame
  rw [Option.some.inj hsame, hnearest] at hfound
  exact absurd hfound (by decide)

end Numeral
end Equate

import Replanning.Proofs.Binary64.Signed
import Replanning.Proofs.Binary64.Undefined
import Replanning.Proofs.Json.Number

namespace Replanning
open Json (Positional Word digitsValue isWordChar)

/-- The double of digits with a point among them or without. -/
def readDigits (cs : List Char) : Float :=
  let fraction := (cs.dropWhile Char.isDigit).drop 1
  Decimal.toFloat ⟨digitsValue (cs.takeWhile Char.isDigit ++ fraction), -fraction.length⟩

def readUnsigned (cs : List Char) : Float :=
  if cs = ['N', 'a', 'N'] then .nan
  else if cs = ['i', 'n', 'f'] then .inf
  else readDigits cs

/-- The double that a text without an exponent spells. -/
def readPlain : List Char → Float
  | '-' :: cs => -readUnsigned cs
  | cs => readUnsigned cs

section Numeral

variable {whole fraction cs : List Char} {d : Decimal} (h : Positional whole fraction cs d)
include h

theorem readDigits_positional : readDigits cs = d.toFloat := by
  have hpoint (c : Char) (hc : (if fraction = [] then [] else '.' :: fraction).head? = some c) :
      c.isDigit = false := by
    split_ifs at hc
    · cases hc
    · rw [← Option.some.inj hc]
      rfl
  have hfraction : (if fraction = [] then [] else '.' :: fraction).drop 1 = fraction := by
    split_ifs with hnil
    · exact hnil.symm
    · rfl
  obtain ⟨htake, hdrop⟩ := Json.span_append Char.isDigit whole _ h.plain.2.1 hpoint
  rw [readDigits, h.text, htake, hdrop, hfraction]
  exact Decimal.toFloat_congr _ _ h.value

/-- A numeral starts with a digit, unlike the names and what has a sign. -/
theorem positional_head : ∃ c rest, cs = c :: rest ∧ c.isDigit = true := by
  obtain ⟨c, rest, rfl⟩ := List.exists_cons_of_ne_nil h.plain.1
  exact ⟨c, _, h.text, h.plain.2.1 c List.mem_cons_self⟩

theorem readUnsigned_positional : readUnsigned cs = d.toFloat := by
  obtain ⟨c, rest, hcs, hc⟩ := positional_head h
  have hname (name : List Char) (hhead : name.head?.any Char.isDigit = false) : cs ≠ name := by
    rintro rfl
    rw [hcs] at hhead
    exact Bool.eq_false_iff.mp hhead hc
  rw [readUnsigned, if_neg (hname _ rfl), if_neg (hname _ rfl), readDigits_positional h]

theorem readPlain_positional : readPlain cs = d.toFloat := by
  obtain ⟨c, rest, rfl, hc⟩ := positional_head h
  rw [readPlain, readUnsigned_positional h]
  rintro cs ⟨⟩
  exact absurd hc (by decide)

end Numeral

/-- The text of a finite double: a numeral that is read as its absolute value, behind the sign. -/
theorem exists_numeral (negative : Bool) (p : ℕ) (hp : p < infinityPattern) :
    ∃ whole fraction cs d, Positional whole fraction cs d ∧ d.toFloat = ofPattern false p ∧
      (plainLayout.text (ofPattern negative p)).toList = if negative then '-' :: cs else cs := by
  have htext : (plainLayout.text (ofPattern negative p)).toList =
      let cs := if ofPattern negative p == 0.0 then Layout.positionalText false ['0'] 0
        else plainLayout.numeralText (Decimal.shortest .up (ofPattern false p))
      if negative then '-' :: cs else cs := by
    rw [Layout.text, isNegative_ofPattern negative p hp.le, String.toList_ofList,
      abs_ofPattern negative p hp.le]
    rfl
  rw [htext]
  -- zero has a text of its own
  by_cases h0 : p = 0
  · obtain ⟨_, _, hzero, _⟩ := Json.exists_positional false 0 0 (Or.inr rfl)
    refine ⟨_, _, _, _, hzero, ?_, ?_⟩
    · rw [Decimal.toFloat_of_digits_zero _ rfl, h0]
      rfl
    · rw [if_pos ((ofPattern_eq_zero_iff negative p hp).mpr h0), Nat.toDigits_zero]
  · obtain ⟨_, _, hshortest, _⟩ := Json.exists_positional false
      (Decimal.shortest .up (ofPattern false p)).digits
      (Decimal.shortest .up (ofPattern false p)).exponent
      (Or.inl (Decimal.digits_shortest_ne_zero .up p hp h0))
    refine ⟨_, _, _, _, hshortest, Decimal.toFloat_shortest .up p hp, ?_⟩
    rw [if_neg (mt (ofPattern_eq_zero_iff negative p hp).mp h0)]
    rfl

/-- What is no finite double has a name. -/
theorem plainText_cases (x : Float) :
    x = .nan ∨ x = .inf ∨ x = -.inf ∨ x.isFinite = true ∧ plainText x = plainLayout.text x := by
  by_cases hnan : x = .nan
  · exact Or.inl hnan
  have hnumber : x.isNaN = false := by rw [Float.isNaN_eq_decide_eq_nan, decide_eq_false hnan]
  obtain ⟨negative, p, hp, rfl⟩ :=
    Binary64.exists_pattern_of_number x ((isNaN_eq_false_iff x).mp hnumber)
  rcases hp.lt_or_eq with hlt | rfl
  · have hfinite := isFinite_ofPattern negative p hlt
    refine Or.inr (Or.inr (Or.inr ⟨hfinite, ?_⟩))
    rw [plainText, hnumber, isInf_of_isFinite _ hfinite]
    rfl
  · cases negative with
    | false => exact Or.inr (Or.inl rfl)
    | true => exact Or.inr (Or.inr (Or.inl rfl))

/-- The text of a double is a word, and it is read back as this double. -/
theorem read_plainText (x : Float) :
    Word (plainText x).toList ∧ readPlain (plainText x).toList = x := by
  have hname (cs : List Char) (hcs : cs ≠ [] ∧ cs.all isWordChar = true) : Word cs :=
    ⟨hcs.1, List.all_eq_true.mp hcs.2⟩
  rcases plainText_cases x with rfl | rfl | rfl | ⟨hx, htext⟩
  · have htext : (plainText .nan).toList = ['N', 'a', 'N'] := by decide +kernel
    rw [htext]
    exact ⟨hname _ (by decide), rfl⟩
  · have htext : (plainText .inf).toList = ['i', 'n', 'f'] := by decide +kernel
    rw [htext]
    exact ⟨hname _ (by decide), rfl⟩
  · have htext : (plainText (-.inf)).toList = ['-', 'i', 'n', 'f'] := by decide +kernel
    rw [htext]
    exact ⟨hname _ (by decide), rfl⟩
  · obtain ⟨negative, p, hp, rfl⟩ := exists_pattern x hx
    obtain ⟨whole, fraction, cs, d, hnumeral, hread, hcs⟩ := exists_numeral negative p hp
    obtain ⟨c, rest, hhead, _⟩ := positional_head hnumeral
    have hword := Json.wordChars_positional whole fraction cs d hnumeral
    rw [htext, hcs]
    cases negative with
    | false =>
      exact ⟨⟨hhead ▸ List.cons_ne_nil c rest, hword⟩, (readPlain_positional hnumeral).trans hread⟩
    | true =>
      refine ⟨⟨List.cons_ne_nil '-' cs, List.forall_mem_cons.mpr ⟨by decide, hword⟩⟩, ?_⟩
      change -readUnsigned cs = _
      rw [readUnsigned_positional hnumeral, hread, neg_ofPattern false p hp.le]
      rfl

end Replanning

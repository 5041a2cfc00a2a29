import FtTraceroute.Itoa

namespace FtTraceroute.Atoi

open Libft Numbers Strings Itoa

theorem atoiDigits_append {ds tail : List UInt8} (hds : ∀ c ∈ ds, isDigit c = true)
    (htail : ∀ c ∈ tail.head?, isDigit c = false) (r : Int) :
    atoiDigits r (ds ++ tail) = atoiDigits r ds := by
  induction ds generalizing r with
  | nil =>
    cases tail with
    | nil => rfl
    | cons c rest =>
      have hc : isDigit c = false := htail c rfl
      change atoiDigits r (c :: rest) = r
      rw [atoiDigits, hc]
      rfl
  | cons c ds ih =>
    have hc := hds c List.mem_cons_self
    rw [List.cons_append, atoiDigits, atoiDigits, if_pos hc, if_pos hc,
      ih fun y hy => hds y (List.mem_cons_of_mem c hy)]

theorem wrap_neg (n : Int) : wrap 64 (-wrap 64 n) = wrap 64 (-n) := by
  rw [wrap, wrap, wrap, ← Int.zero_sub, Int.sub_bmod_bmod, Int.zero_sub]

inductive Sign
  | absent
  | plus
  | minus

namespace Sign

def text : Sign → List UInt8
  | absent => []
  | plus => [43]
  | minus => [45]

def apply : Sign → Nat → Int
  | minus, n => -n
  | _, n => n

end Sign

/-- What `ft_atoi` is given: blanks, a sign and digits that denote an `int`, and a tail. -/
structure Numeral where
  blanks : List UInt8
  sign : Sign
  digits : List UInt8
  tail : List UInt8
  allBlank : ∀ c ∈ blanks, isBlank c = true
  allDigits : ∀ c ∈ digits, isDigit c = true
  nonempty : digits ≠ []
  ends : ∀ c ∈ tail.head?, isDigit c = false
  nulFree : (0 : UInt8) ∉ tail
  fits : -(2 ^ 31) ≤ sign.apply (value digits) ∧ sign.apply (value digits) < 2 ^ 31

namespace Numeral

def value (x : Numeral) : Int := x.sign.apply (Numbers.value x.digits)

def length (x : Numeral) : Nat := x.blanks.length + x.sign.text.length + x.digits.length

def number (x : Numeral) : List UInt8 := x.sign.text ++ (x.digits ++ x.tail)

def text (x : Numeral) : CString where
  bytes := x.blanks ++ x.number
  nulFree h := by
    obtain h | h := List.mem_append.mp h
    · cases x.allBlank 0 h
    · obtain h | h := List.mem_append.mp h
      · cases hsign : x.sign <;> simp [hsign, Sign.text] at h
      · obtain h | h := List.mem_append.mp h
        · cases x.allDigits 0 h
        · exact x.nulFree h

variable (x : Numeral)

theorem digits_cons : ∃ d ds, x.digits = d :: ds ∧ isDigit d = true ∧ d ≠ 43 ∧ d ≠ 45 := by
  obtain ⟨d, ds, hds⟩ := List.exists_cons_of_ne_nil x.nonempty
  have hd : isDigit d = true := x.allDigits d (hds ▸ List.mem_cons_self)
  refine ⟨d, ds, hds, hd, ?_, ?_⟩
  all_goals
    rintro rfl
    cases hd

theorem number_head : x.number.head?.any isBlank = false := by
  obtain ⟨d, ds, hds, hd, -⟩ := x.digits_cons
  cases hsign : x.sign with
  | absent => simpa [number, hsign, Sign.text, hds] using isDigit_not_blank hd
  | plus | minus =>
    simp only [number, hsign, Sign.text, List.singleton_append, List.head?_cons, Option.any_some]
    decide

theorem takeWhile_blanks : x.text.bytes.takeWhile isBlank = x.blanks := by
  have hhead := x.number_head
  rw [text, List.takeWhile_append_of_pos x.allBlank]
  cases hnumber : x.number with
  | nil => simp
  | cons c rest =>
    rw [hnumber, List.head?_cons, Option.any_some] at hhead
    rw [List.takeWhile_cons_of_neg (by simp [hhead]), List.append_nil]

theorem dropWhile_blanks : x.text.bytes.dropWhile isBlank = x.number := by
  have hsplit := List.takeWhile_append_dropWhile (p := isBlank) (l := x.text.bytes)
  rw [takeWhile_blanks] at hsplit
  exact List.append_cancel_left hsplit

theorem signLength_number : signLength x.number = x.sign.text.length := by
  obtain ⟨d, ds, hds, -, hplus, hminus⟩ := x.digits_cons
  cases hsign : x.sign with
  | absent => simp [number, hsign, Sign.text, hds, signLength, hplus, hminus]
  | plus | minus => simp [number, hsign, Sign.text, signLength]

theorem negative_number : (x.number.head? == some 45) = true ↔ x.sign = .minus := by
  obtain ⟨d, ds, hds, -, -, hminus⟩ := x.digits_cons
  cases hsign : x.sign with
  | absent => simp [number, hsign, Sign.text, hds, hminus]
  | plus | minus => simp [number, hsign, Sign.text]

theorem drop_sign : x.number.drop (signLength x.number) = x.digits ++ x.tail := by
  rw [signLength_number]
  exact List.drop_left

theorem takeWhile_digits : (x.digits ++ x.tail).takeWhile isDigit = x.digits := by
  rw [List.takeWhile_append_of_pos x.allDigits]
  cases htail : x.tail with
  | nil => simp
  | cons c rest =>
    have hc : isDigit c = false := x.ends c (by simp [htail])
    rw [List.takeWhile_cons_of_neg (by simp [hc]), List.append_nil]

theorem scanned_text : scanned x.text.bytes = x.length := by
  rw [scanned, takeWhile_blanks, dropWhile_blanks, drop_sign, takeWhile_digits, signLength_number,
    length]

theorem atoiValue_text : atoiValue x.text = x.value := by
  obtain ⟨d, ds, hds, hd, -⟩ := x.digits_cons
  have hletter : (x.digits ++ x.tail).head?.any isLetter = false := by
    simpa [hds] using isDigit_not_letter hd
  have hdigits : atoiDigits 0 (x.digits ++ x.tail) = wrap 64 (Numbers.value x.digits) := by
    rw [atoiDigits_append x.allDigits x.ends]
    exact atoiDigits_eq x.allDigits 0
  have hvalue : wrap 32 x.value = x.value := wrap_of_fits x.fits.1 x.fits.2
  have hbits : 32 ≤ 64 := by decide
  have hnegative := x.negative_number
  dsimp only [atoiValue]
  rw [dropWhile_blanks, drop_sign, hletter, hdigits, if_neg Bool.false_ne_true]
  rw [value] at hvalue ⊢
  cases hsign : x.sign with
  | minus =>
    rw [hsign] at hvalue hnegative
    rw [if_pos (hnegative.mpr rfl), wrap_neg, wrap_wrap hbits]
    exact hvalue
  | absent | plus =>
    rw [hsign] at hvalue hnegative
    have hnot := mt hnegative.mp nofun
    rw [if_neg hnot, wrap_wrap hbits]
    exact hvalue

theorem ftAtoi_text : ftAtoi x.text = within x.length x.value := by
  rw [ftAtoi_eq, scanned_text, atoiValue_text]

end Numeral

def signOf (n : Int) : Sign := if n < 0 then .minus else .absent

theorem signOf_apply (n : Int) : (signOf n).apply n.natAbs = n := by
  unfold signOf
  split
  · simp only [Sign.apply]
    omega
  · simp only [Sign.apply]
    omega

def encoded (n : Int32) {ds : List UInt8} (hds : Digits n.toInt.natAbs ds) : Numeral where
  blanks := []
  sign := signOf n.toInt
  digits := ds
  tail := []
  allBlank _ h := absurd h List.not_mem_nil
  allDigits := hds.allDigits
  nonempty := hds.nonempty
  ends _ h := absurd h (Option.not_mem_none _)
  nulFree := nulFree_nil
  fits := by
    rw [hds.value_eq, signOf_apply]
    exact ⟨n.le_toInt, n.toInt_lt⟩

theorem encoded_bytes (n : Int32) {ds : List UInt8} (hds : Digits n.toInt.natAbs ds) :
    (encoded n hds).text.bytes = (if n.toInt < 0 then [45] else []) ++ ds := by
  change [] ++ ((signOf n.toInt).text ++ (ds ++ [])) = _
  rw [List.nil_append, List.append_nil, signOf]
  split <;> rfl

theorem ftItoa_roundtrip (n : Int32) : ∃ text : CString,
    ftItoa n.toInt = .ok (some (text.bytes ++ [0])) ∧ Canonical n.toInt text.bytes ∧
      ftAtoi text = .ok n.toInt := by
  have hlow := n.le_toInt
  have hhigh := n.toInt_lt
  obtain ⟨ds, hds, hlength, hitoa⟩ := ftItoa_eq (n := n.toInt) (by omega)
  refine ⟨(encoded n hds).text, ?_, ⟨ds, hds, encoded_bytes n hds⟩, ?_⟩
  · rw [encoded_bytes, hitoa]
  · have hsign : (signOf n.toInt).text.length ≤ 1 := by
      cases signOf n.toInt <;> decide
    have hshort : (encoded n hds).length < 2 ^ 31 := by
      change 0 + (signOf n.toInt).text.length + ds.length < 2 ^ 31
      omega
    have hvalue : (encoded n hds).value = n.toInt := by
      change (signOf n.toInt).apply (value ds) = n.toInt
      rw [hds.value_eq, signOf_apply]
    rw [Numeral.ftAtoi_text, within_of_lt hshort, hvalue]

/-- `ft_atoi` undoes `ft_itoa`, and it reads exactly the numerals whose blanks, sign and digits
an `int` can index. -/
theorem ftItoa_ftAtoi (n : Int32) (x : Numeral) :
    (∃ text : CString, ftItoa n.toInt = .ok (some (text.bytes ++ [0])) ∧
      Canonical n.toInt text.bytes ∧ ftAtoi text = .ok n.toInt) ∧
    (ftAtoi x.text = .ok x.value ↔ x.length < 2 ^ 31) := by
  refine ⟨ftItoa_roundtrip n, ?_⟩
  rw [Numeral.ftAtoi_text, within_eq_ok]
  exact and_iff_left rfl

example : ftAtoi ⟨ascii "\t -0042km", by decide⟩ = .ok (-42) := by decide

/-- A `1` after 2^31 spaces. -/
def farNumeral : Numeral where
  blanks := List.replicate (2 ^ 31) 32
  sign := .absent
  digits := [49]
  tail := []
  allBlank c h := by
    rw [List.eq_of_mem_replicate h]
    rfl
  allDigits c h := by
    rw [List.mem_singleton.mp h]
    rfl
  nonempty := List.cons_ne_nil _ _
  ends _ h := absurd h (Option.not_mem_none _)
  nulFree := nulFree_nil
  fits := by decide

/-- The index overflows among the spaces. -/
theorem farNumeral_unread :
    farNumeral.value = 1 ∧ ftAtoi farNumeral.text = .error .outOfBounds := by
  have hblanks : farNumeral.blanks.length = 2 ^ 31 := List.length_replicate
  refine ⟨rfl, ?_⟩
  rw [Numeral.ftAtoi_text, Numeral.length, hblanks]
  apply within_of_le
  omega

end FtTraceroute.Atoi

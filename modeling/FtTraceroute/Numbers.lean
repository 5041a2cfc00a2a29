import FtTraceroute.Libft
import FtTraceroute.Library.Scan

namespace FtTraceroute.Numbers

open Library.Scan Libft

/-- The number a digit string denotes. -/
def value (ds : List UInt8) : Nat := ds.foldl (fun n c => 10 * n + (c.toNat - 48)) 0

theorem value_concat (ds : List UInt8) (c : UInt8) :
    value (ds ++ [c]) = 10 * value ds + (c.toNat - 48) := by
  rw [value, List.foldl_append]
  rfl

theorem isDigit_iff (c : UInt8) : isDigit c = true ↔ 48 ≤ c.toNat ∧ c.toNat ≤ 57 := by
  simp [isDigit, UInt8.le_iff_toNat_le]

theorem isDigit_not_blank {c : UInt8} (hc : isDigit c = true) : isBlank c = false := by
  obtain ⟨hlow, -⟩ := (isDigit_iff c).mp hc
  simp only [isBlank, Bool.or_eq_false_iff, beq_eq_false_iff_ne, ne_eq]
  refine ⟨⟨⟨⟨⟨?_, ?_⟩, ?_⟩, ?_⟩, ?_⟩, ?_⟩ <;> rintro rfl <;> revert hlow <;> decide

theorem isDigit_not_letter {c : UInt8} (hc : isDigit c = true) : isLetter c = false := by
  obtain ⟨-, hhigh⟩ := (isDigit_iff c).mp hc
  simp only [isLetter, UInt8.le_iff_toNat_le, Bool.or_eq_false_iff, Bool.and_eq_false_iff,
    decide_eq_false_iff_not, not_le]
  exact ⟨.inl (Nat.lt_of_le_of_lt hhigh (by decide)), .inl (Nat.lt_of_le_of_lt hhigh (by decide))⟩

theorem wrap_wrap {k n : Nat} (h : k ≤ n) (x : Int) : wrap k (wrap n x) = wrap k x :=
  Int.bmod_bmod_of_dvd (Nat.pow_dvd_pow 2 h)

theorem wrap_step (bits : Nat) (x d : Int) :
    wrap bits (10 * wrap bits x + d) = wrap bits (10 * x + d) := by
  rw [wrap, wrap, wrap, ← Int.bmod_add_bmod, Int.mul_bmod_bmod, Int.bmod_add_bmod]

/-- The value of the digit loop of `ft_atoi`. -/
def atoiDigits (r : Int) : List UInt8 → Int
  | [] => r
  | c :: cs => if isDigit c then atoiDigits (wrap 64 (10 * r + ((c.toNat : Int) - 48))) cs else r

def signLength (rest : List UInt8) : Nat :=
  if rest.head? == some 43 || rest.head? == some 45 then 1 else 0

theorem signLength_digit {c : UInt8} (hc : isDigit c = true) (cs : List UInt8) :
    signLength (c :: cs) = 0 := by
  obtain ⟨hlow, -⟩ := (isDigit_iff c).mp hc
  have hplus : c ≠ 43 := by rintro rfl; revert hlow; decide
  have hminus : c ≠ 45 := by rintro rfl; revert hlow; decide
  simp [signLength, hplus, hminus]

def atoiValue (s : CString) : Int :=
  let rest := s.bytes.dropWhile isBlank
  let number := rest.drop (signLength rest)
  let r := atoiDigits 0 number
  if number.head?.any isLetter then 0
  else wrap 32 (if rest.head? == some 45 then wrap 64 (-r) else r)

/-- The number of characters that `ft_atoi` steps over: blanks, a sign and digits. -/
def scanned (xs : List UInt8) : Nat :=
  let rest := xs.dropWhile isBlank
  (xs.takeWhile isBlank).length + signLength rest +
    ((rest.drop (signLength rest)).takeWhile isDigit).length

variable {s : CString} {xs : List UInt8} {i : Nat} {r : Int}

theorem skipBlanks_eq (hi : i < 2 ^ 31) : skipBlanks i xs =
    within (i + (xs.takeWhile isBlank).length)
      (i + (xs.takeWhile isBlank).length, xs.dropWhile isBlank) := by
  induction xs generalizing i with
  | nil => exact (within_of_lt hi).symm
  | cons c cs ih =>
    by_cases hc : isBlank c = true
    · rw [skipBlanks, if_pos hc, add_length_takeWhile hc, List.dropWhile_cons_of_pos hc]
      apply within_bind (by omega)
      intro hnext
      exact ih hnext
    · rw [skipBlanks, if_neg hc, List.takeWhile_cons_of_neg hc, List.dropWhile_cons_of_neg hc]
      exact (within_of_lt hi).symm

theorem skipSign_eq (hi : i < 2 ^ 31) (rest : List UInt8) : skipSign i rest =
    within (i + signLength rest) (i + signLength rest, rest.drop (signLength rest)) := by
  unfold skipSign signLength
  split
  · rw [List.drop_one]
    apply within_bind le_rfl
    exact fun hnext => (within_of_lt hnext).symm
  · exact (within_of_lt hi).symm

theorem readDigits_eq (hi : i < 2 ^ 31) : readDigits i r xs =
    within (i + (xs.takeWhile isDigit).length) (atoiDigits r xs) := by
  induction xs generalizing i r with
  | nil => exact (within_of_lt hi).symm
  | cons c cs ih =>
    by_cases hc : isDigit c = true
    · rw [readDigits, if_pos hc, add_length_takeWhile hc, atoiDigits, if_pos hc]
      apply within_bind (by omega)
      intro hnext
      exact ih hnext
    · rw [readDigits, if_neg hc, List.takeWhile_cons_of_neg hc, atoiDigits, if_neg hc]
      exact (within_of_lt hi).symm

theorem takeWhile_letter (h : xs.head?.any isLetter = true) : xs.takeWhile isDigit = [] := by
  cases xs with
  | nil => rfl
  | cons c cs =>
    apply List.takeWhile_cons_of_neg
    intro hc
    rw [List.head?_cons, Option.any_some, isDigit_not_letter hc] at h
    cases h

theorem ftAtoi_eq (s : CString) : ftAtoi s = within (scanned s.bytes) (atoiValue s) := by
  rw [ftAtoi, skipBlanks_eq (by decide), atoiValue, scanned, Nat.zero_add]
  apply within_bind (by omega)
  intro hblanks
  dsimp only
  rw [skipSign_eq hblanks]
  apply within_bind (by omega)
  intro hsign
  dsimp only
  split
  · next hletter =>
    rw [takeWhile_letter hletter, List.length_nil, Nat.add_zero]
    exact (within_of_lt hsign).symm
  · rw [readDigits_eq hsign]
    apply within_bind le_rfl
    exact fun hdigits => (within_of_lt hdigits).symm

theorem scanned_le (xs : List UInt8) : scanned xs ≤ xs.length := by
  have hblanks := congrArg List.length (List.takeWhile_append_dropWhile (p := isBlank) (l := xs))
  have hdigits := (List.takeWhile_sublist isDigit
    (l := (xs.dropWhile isBlank).drop (signLength (xs.dropWhile isBlank)))).length_le
  have hsign : signLength (xs.dropWhile isBlank) ≤ (xs.dropWhile isBlank).length := by
    unfold signLength
    cases xs.dropWhile isBlank with
    | nil => decide
    | cons c cs => split <;> simp
  rw [List.length_append] at hblanks
  rw [List.length_drop] at hdigits
  dsimp only [scanned]
  omega

theorem atoiDigits_eq {ds : List UInt8} (hds : ∀ c ∈ ds, isDigit c = true) (n : Nat) :
    atoiDigits (wrap 64 n) ds =
      wrap 64 ((ds.foldl (fun n c => 10 * n + (c.toNat - 48)) n : Nat) : Int) := by
  induction ds generalizing n with
  | nil => rfl
  | cons c ds ih =>
    have hc := hds c List.mem_cons_self
    obtain ⟨hlow, -⟩ := (isDigit_iff c).mp hc
    have hd : ((c.toNat : Int) - 48) = ((c.toNat - 48 : Nat) : Int) := by omega
    rw [atoiDigits, if_pos hc, wrap_step, hd, List.foldl_cons,
      ← ih fun x hx => hds x (by simp [hx])]
    push_cast
    rfl

/-- Of a digit string everything is scanned, and its value is kept as far as 32 bits hold it. -/
theorem atoi_digits (hs : ∀ c ∈ s.bytes, isDigit c = true) :
    scanned s.bytes = s.bytes.length ∧ atoiValue s = wrap 32 (value s.bytes) := by
  have hloop := atoiDigits_eq hs 0
  have hzero : wrap 64 ((0 : Nat) : Int) = 0 := rfl
  have hbits : 32 ≤ 64 := by decide
  rw [hzero] at hloop
  have hall : s.bytes.takeWhile isDigit = s.bytes := List.takeWhile_eq_self_iff.mpr hs
  cases hb : s.bytes with
  | nil => simp [scanned, signLength, atoiValue, hb, atoiDigits, value, wrap]
  | cons c cs =>
    have hc : isDigit c = true := hs c (by simp [hb])
    have hblank := isDigit_not_blank hc
    have hsign := signLength_digit hc cs
    have hminus : c ≠ 45 := by rintro rfl; cases hc
    rw [hb] at hloop hall
    have hdrop : (c :: cs).dropWhile isBlank = c :: cs :=
      List.dropWhile_cons_of_neg (by simp [hblank])
    have hnone : (c :: cs).takeWhile isBlank = [] := List.takeWhile_cons_of_neg (by simp [hblank])
    constructor
    · simp only [scanned, hdrop, hnone, hsign, List.drop_zero, hall, List.length_nil, Nat.zero_add]
    · simp only [atoiValue, hb, hdrop, hsign, List.drop_zero, List.head?_cons, Option.any_some,
        isDigit_not_letter hc, Option.some_beq_some, beq_eq_false_iff_ne.mpr hminus, hloop,
        wrap_wrap hbits, Bool.false_eq_true, ↓reduceIte]
      rfl

end FtTraceroute.Numbers

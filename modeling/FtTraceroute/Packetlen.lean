import FtTraceroute.Parsing

namespace FtTraceroute.Packetlen

open Libft Header Parsing Numbers

/-- A length as the usage asks for it: decimal digits, at most `MAX_PACKET_SIZE`. -/
def WellFormed (plen : CString) : Prop :=
  plen.bytes ≠ [] ∧ (∀ c ∈ plen.bytes, isDigit c = true) ∧ value plen.bytes ≤ maxPacketSize

/-- `test_packetlen` takes exactly the well formed lengths, and refuses every other string
with an error and the sizes as they were. -/
structure Meets (plen : CString) (index : Nat) (w : World) : Prop where
  accepts : ∀ w', testPacketlen plen index w = .ok w' ↔
    WellFormed plen ∧ w' = sized (max 28 (value plen.bytes)) w
  rejects : ∀ x, testPacketlen plen index w = .error x → ∃ o, x = .exit 0 (say o w) ∧
    (o = .badPacketlen plen index ∨ ∃ n, o = .bigPacketlen n)

variable {plen : CString} {index : Nat} {w : World}

theorem testPacketlen_text (hshort : scanned plen.bytes < 2 ^ 31)
    (h : ¬ ∀ c ∈ plen.bytes, isDigit c = true) :
    testPacketlen plen index w = .error (.exit 0 (say (.badPacketlen plen index) w)) := by
  have hnum : plen.bytes.all isDigit = false := by
    rw [← Bool.not_eq_true, List.all_eq_true]
    exact h
  rw [testPacketlen_eq, if_neg (not_le.mpr hshort), if_pos (.inl hnum)]

/-- A digit string is taken by the value that an `int` keeps of it. -/
theorem testPacketlen_digits (hshort : plen.bytes.length < 2 ^ 31)
    (h : ∀ c ∈ plen.bytes, isDigit c = true) :
    testPacketlen plen index w =
      if value plen.bytes % 2 ^ 32 ≤ maxPacketSize then
        .ok (sized (max 28 (value plen.bytes % 2 ^ 32)) w)
      else if value plen.bytes % 2 ^ 32 < 2 ^ 31 then
        .error (.exit 0 (say (.bigPacketlen (value plen.bytes % 2 ^ 32 : Nat)) w))
      else .error (.exit 0 (say (.badPacketlen plen index) w)) := by
  have hnum : plen.bytes.all isDigit = true := List.all_eq_true.mpr h
  obtain ⟨hscan, hatoi⟩ := atoi_digits h
  have hlen : atoiValue plen = if value plen.bytes % 2 ^ 32 < 2 ^ 31
      then ((value plen.bytes % 2 ^ 32 : Nat) : Int)
      else ((value plen.bytes % 2 ^ 32 : Nat) : Int) - 2 ^ 32 := by
    rw [hatoi, wrap, Int.bmod_def]
    norm_num
    split <;> split <;> omega
  have hm : value plen.bytes % 2 ^ 32 < 2 ^ 32 := Nat.mod_lt _ (by decide)
  rw [testPacketlen_eq, hscan, if_neg (not_le.mpr hshort), hlen, hnum]
  simp only [Bool.true_eq_false, false_or]
  generalize value plen.bytes % 2 ^ 32 = m at hm ⊢
  unfold maxPacketSize
  by_cases hsmall : m ≤ 65000
  · have hlow : m < 2 ^ 31 := by omega
    have htotal : (if (m : Int) < 28 then 28 else (m : Int).toNat) = max 28 m := by
      split <;> omega
    simp only [hlow, hsmall, ↓reduceIte, htotal]
    rw [if_neg (by omega), if_neg (by omega)]
  · by_cases hlow : m < 2 ^ 31
    · simp only [hlow, hsmall, ↓reduceIte]
      rw [if_neg (by omega), if_pos (by omega)]
    · simp only [hlow, hsmall, ↓reduceIte]
      rw [if_pos (by omega)]

theorem meets_of_error {o : Out} (hw : ¬ WellFormed plen)
    (h : testPacketlen plen index w = .error (.exit 0 (say o w)))
    (ho : o = .badPacketlen plen index ∨ ∃ n, o = .bigPacketlen n) : Meets plen index w where
  accepts w' := by simp [h, hw]
  rejects x hx := by
    rw [h] at hx
    cases hx
    exact ⟨o, rfl, ho⟩

theorem not_meets_of_scanned (h : 2 ^ 31 ≤ scanned plen.bytes) : ¬ Meets plen index w := by
  intro hmeets
  have htest : testPacketlen plen index w = .error (.overrun w) := by
    rw [testPacketlen_eq, if_pos h]
  obtain ⟨o, ho, -⟩ := hmeets.rejects _ htest
  cases ho

theorem meets_of_ok (hshort : plen.bytes.length < 2 ^ 31)
    (hdigits : ∀ c ∈ plen.bytes, isDigit c = true)
    (hlow : value plen.bytes % 2 ^ 32 ≤ maxPacketSize) : Meets plen index w ↔ WellFormed plen := by
  have h := @testPacketlen_digits plen index w hshort hdigits
  rw [if_pos hlow] at h
  constructor
  · intro hmeets
    exact ((hmeets.accepts _).mp h).1
  · intro hw
    have hvalue : value plen.bytes % 2 ^ 32 = value plen.bytes :=
      Nat.mod_eq_of_lt (lt_of_le_of_lt hw.2.2 (by decide))
    rw [hvalue] at h
    refine ⟨fun w' => ?_, fun x hx => ?_⟩
    · rw [h, Except.ok.injEq, and_iff_right hw, eq_comm]
    · rw [h] at hx
      cases hx

theorem meets_digits (hshort : plen.bytes.length < 2 ^ 31)
    (hdigits : ∀ c ∈ plen.bytes, isDigit c = true) : Meets plen index w ↔ plen.bytes ≠ [] ∧
      (value plen.bytes ≤ maxPacketSize ∨ maxPacketSize < value plen.bytes % 2 ^ 32) := by
  obtain hlow | hhigh := le_or_gt (value plen.bytes % 2 ^ 32) maxPacketSize
  · rw [meets_of_ok hshort hdigits hlow, WellFormed, and_iff_right hdigits,
      or_iff_left (not_lt.mpr hlow)]
  · have hbig : maxPacketSize < value plen.bytes := lt_of_lt_of_le hhigh (Nat.mod_le _ _)
    have hne : plen.bytes ≠ [] := fun hnil => by simp [hnil, value] at hbig
    refine iff_of_true ?_ ⟨hne, .inr hhigh⟩
    have hw : ¬ WellFormed plen := fun hw => absurd hw.2.2 (not_le.mpr hbig)
    have h := @testPacketlen_digits plen index w hshort hdigits
    rw [if_neg (not_le.mpr hhigh)] at h
    split at h
    · exact meets_of_error hw h (.inr ⟨_, rfl⟩)
    · exact meets_of_error hw h (.inl rfl)

/-- Besides, the string has to end, or to stop being a number, where an `int` can still
count the characters. -/
theorem meets_iff (plen : CString) (index : Nat) (w : World) : Meets plen index w ↔
    plen.bytes ≠ [] ∧ scanned plen.bytes < 2 ^ 31 ∧
      ((∀ c ∈ plen.bytes, isDigit c = true) →
        value plen.bytes ≤ maxPacketSize ∨ maxPacketSize < value plen.bytes % 2 ^ 32) := by
  obtain hshort | hlong := lt_or_ge (scanned plen.bytes) (2 ^ 31)
  · rw [and_iff_right hshort]
    by_cases hdigits : ∀ c ∈ plen.bytes, isDigit c = true
    · rw [meets_digits ((atoi_digits hdigits).1 ▸ hshort) hdigits]
      apply and_congr_right
      intro _
      exact ⟨fun h _ => h, fun h => h hdigits⟩
    · have hne : plen.bytes ≠ [] := fun hnil => hdigits (by simp [hnil])
      refine iff_of_true ?_ ⟨hne, fun hall => absurd hall hdigits⟩
      exact meets_of_error (fun hw => hdigits hw.2.1) (testPacketlen_text hshort hdigits) (.inl rfl)
  · exact iff_of_false (not_meets_of_scanned hlong) fun h => absurd h.2.1 (not_lt.mpr hlong)

def huge : CString := ⟨ascii "4294967297", by decide⟩

/-- A length of more than four thousand million is taken for 1 and raised to 28. -/
theorem huge_accepted : testPacketlen huge 2 init = .ok (sized 28 init) ∧
    value huge.bytes = 4294967297 ∧ ¬ Meets huge 2 init := by
  have hvalue : value huge.bytes = 4294967297 := by decide +kernel
  have htest : testPacketlen huge 2 init = .ok (sized 28 init) := by
    rw [testPacketlen_digits (by decide +kernel) (by decide +kernel), hvalue]
    rfl
  refine ⟨htest, hvalue, fun hmeets => ?_⟩
  have hw := ((hmeets.accepts _).mp htest).1
  have hle := hw.2.2
  rw [hvalue] at hle
  exact absurd hle (by decide)

end FtTraceroute.Packetlen

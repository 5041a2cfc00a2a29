import FtTraceroute.Atoi

namespace FtTraceroute.Integers

open Libft Inet Numbers Strings Itoa Atoi Text

/-- A character that is written, and the descriptor it is written to. -/
abbrev Write := Int × UInt8

def ftPutcharFd (c fd : Int) : List Write := [(fd, UInt8.ofInt c)]

/-- The test for the smallest `int`: what it writes, and the number that is left. -/
def putMinimum (nb fd : Int) : List Write × Int :=
  if nb = -2147483648 then (ftPutcharFd 45 fd ++ ftPutcharFd 50 fd, 147483648) else ([], nb)

def putSign (nb fd : Int) : List Write × Int :=
  if nb < 0 then (ftPutcharFd 45 fd, nb * -1) else ([], nb)

theorem putMinimum_natAbs (nb fd : Int) : (putMinimum nb fd).2.natAbs ≤ nb.natAbs := by
  rw [putMinimum]
  split
  · next h =>
    rw [h]
    change 147483648 ≤ 2147483648
    decide
  · exact le_rfl

theorem putSign_natAbs (nb fd : Int) : (putSign nb fd).2 = nb.natAbs := by
  rw [putSign]
  split
  · rw [mul_neg_one]
    omega
  · omega

def ftPutnbrFd (nb fd : Int) : List Write :=
  let minimum := putMinimum nb fd
  let sign := putSign minimum.2 fd
  minimum.1 ++ sign.1 ++
    if 10 ≤ sign.2 then ftPutnbrFd (sign.2.tdiv 10) fd ++ ftPutcharFd (sign.2.tmod 10 + 48) fd
    else ftPutcharFd (sign.2 + 48) fd
termination_by nb.natAbs
decreasing_by
  have hten : 10 ≤ (putSign (putMinimum nb fd).2 fd).2 := ‹_›
  have hsmaller := putMinimum_natAbs nb fd
  have habs := putSign_natAbs (putMinimum nb fd).2 fd
  change ((putSign (putMinimum nb fd).2 fd).2.tdiv 10).natAbs < nb.natAbs
  rw [natAbs_tdiv_ten]
  omega

def ftPutnbr (nb : Int) : List UInt8 := (ftPutnbrFd nb 1).map Prod.snd

variable {m : Nat} {c : UInt8} {ds es : List UInt8}

theorem value_nil : value [] = 0 := rfl

theorem digits_one (h : m < 10) : Digits m [digit m] where
  nonempty := List.cons_ne_nil _ _
  allDigits c hc := by
    rw [List.mem_singleton.mp hc]
    exact isDigit_digit m
  value_eq := by
    rw [← List.nil_append [digit m], value_concat, value_nil, digit_toNat]
    omega
  noLeadingZero hhead := by
    rw [List.head?_cons, Option.some_inj] at hhead
    rw [hhead]

theorem digits_concat (h : 10 ≤ m) (hds : Digits (m / 10) ds) : Digits m (ds ++ [digit m]) where
  nonempty := by simp
  allDigits c hc := by
    obtain hc | hc := List.mem_append.mp hc
    · exact hds.allDigits c hc
    · rw [List.mem_singleton.mp hc]
      exact isDigit_digit m
  value_eq := by
    rw [value_concat, hds.value_eq, digit_toNat]
    omega
  noLeadingZero hhead := by
    rw [List.head?_append_of_ne_nil _ hds.nonempty] at hhead
    have hvalue := hds.value_eq
    rw [hds.noLeadingZero hhead] at hvalue
    change 0 = m / 10 at hvalue
    omega

theorem all_zero (hds : ∀ c ∈ ds, isDigit c = true) (h : value ds = 0) : ∀ c ∈ ds, c = 48 := by
  induction ds using List.reverseRecOn with
  | nil => exact fun _ hc => absurd hc List.not_mem_nil
  | append_singleton ds d ih =>
    have hd := (isDigit_iff d).mp (hds d (by simp))
    rw [value_concat] at h
    intro c hc
    obtain hc | hc := List.mem_append.mp hc
    · exact ih (fun c hc => hds c (List.mem_append_left _ hc)) (by omega) c hc
    · rw [List.mem_singleton.mp hc, ← UInt8.toNat_inj]
      change d.toNat = 48
      omega

theorem digits_cases (h : Digits m ds) : m < 10 ∧ ds = [digit m] ∨
    10 ≤ m ∧ ∃ front, Digits (m / 10) front ∧ ds = front ++ [digit m] := by
  obtain rfl | ⟨front, c, rfl⟩ := List.eq_nil_or_concat' ds
  · exact absurd rfl h.nonempty
  have hc := (isDigit_iff c).mp (h.allDigits c (by simp))
  have hvalue := h.value_eq
  rw [value_concat] at hvalue
  have hlast : c = digit m := by
    rw [← UInt8.toNat_inj, digit_toNat]
    omega
  cases front with
  | nil =>
    rw [value_nil] at hvalue
    exact .inl ⟨by omega, by rw [hlast, List.nil_append]⟩
  | cons d front =>
    have hdigits : ∀ c ∈ d :: front, isDigit c = true := fun c hc =>
      h.allDigits c (List.mem_append_left _ hc)
    have hfirst : d ≠ 48 := fun hd => by
      have hzero := h.noLeadingZero (by simp [hd])
      simp at hzero
    have hpos : value (d :: front) ≠ 0 := fun hzero =>
      hfirst (all_zero hdigits hzero d List.mem_cons_self)
    refine .inr ⟨by omega, d :: front, ⟨List.cons_ne_nil _ _, hdigits, by omega, fun hd => ?_⟩, by
      rw [hlast]⟩
    exact absurd (Option.some_inj.mp hd) hfirst

theorem digits_unique (h : Digits m ds) (h' : Digits m es) : ds = es := by
  induction m using Nat.strong_induction_on generalizing ds es with
  | h m ih =>
    obtain ⟨hm, rfl⟩ | ⟨hm, front, hfront, rfl⟩ := digits_cases h
    · obtain ⟨-, rfl⟩ | ⟨hten, -⟩ := digits_cases h'
      · rfl
      · omega
    · obtain ⟨hsmall, -⟩ | ⟨-, front', hfront', rfl⟩ := digits_cases h'
      · omega
      · rw [ih (m / 10) (by omega) hfront hfront']

theorem putMinimum_of_ne {nb : Int} (h : nb ≠ -2147483648) (fd : Int) :
    putMinimum nb fd = ([], nb) := if_neg h

theorem putSign_natCast (m : Nat) (fd : Int) : putSign m fd = ([], (m : Int)) :=
  if_neg (by omega)

theorem ofInt_digit (m : Nat) : UInt8.ofInt ((m % 10 : Nat) + 48) = digit m := by
  rw [← UInt8.toNat_inj, digit_toNat, UInt8.ofInt, UInt8.toNat_ofNat']
  omega

theorem putnbr_natCast (m : Nat) (fd : Int) : ftPutnbrFd m fd =
    if 10 ≤ m then ftPutnbrFd (m / 10 : Nat) fd ++ [(fd, digit m)] else [(fd, digit m)] := by
  have hlast := ofInt_digit m
  rw [ftPutnbrFd, putMinimum_of_ne (by omega), putSign_natCast]
  by_cases h : 10 ≤ m
  · rw [if_pos h, ← hlast]
    exact if_pos (Int.ofNat_le.mpr h)
  · rw [Nat.mod_eq_of_lt (by omega)] at hlast
    rw [if_neg h, ← hlast]
    exact if_neg (mt Int.ofNat_le.mp h)

theorem putnbr_digits (m : Nat) (fd : Int) :
    ∃ ds, Digits m ds ∧ ftPutnbrFd m fd = ds.map (Prod.mk fd) := by
  induction m using Nat.strong_induction_on with
  | h m ih =>
    rw [putnbr_natCast]
    split
    · next h =>
      obtain ⟨ds, hds, hput⟩ := ih (m / 10) (by omega)
      exact ⟨ds ++ [digit m], digits_concat h hds, by rw [hput, List.map_append, List.map_singleton]⟩
    · next h => exact ⟨[digit m], digits_one (by omega), rfl⟩

theorem putnbr_sign (nb fd : Int) : ftPutnbrFd nb fd = (putMinimum nb fd).1 ++
    (putSign (putMinimum nb fd).2 fd).1 ++ ftPutnbrFd ((putMinimum nb fd).2.natAbs : Int) fd := by
  have habs := putSign_natAbs (putMinimum nb fd).2 fd
  have hplain : putMinimum ((putMinimum nb fd).2.natAbs : Int) fd =
      ([], ((putMinimum nb fd).2.natAbs : Int)) := putMinimum_of_ne (by omega) fd
  rw [ftPutnbrFd]
  conv_rhs => rw [ftPutnbrFd, hplain, putSign_natCast]
  rw [habs]
  rfl

theorem digits_minimum : Digits 147483648 (ascii "147483648") where
  nonempty := by decide
  allDigits := by decide +kernel
  value_eq := by decide +kernel
  noLeadingZero := by decide

theorem putnbr_text (n : Int) (fd : Int) :
    ∃ ds, Digits n.natAbs ds ∧
      ftPutnbrFd n fd = ((if n < 0 then [45] else []) ++ ds).map (Prod.mk fd) := by
  by_cases hmin : n = -2147483648
  · obtain ⟨ds, hds, hput⟩ := putnbr_digits 147483648 fd
    have hminimum : putMinimum n fd = ([(fd, 45), (fd, 50)], 147483648) := if_pos hmin
    refine ⟨50 :: ds, ?_, ?_⟩
    · rw [digits_unique hds digits_minimum, hmin]
      exact ⟨by decide, by decide +kernel, by decide +kernel, by decide⟩
    · have hsign : putSign 147483648 fd = ([], 147483648) := putSign_natCast 147483648 fd
      rw [putnbr_sign, hminimum, hsign, if_pos (by omega)]
      exact congrArg ([(fd, 45), (fd, 50)] ++ ·) hput
  · obtain ⟨ds, hds, hput⟩ := putnbr_digits n.natAbs fd
    refine ⟨ds, hds, ?_⟩
    rw [putnbr_sign, putMinimum_of_ne hmin, hput, putSign, List.map_append]
    split <;> rfl

/-- For every `int` the two functions that write a number write what `ft_itoa` returns, on
the descriptor they are given, and `ft_atoi` reads the number back. -/
theorem putnbr_itoa (n : Int32) (fd : Int) :
    ftPutnbrFd n.toInt fd = (ftPutnbr n.toInt).map (Prod.mk fd) ∧
      ftItoa n.toInt = .ok (some (ftPutnbr n.toInt ++ [0])) ∧
      ∃ text : CString, text.bytes = ftPutnbr n.toInt ∧ ftAtoi text = .ok n.toInt := by
  obtain ⟨ds, hds, hput⟩ := putnbr_text n.toInt fd
  obtain ⟨ds₁, hds₁, hput₁⟩ := putnbr_text n.toInt 1
  obtain ⟨text, hitoa, ⟨ds₂, hds₂, htext⟩, hatoi⟩ := ftItoa_roundtrip n
  have hstdout : ftPutnbr n.toInt = text.bytes := by
    rw [ftPutnbr, hput₁, List.map_map, htext, digits_unique hds₁ hds₂]
    exact List.map_id _
  refine ⟨?_, ?_, text, hstdout.symm, hatoi⟩
  · rw [hput, hstdout, htext, digits_unique hds hds₂]
  · rw [hitoa, hstdout]

/-- The loop of `ft_sqrt`. A result `none` is a square that no `int` holds. -/
def sqrtLoop (nb : Int) (i : Nat) : Option Int :=
  if 2 ^ 31 ≤ i * i then none
  else if (i * i : Int) = nb ∨ 46340 < i then some (if 46340 < i then 0 else i)
  else if nb < i * i then some 0
  else sqrtLoop nb (i + 1)
termination_by 46341 - i
decreasing_by omega

def ftSqrt (nb : Int) : Option Int := sqrtLoop nb 0

def Root (nb r : Int) : Prop := 0 ≤ r ∧ r * r = nb ∨ r = 0 ∧ ∀ k : Int, k * k ≠ nb

/-- Before each test of the loop the smaller squares lie below the number. -/
theorem sqrtLoop_root (nb : Int) (i : Nat) (h : ∀ k < i, (k * k : Int) < nb) :
    if 46340 * 46340 < nb then sqrtLoop nb i = none
    else ∃ r, sqrtLoop nb i = some r ∧ Root nb r := by
  fun_induction sqrtLoop with
  | case1 i hbig =>
    have hlarge : 46340 < i := by
      by_contra hsmall
      have hsquare := Nat.mul_le_mul (not_lt.mp hsmall) (not_lt.mp hsmall)
      omega
    exact (if_pos (h 46340 hlarge)).mpr rfl
  | case2 i hfits hend =>
    have hsmall : ¬ 46340 < i := fun hlarge => by
      have hsquare := Nat.mul_le_mul (Nat.succ_le_of_lt hlarge) (Nat.succ_le_of_lt hlarge)
      omega
    have hroot : (i * i : Int) = nb := hend.resolve_right hsmall
    have hsquare := Nat.mul_le_mul (not_lt.mp hsmall) (not_lt.mp hsmall)
    rw [if_neg (by rw [← hroot]; exact_mod_cast not_lt.mpr hsquare)]
    exact ⟨i, by rw [if_neg hsmall], .inl ⟨Int.natCast_nonneg i, hroot⟩⟩
  | case3 i hfits hgo hover =>
    rw [not_or, not_lt] at hgo
    have hsquare := Nat.mul_le_mul hgo.2 hgo.2
    have hnone (k : Int) : k * k ≠ nb := fun hk => by
      have habs : (k.natAbs * k.natAbs : Int) = nb := by
        rw [← Int.natCast_mul, Int.natAbs_mul_self, hk]
      obtain hlt | hge := Nat.lt_or_ge k.natAbs i
      · exact absurd (h k.natAbs hlt) (by omega)
      · have hle : (i * i : Int) ≤ k.natAbs * k.natAbs := by
          exact_mod_cast Nat.mul_le_mul hge hge
        omega
    rw [if_neg (by zify at hsquare; omega)]
    exact ⟨0, rfl, .inr ⟨rfl, hnone⟩⟩
  | case4 i hfits hgo hunder ih =>
    apply ih
    intro k hk
    obtain hk | rfl := Nat.lt_succ_iff_lt_or_eq.mp hk
    · exact h k hk
    · exact lt_of_le_of_ne (not_lt.mp hunder) (not_or.mp hgo).1

/-- `ft_sqrt` finds the root of every square and returns 0 for all other numbers, up to the
largest square that an `int` holds. Beyond that it computes a square that overflows. -/
theorem sqrt_root (nb : Int) : (ftSqrt nb = none ↔ 46340 * 46340 < nb) ∧
    ∀ r, ftSqrt nb = some r → Root nb r := by
  have hloop := sqrtLoop_root nb 0 fun k hk => absurd hk (Nat.not_lt_zero k)
  rw [ftSqrt]
  split at hloop
  · next hlarge => exact ⟨iff_of_true hloop hlarge, fun r hr => by simp [hloop] at hr⟩
  · next hsmall =>
    obtain ⟨r, hr, hroot⟩ := hloop
    refine ⟨iff_of_false (by simp [hr]) hsmall, fun r' hr' => ?_⟩
    rw [← Option.some_inj.mp (hr.symm.trans hr')]
    exact hroot

end FtTraceroute.Integers

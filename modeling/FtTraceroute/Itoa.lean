import FtTraceroute.Strings
import FtTraceroute.Text
import FtTraceroute.Library.ByteBlock

namespace FtTraceroute.Itoa

open Library.Loops Library.ByteBlock Libft Inet Numbers Strings Text

theorem natAbs_tdiv_ten (n : Int) : (n.tdiv 10).natAbs = n.natAbs / 10 := Int.natAbs_tdiv n 10

def countLoop (n : Int) (cpt : Nat) : Nat :=
  if n = 0 then cpt else countLoop (n.tdiv 10) (cpt + 1)
termination_by n.natAbs
decreasing_by
  rw [natAbs_tdiv_ten]
  omega

def ftCountInteger (n : Int) : Nat := countLoop n (if n = 0 then 1 else 0)

def storeChar (ret : List UInt8) (i : Nat) (x : UInt8) : Except Fault (List UInt8) :=
  (poke i [x] ret).elim (.error .outOfBounds) .ok

def fillLoop (nb : Nat) (ret : List UInt8) : Nat → Except Fault (List UInt8)
  | 0 => .ok ret
  | cpt + 1 => storeChar ret cpt (digit nb) >>= fun ret => fillLoop (nb / 10) ret cpt

/-- The block that is returned, its last NUL included. The absolute value is a `long`, which
every `int` has one in. -/
def ftItoa (n : Int) : Except Fault (Option (List UInt8)) := do
  let cpt := ftCountInteger n + (if n < 0 then 1 else 0)
  match ← ftStrnew cpt with
  | none => pure none
  | some _ =>
    let ret ← fillLoop n.natAbs (List.replicate (cpt + 1) 0) cpt
    if n < 0 then some <$> storeChar ret 0 45 else pure (some ret)

/-- The last `k` decimal digits of `m`. -/
def digitsOf : Nat → Nat → List UInt8
  | 0, _ => []
  | k + 1, m => digitsOf k (m / 10) ++ [digit m]

/-- The decimal digits of `m`, without a leading zero unless `m` is 0. -/
structure Digits (m : Nat) (ds : List UInt8) : Prop where
  nonempty : ds ≠ []
  allDigits : ∀ c ∈ ds, isDigit c = true
  value_eq : value ds = m
  noLeadingZero : ds.head? = some 48 → ds = [48]

def Canonical (n : Int) (text : List UInt8) : Prop :=
  ∃ ds, Digits n.natAbs ds ∧ text = (if n < 0 then [45] else []) ++ ds

variable {k m cpt : Nat} {c : UInt8}

theorem length_digitsOf (k m : Nat) : (digitsOf k m).length = k := by
  induction k generalizing m with
  | zero => rfl
  | succ k ih => rw [digitsOf, List.length_append, ih, List.length_singleton]

theorem isDigit_digitsOf (h : c ∈ digitsOf k m) : isDigit c = true := by
  induction k generalizing m with
  | zero => cases h
  | succ k ih =>
    obtain h | h := List.mem_append.mp h
    · exact ih h
    · rw [List.mem_singleton.mp h]
      exact isDigit_digit m

theorem value_digitsOf (k m : Nat) : value (digitsOf k m) = m % 10 ^ k := by
  induction k generalizing m with
  | zero => rw [Nat.pow_zero, Nat.mod_one]; rfl
  | succ k ih =>
    rw [digitsOf, value_concat, ih, digit_toNat, Nat.pow_succ', Nat.mod_mul]
    omega

theorem digitsOf_succ (k m : Nat) : digitsOf (k + 1) m = digit (m / 10 ^ k) :: digitsOf k m := by
  induction k generalizing m with
  | zero => simp [digitsOf]
  | succ k ih => rw [digitsOf, ih, Nat.div_div_eq_div_mul, ← Nat.pow_succ', digitsOf,
      List.cons_append]

theorem countLoop_eq (n : Int) (cpt : Nat) :
    countLoop n cpt = cpt + (Nat.digits 10 n.natAbs).length := by
  fun_induction countLoop with
  | case1 => simp
  | case2 n cpt hn ih =>
    rw [ih, natAbs_tdiv_ten, Nat.digits_def' (by decide) (Int.natAbs_pos.mpr hn), List.length_cons]
    omega

theorem digits_digitsOf (hhigh : m < 10 ^ (k + 1)) (hlow : m ≠ 0 → 10 ^ k ≤ m)
    (hzero : m = 0 → k = 0) : Digits m (digitsOf (k + 1) m) where
  nonempty := by
    rw [digitsOf_succ]
    exact List.cons_ne_nil _ _
  allDigits _ hc := isDigit_digitsOf hc
  value_eq := by rw [value_digitsOf, Nat.mod_eq_of_lt hhigh]
  noLeadingZero hhead := by
    by_cases hm : m = 0
    · rw [hzero hm, hm]
      rfl
    · rw [digitsOf_succ, List.head?_cons, Option.some.injEq] at hhead
      have hfirst := digit_toNat (m / 10 ^ k)
      have hpos : 0 < m / 10 ^ k := Nat.div_pos (hlow hm) (by simp)
      have hten : m / 10 ^ k < 10 := by
        rw [Nat.div_lt_iff_lt_mul (by simp), ← Nat.pow_succ']
        exact hhigh
      rw [hhead, Nat.mod_eq_of_lt hten] at hfirst
      change 48 = _ at hfirst
      omega

theorem ftCountInteger_digits {n : Int} (hn : n.natAbs ≤ 2 ^ 31) : ∃ k ≤ 9,
    ftCountInteger n = k + 1 ∧ Digits n.natAbs (digitsOf (k + 1) n.natAbs) := by
  by_cases hzero : n = 0
  · refine ⟨0, Nat.zero_le 9, ?_, ?_⟩
    · rw [ftCountInteger, if_pos hzero, hzero, countLoop_eq]
      rfl
    · apply digits_digitsOf <;> simp [hzero]
  · have hpos : n.natAbs ≠ 0 := Int.natAbs_ne_zero.mpr hzero
    have hhigh : n.natAbs < 10 ^ (Nat.digits 10 n.natAbs).length :=
      Nat.lt_base_pow_length_digits (by decide)
    have hlow := Nat.base_pow_length_digits_le 10 n.natAbs (by decide) hpos
    have hcount : ftCountInteger n = (Nat.digits 10 n.natAbs).length := by
      rw [ftCountInteger, if_neg hzero, countLoop_eq, Nat.zero_add]
    cases hk : (Nat.digits 10 n.natAbs).length with
    | zero =>
      rw [hk] at hhigh
      omega
    | succ k =>
      rw [hk] at hhigh hlow hcount
      have hlow : 10 ^ k ≤ n.natAbs := by
        rw [Nat.pow_succ'] at hlow
        omega
      have hten : 10 ^ k < 10 ^ 10 := by omega
      have hk : k < 10 := (Nat.pow_lt_pow_iff_right (by decide)).mp hten
      exact ⟨k, by omega, hcount, digits_digitsOf hhigh (fun _ => hlow) fun h => absurd h hpos⟩

theorem storeChar_middle (front back : List UInt8) (y x : UInt8) :
    storeChar (front ++ y :: back) front.length x = .ok (front ++ x :: back) := by
  simp [storeChar, poke]

theorem fillLoop_eq (front back : List UInt8) (nb : Nat) :
    fillLoop nb (front ++ back) front.length = .ok (digitsOf front.length nb ++ back) := by
  induction front using List.reverseRecOn generalizing back nb with
  | nil => rfl
  | append_singleton front y ih =>
    rw [List.length_append, List.length_singleton, fillLoop, List.append_assoc,
      List.singleton_append, storeChar_middle, ok_bind, ih, digitsOf, List.append_assoc,
      List.singleton_append]

theorem fillLoop_new (nb cpt : Nat) :
    fillLoop nb (List.replicate (cpt + 1) 0) cpt = .ok (digitsOf cpt nb ++ [0]) := by
  have hfill := fillLoop_eq (List.replicate cpt 0) [0] nb
  rwa [← List.replicate_succ', List.length_replicate] at hfill

theorem ftItoa_eq {n : Int} (hn : n.natAbs ≤ 2 ^ 31) :
    ∃ ds, Digits n.natAbs ds ∧ ds.length ≤ 10 ∧
      ftItoa n = .ok (some ((if n < 0 then [45] else []) ++ ds ++ [0])) := by
  obtain ⟨k, hk, hcount, hdigits⟩ := ftCountInteger_digits hn
  refine ⟨digitsOf (k + 1) n.natAbs, hdigits, by rw [length_digitsOf]; omega, ?_⟩
  have hnew : ∀ cpt ≤ 11, ftStrnew cpt = .ok (some emptyString) := by
    intro cpt hcpt
    apply allocString_ok
    · exact Nat.succ_pos cpt
    · omega
  by_cases hneg : n < 0
  · have hfill := fillLoop_new n.natAbs (k + 2)
    have hsign (ds : List UInt8) (d : UInt8) : storeChar (d :: ds) 0 45 = .ok (45 :: ds) :=
      storeChar_middle [] ds d 45
    rw [ftItoa, hcount, if_pos hneg, hnew _ (by omega), ok_bind]
    simp only [if_pos hneg]
    rw [hfill, ok_bind, digitsOf_succ, List.cons_append, hsign]
    rfl
  · have hfill := fillLoop_new n.natAbs (k + 1)
    rw [ftItoa, hcount, if_neg hneg, hnew _ (by omega), ok_bind]
    simp only [if_neg hneg]
    rw [Nat.add_zero, hfill, ok_bind]
    rfl

end FtTraceroute.Itoa

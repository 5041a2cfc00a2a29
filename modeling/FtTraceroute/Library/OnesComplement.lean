import Mathlib

namespace FtTraceroute.Library.OnesComplement

def onesAdd (a b : Nat) : Nat := (a + b) % 65536 + (a + b) / 65536

def onesSum (ws : List Nat) : Nat := ws.foldl onesAdd 0

/-- The value modulo 65535 in which a one's complement sum ends: of the two
representations of zero it takes 65535, unless everything summed was zero. -/
def residue (n : Nat) : Nat := if n = 0 then 0 else (n - 1) % 65535 + 1

theorem residue_le (n : Nat) : residue n ≤ 65535 := by
  unfold residue
  split <;> omega

theorem residue_unique {n r : Nat} (hr : r ≤ 65535) (hz : r = 0 ↔ n = 0)
    (hm : r % 65535 = n % 65535) : r = residue n := by
  unfold residue
  split <;> omega

theorem residue_mod (n : Nat) : residue n % 65535 = n % 65535 := by
  unfold residue
  split <;> omega

theorem residue_eq_zero_iff (n : Nat) : residue n = 0 ↔ n = 0 := by
  unfold residue
  split <;> omega

theorem onesAdd_residue (n w : Nat) (hw : w < 65536) :
    onesAdd (residue n) w = residue (n + w) := by
  have hle := residue_le n
  have hmod := residue_mod n
  have hzero := residue_eq_zero_iff n
  unfold onesAdd
  apply residue_unique <;> omega

theorem onesSum_eq {ws : List Nat} (h : ∀ w ∈ ws, w < 65536) : onesSum ws = residue ws.sum := by
  suffices hgo : ∀ n, ws.foldl onesAdd (residue n) = residue (n + ws.sum) by
    simpa [onesSum, residue] using hgo 0
  induction ws with
  | nil => simp
  | cons w ws ih =>
    intro n
    rw [List.foldl_cons, onesAdd_residue n w (h w (by simp)), ih (fun v hv => h v (by simp [hv])),
      List.sum_cons, Nat.add_assoc]

theorem fold_fold {n s : Nat} (hn : n < 4294967296) (hs : s = n / 65536 + n % 65536) :
    (s + s / 65536) % 65536 = residue n := by
  have hsm : s % 65535 = n % 65535 := by omega
  obtain hlt | hge := Nat.lt_or_ge s 65536
  · have hd : s / 65536 = 0 := Nat.div_eq_of_lt hlt
    apply residue_unique <;> omega
  · have hle : s ≤ 131070 := by omega
    have hd : s / 65536 = 1 := by omega
    have hr : (s + 1) % 65536 = s - 65535 := by omega
    rw [hd, hr]
    apply residue_unique <;> omega

theorem residue_add_complement {n : Nat} (hn : n ≠ 0) :
    residue (n + (65535 - residue n)) = 65535 := by
  have hle := residue_le n
  have hmod := residue_mod n
  symm
  apply residue_unique <;> omega

/-- The 16-bit words of a byte string in network order, an odd last byte padded with zero. -/
def wordsBE : List UInt8 → List Nat
  | a :: b :: bs => (256 * a.toNat + b.toNat) :: wordsBE bs
  | [a] => [256 * a.toNat]
  | [] => []

/-- The same in the order of a little-endian host. -/
def wordsLE : List UInt8 → List Nat
  | a :: b :: bs => (a.toNat + 256 * b.toNat) :: wordsLE bs
  | [a] => [a.toNat]
  | [] => []

theorem wordsBE_lt (bs : List UInt8) : ∀ w ∈ wordsBE bs, w < 65536 := by
  induction bs using wordsBE.induct with
  | case1 a b bs ih =>
    have ha := a.toNat_lt
    have hb := b.toNat_lt
    simp only [wordsBE, List.mem_cons, forall_eq_or_imp]
    exact ⟨by omega, ih⟩
  | case2 a =>
    have ha := a.toNat_lt
    simp only [wordsBE, List.mem_singleton, forall_eq]
    omega
  | case3 => simp [wordsBE]

theorem sum_wordsLE_le (bs : List UInt8) : (wordsLE bs).sum ≤ 65535 * ((bs.length + 1) / 2) := by
  induction bs using wordsLE.induct with
  | case1 a b bs ih =>
    have ha := a.toNat_lt
    have hb := b.toNat_lt
    simp only [wordsLE, List.sum_cons, List.length_cons]
    omega
  | case2 a =>
    have ha := a.toNat_lt
    simp only [wordsLE, List.sum_cons, List.sum_nil, List.length_cons, List.length_nil]
    omega
  | case3 => simp [wordsLE]

/-- Swapping the bytes of every word multiplies the sum by 256 modulo 65535. -/
theorem sum_wordsBE_mod (bs : List UInt8) :
    (wordsBE bs).sum % 65535 = 256 * (wordsLE bs).sum % 65535 := by
  induction bs using wordsBE.induct with
  | case1 a b bs ih =>
    simp only [wordsBE, wordsLE, List.sum_cons]
    omega
  | case2 a =>
    simp [wordsBE, wordsLE]
  | case3 => rfl

theorem sum_wordsBE_eq_zero_iff (bs : List UInt8) :
    (wordsBE bs).sum = 0 ↔ (wordsLE bs).sum = 0 := by
  induction bs using wordsBE.induct with
  | case1 a b bs ih =>
    simp only [wordsBE, wordsLE, List.sum_cons]
    omega
  | case2 a => simp [wordsBE, wordsLE]
  | case3 => rfl

/-- The one's complement sum does not depend on the order of the bytes in a word, but
for the order of the bytes of the sum. -/
theorem onesSum_wordsBE (bs : List UInt8) : onesSum (wordsBE bs) =
    256 * (residue (wordsLE bs).sum % 256) + residue (wordsLE bs).sum / 256 := by
  rw [onesSum_eq (wordsBE_lt bs)]
  have hle := residue_le (wordsLE bs).sum
  have hmod := residue_mod (wordsLE bs).sum
  have hswap := sum_wordsBE_mod bs
  have hzero := sum_wordsBE_eq_zero_iff bs
  have hpos := residue_eq_zero_iff (wordsLE bs).sum
  symm
  apply residue_unique <;> omega

theorem onesSum_wordsBE_eq_top {bs : List UInt8} (h : residue (wordsLE bs).sum = 65535) :
    onesSum (wordsBE bs) = 65535 := by
  rw [onesSum_wordsBE, h]

/-- The Internet checksum: the complement of the one's complement sum of the words. -/
def internetChecksum (bs : List UInt8) : Nat := 65535 - onesSum (wordsBE bs)

def networkOrder (n : Nat) : List UInt8 := [UInt8.ofNat (n / 256), UInt8.ofNat (n % 256)]

end FtTraceroute.Library.OnesComplement

import FtTraceroute.Library.OnesComplement
import FtTraceroute.Send

namespace FtTraceroute.Checksum

open Library.OnesComplement Send

theorem sumWords_toNat (s : UInt32) (bs : Bytes) (h : s.toNat + (wordsLE bs).sum < 4294967296) :
    (sumWords s bs).toNat = s.toNat + (wordsLE bs).sum := by
  induction s, bs using sumWords.induct with
  | case1 s a b rest ih =>
    have ha := a.toNat_lt
    have hb := b.toNat_lt
    simp only [wordsLE, List.sum_cons] at h ⊢
    have hword : (s + (a.toUInt32 + 256 * b.toUInt32)).toNat =
        s.toNat + (a.toNat + 256 * b.toNat) := by
      simp only [UInt32.toNat_add, UInt32.toNat_mul, UInt8.toNat_toUInt32]
      change (s.toNat + (a.toNat + 256 * b.toNat % 2 ^ 32) % 2 ^ 32) % 2 ^ 32 = _
      omega
    rw [sumWords, ih (by rw [hword]; omega), hword]
    omega
  | case2 s a =>
    simp only [wordsLE, List.sum_cons, List.sum_nil] at h ⊢
    rw [sumWords, UInt32.toNat_add, UInt8.toNat_toUInt32]
    omega
  | case3 s => simp [sumWords, wordsLE]

/-- The first fold of `checksum`. -/
def fold (s : UInt32) : UInt32 := (s >>> 16) + (s &&& 0xFFFF)

/-- The second fold of `checksum`. -/
def carry (s : UInt32) : UInt32 := s + (s >>> 16)

theorem checksum_eq (bs : Bytes) :
    checksum bs = (~~~carry (fold (sumWords 0 bs))).toUInt16 := rfl

theorem shift_toNat (s : UInt32) : (s >>> 16).toNat = s.toNat / 65536 := by
  rw [UInt32.toNat_shiftRight, Nat.shiftRight_eq_div_pow]
  rfl

theorem fold_toNat (s : UInt32) : (fold s).toNat = s.toNat / 65536 + s.toNat % 65536 := by
  have hs := s.toNat_lt
  have hmask : s.toNat &&& 65535 = s.toNat % 65536 := Nat.and_two_pow_sub_one_eq_mod _ 16
  have hand : (s &&& 0xFFFF).toNat = s.toNat % 65536 := by
    rw [UInt32.toNat_and, ← hmask]
    rfl
  rw [fold, UInt32.toNat_add, shift_toNat, hand]
  omega

theorem carry_toNat (s : UInt32) (h : s.toNat ≤ 131070) :
    (carry s).toNat = s.toNat + s.toNat / 65536 := by
  rw [carry, UInt32.toNat_add, shift_toNat]
  omega

theorem low_not_toNat (s : UInt32) : (~~~s).toUInt16.toNat = 65535 - s.toNat % 65536 := by
  have hs := s.toNat_lt
  have hnot : (~~~s).toNat = 4294967295 - s.toNat := UInt32.toNat_not s
  rw [UInt32.toNat_toUInt16, hnot]
  omega

theorem sumWords_prefix {p bs : Bytes} (h : bs.length ≤ 131074) (hp : p <+: bs) :
    (sumWords 0 p).toNat = (wordsLE p).sum := by
  have hle := sum_wordsLE_le p
  have hlen := hp.length_le
  have hlt : (wordsLE p).sum < 4294967296 := by omega
  rw [sumWords_toNat 0 p (by simpa using hlt)]
  simp

/-- The code's checksum is the complement of the one's complement sum, for every
buffer whose word sum fits the 32-bit accumulator. -/
theorem checksum_toNat {bs : Bytes} (h : bs.length ≤ 131074) :
    (checksum bs).toNat = 65535 - residue (wordsLE bs).sum := by
  have hle := sum_wordsLE_le bs
  have hlt : (wordsLE bs).sum < 4294967296 := by omega
  have hsum := sumWords_prefix h List.prefix_rfl
  rw [checksum_eq, low_not_toNat, carry_toNat _ (by rw [fold_toNat, hsum]; omega), fold_toNat, hsum,
    fold_fold hlt rfl]

/-- No addition of `checksum` wraps: the accumulator holds the exact sum of the words
added so far, and the two folds add exactly. -/
structure Exact (bs : Bytes) : Prop where
  loop : ∀ p, p <+: bs → (sumWords 0 p).toNat = (wordsLE p).sum
  fold : (fold (sumWords 0 bs)).toNat = (wordsLE bs).sum / 65536 + (wordsLE bs).sum % 65536
  carry : (carry (Checksum.fold (sumWords 0 bs))).toNat =
    (Checksum.fold (sumWords 0 bs)).toNat + (Checksum.fold (sumWords 0 bs)).toNat / 65536

theorem exact_of_length {bs : Bytes} (h : bs.length ≤ 131074) : Exact bs := by
  have hsum := sumWords_prefix h List.prefix_rfl
  have hlt := (sumWords 0 bs).toNat_lt
  refine ⟨fun p hp => sumWords_prefix h hp, ?_, ?_⟩
  · rw [fold_toNat, hsum]
  · apply carry_toNat
    rw [fold_toNat]
    omega

theorem complement_bytes {q m : Nat} (hq : q ≤ 255) (hm : m ≤ 255) :
    (65535 - (256 * q + m)) % 256 = 255 - m ∧ (65535 - (256 * q + m)) / 256 = 255 - q := by
  omega

/-- On a little-endian host the value of `checksum` is stored as the Internet checksum
in network order, and nothing is lost on the way. -/
theorem checksum_internet {bs : Bytes} (h : bs.length ≤ 131074) :
    Exact bs ∧ short (checksum bs) = networkOrder (internetChecksum bs) := by
  refine ⟨exact_of_length h, ?_⟩
  have hle := residue_le (wordsLE bs).sum
  rw [short, networkOrder, internetChecksum, onesSum_wordsBE, checksum_toNat h]
  have hq : residue (wordsLE bs).sum / 256 ≤ 255 := by omega
  have hm : residue (wordsLE bs).sum % 256 ≤ 255 := by omega
  obtain ⟨hlow, hhigh⟩ := complement_bytes hq hm
  obtain ⟨hlow', hhigh'⟩ := complement_bytes hm hq
  rw [Nat.div_add_mod] at hlow hhigh
  rw [hlow, hhigh, hlow', hhigh']

theorem checksum_internet_odd : Exact [0x45, 0x00, 0xFF] ∧
    short (checksum [0x45, 0x00, 0xFF]) = networkOrder (internetChecksum [0x45, 0x00, 0xFF]) :=
  checksum_internet (by decide)

example : short (checksum [0x45, 0x00, 0xFF]) = [0xBB, 0xFE] := by decide

end FtTraceroute.Checksum

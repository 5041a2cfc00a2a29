import FtTraceroute.Libft

namespace FtTraceroute.Strings

open Library.Loops Libft

abbrev Str := Option CString

def newline : UInt8 := 10

theorem nulFree_nil : (0 : UInt8) ∉ [] := List.not_mem_nil

def emptyString : CString := ⟨[], nulFree_nil⟩

def take (n : Nat) (s : CString) : CString :=
  ⟨s.bytes.take n, fun h => s.nulFree (List.mem_of_mem_take h)⟩

def drop (n : Nat) (s : CString) : CString :=
  ⟨s.bytes.drop n, fun h => s.nulFree (List.mem_of_mem_drop h)⟩

def append (s t : CString) : CString :=
  ⟨s.bytes ++ t.bytes, fun h => (List.mem_append.mp h).elim s.nulFree t.nulFree⟩

/-- The conversion of an `int` or a `long` to `size_t`. -/
def toSize (n : Int) : Nat := (n % 2 ^ 64).toNat

/-- `malloc(size)`, and `s` with its NUL stored in the block. No block is larger than
`PTRDIFF_MAX`. -/
def allocString (size : Nat) (s : CString) : Except Fault Str :=
  if 2 ^ 63 ≤ size % 2 ^ 64 then .ok none
  else if size % 2 ^ 64 ≤ s.bytes.length then .error .outOfBounds
  else .ok (some s)

def ftStrlen : Str → Nat
  | none => 0
  | some s => s.bytes.length

/-- The rest of the string from the first `c` on. -/
def ftStrchr (s : Str) (c : UInt8) : Except Fault Str :=
  match s with
  | none => .error .nullPointer
  | some s =>
    if c = 0 then .ok (some emptyString)
    else
      let before := s.bytes.takeWhile (· ≠ c)
      .ok (if before.length < s.bytes.length then some (drop before.length s) else none)

def ftStrnew (size : Nat) : Except Fault Str := allocString (size + 1) emptyString

/-- The length is kept in an `int`. -/
def ftStrdup : Str → Except Fault Str
  | none => ftStrnew 1
  | some s => allocString (toSize (wrap 32 s.bytes.length) + 1) s

/-- The characters are counted with an `int`. -/
def ftStrndup (s : Str) (len : Nat) : Except Fault Str :=
  match s with
  | none => .ok none
  | some s =>
    if len = 0 then .ok none
    else do
      match ← ftStrnew len with
      | none => pure none
      | some _ =>
        if 2 ^ 31 ≤ min len s.bytes.length then .error .outOfBounds
        else pure (some (take len s))

def ftStrjoin : Str → Str → Except Fault Str
  | some s, some t => allocString (s.bytes.length + t.bytes.length + 1) (append s t)
  | _, _ => .ok none

def ftStrsub (s : Str) (start len : Nat) : Except Fault Str :=
  match s with
  | none => .ok none
  | some s =>
    if s.bytes.length < start then .error .outOfBounds
    else allocString (len + 1) (take len (drop start s))

variable {s t : CString} {size n : Nat}

theorem allocString_ok (hfits : s.bytes.length < size) (hsize : size < 2 ^ 63) :
    allocString size s = .ok (some s) := by
  have hmod : size % 2 ^ 64 = size := Nat.mod_eq_of_lt (lt_trans hsize (by decide))
  rw [allocString, hmod, if_neg (not_le.mpr hsize), if_neg (not_le.mpr hfits)]

theorem allocString_some (h : allocString size s = .ok (some t)) :
    t = s ∧ s.bytes.length < size % 2 ^ 64 ∧ size % 2 ^ 64 < 2 ^ 63 := by
  unfold allocString at h
  split at h
  · cases h
  · next hsize =>
    split at h
    · cases h
    · next hfits =>
      cases h
      exact ⟨rfl, not_le.mp hfits, not_le.mp hsize⟩

theorem wrap_of_fits {x : Int} (hlow : -(2 ^ 31) ≤ x) (hhigh : x < 2 ^ 31) : wrap 32 x = x := by
  rw [wrap, Int.bmod_eq_of_le]
  all_goals omega

theorem wrap_of_lt (h : n < 2 ^ 31) : wrap 32 (n : Int) = n := by
  apply wrap_of_fits
  all_goals omega

theorem toSize_natCast (h : n < 2 ^ 64) : toSize (n : Int) = n := by
  rw [toSize]
  omega

theorem ftStrnew_one : ftStrnew 1 = .ok (some emptyString) := by decide

theorem ftStrdup_ok (h : s.bytes.length < 2 ^ 31) : ftStrdup (some s) = .ok (some s) := by
  rw [ftStrdup, wrap_of_lt h, toSize_natCast (by omega)]
  exact allocString_ok (Nat.lt_succ_self _) (by omega)

theorem ftStrdup_short (h : ftStrdup (some s) = .ok (some t)) : t.bytes.length < 2 ^ 31 := by
  obtain ⟨rfl, hlength, hsize⟩ := allocString_some h
  have hlow : -(2 ^ 31) ≤ wrap 32 (t.bytes.length : Int) := Int.le_bmod (by decide)
  have hhigh : wrap 32 (t.bytes.length : Int) < 2 ^ 31 := Int.bmod_lt (by decide)
  simp only [toSize] at hlength hsize
  omega

theorem ftStrndup_zero (s : CString) : ftStrndup (some s) 0 = .ok none := rfl

theorem ftStrndup_ok (hlen : 0 < n) (hshort : n < 2 ^ 31) :
    ftStrndup (some s) n = .ok (some (take n s)) := by
  have hnew : ftStrnew n = .ok (some emptyString) := by
    apply allocString_ok
    · simp [emptyString]
    · omega
  have hmin : ¬ 2 ^ 31 ≤ min n s.bytes.length := by omega
  rw [ftStrndup, if_neg hlen.ne', hnew, ok_bind]
  exact if_neg hmin

theorem ftStrndup_short {s : Str} (h : ftStrndup s n = .ok (some t)) : t.bytes.length < 2 ^ 31 := by
  unfold ftStrndup at h
  split at h
  · cases h
  · next s =>
    split at h
    · cases h
    · obtain ⟨ret, -, h⟩ := bind_eq_ok.mp h
      split at h
      · cases h
      · split at h
        · cases h
        · next hmin =>
          cases h
          rw [take, List.length_take]
          exact not_le.mp hmin

theorem ftStrjoin_ok (h : s.bytes.length + t.bytes.length < 2 ^ 63 - 1) :
    ftStrjoin (some s) (some t) = .ok (some (append s t)) :=
  allocString_ok (by simp [append]) (by omega)

theorem ftStrsub_ok {start len : Nat} (hpart : start + len ≤ s.bytes.length)
    (hshort : s.bytes.length < 2 ^ 31) :
    ftStrsub (some s) start len = .ok (some (take len (drop start s))) := by
  rw [ftStrsub, if_neg (by omega)]
  apply allocString_ok
  · simp only [take, List.length_take]
    omega
  · omega

end FtTraceroute.Strings

import Mathlib
import FtTraceroute.Library.Loops

namespace FtTraceroute.Libft

open Library.Loops

/-- A C string: the bytes before the terminating NUL. -/
structure CString where
  bytes : List UInt8
  nulFree : (0 : UInt8) ∉ bytes
deriving DecidableEq

def ascii (s : String) : List UInt8 := s.toList.map fun c => UInt8.ofNat c.toNat

/-- What a function does when it leaves the defined behaviour of C. -/
inductive Fault
  | nullPointer
  | outOfBounds
deriving DecidableEq

/-- A result that needed an `int` index up to `i`. An index that overflows turns negative. -/
def within {α : Type} (i : Nat) (a : α) : Except Fault α :=
  if i < 2 ^ 31 then .ok a else .error .outOfBounds

def next (i : Nat) : Except Fault Nat := within (i + 1) (i + 1)

/-- The loop of `ft_strcmp` from index `i` on, and the difference where it stops. -/
def strcmpLoop (i : Nat) : List UInt8 → List UInt8 → Except Fault Int
  | a :: s, b :: t =>
    if a = b then next i >>= fun j => strcmpLoop j s t else .ok ((a.toNat : Int) - b.toNat)
  | a :: _, [] => .ok a.toNat
  | [], b :: _ => .ok (-b.toNat)
  | [], [] => .ok 0

def ftStrcmp (s t : CString) : Except Fault Int := strcmpLoop 0 s.bytes t.bytes

def isBlank (c : UInt8) : Bool := c == 9 || c == 12 || c == 11 || c == 10 || c == 13 || c == 32

def isDigit (c : UInt8) : Bool := 48 ≤ c && c ≤ 57

def isLetter (c : UInt8) : Bool := (97 ≤ c && c ≤ 122) || (65 ≤ c && c ≤ 90)

/-- The value a signed integer of `bits` bits holds, two's complement. -/
def wrap (bits : Nat) (n : Int) : Int := Int.bmod n (2 ^ bits)

def skipBlanks (i : Nat) : List UInt8 → Except Fault (Nat × List UInt8)
  | [] => .ok (i, [])
  | c :: cs => if isBlank c then next i >>= fun j => skipBlanks j cs else .ok (i, c :: cs)

def skipSign (i : Nat) (rest : List UInt8) : Except Fault (Nat × List UInt8) :=
  if rest.head? == some 43 || rest.head? == some 45 then next i >>= fun j => .ok (j, rest.tail)
  else .ok (i, rest)

/-- The digit loop of `ft_atoi`; its accumulator is a `long long`. -/
def readDigits (i : Nat) (r : Int) : List UInt8 → Except Fault Int
  | [] => .ok r
  | c :: cs =>
    if isDigit c then
      next i >>= fun j => readDigits j (wrap 64 (10 * r + ((c.toNat : Int) - 48))) cs
    else .ok r

def ftAtoi (s : CString) : Except Fault Int := do
  let (i, rest) ← skipBlanks 0 s.bytes
  let negative := rest.head? == some 45
  let (i, rest) ← skipSign i rest
  if rest.head?.any isLetter then pure 0
  else
    let r ← readDigits i 0 rest
    pure (wrap 32 (if negative then wrap 64 (-r) else r))

variable {α β : Type} {m n i : Nat} {a b : α} {xs ys : List UInt8}

theorem within_of_lt (h : n < 2 ^ 31) : within n a = .ok a := if_pos h

theorem within_of_le (h : 2 ^ 31 ≤ n) : within n a = .error .outOfBounds := if_neg (not_lt.mpr h)

theorem within_eq_ok : within n a = .ok b ↔ n < 2 ^ 31 ∧ a = b := by
  by_cases h : n < 2 ^ 31
  · rw [within_of_lt h]
    exact ⟨fun hab => ⟨h, Except.ok.inj hab⟩, fun hab => congrArg Except.ok hab.2⟩
  · rw [within, if_neg h]
    exact ⟨nofun, fun hab => absurd hab.1 h⟩

/-- Of two bounds on an index the later one is left. -/
theorem within_bind {b : β} {f : α → Except Fault β} (hmn : m ≤ n)
    (h : m < 2 ^ 31 → f a = within n b) : (within m a >>= f) = within n b := by
  by_cases hm : m < 2 ^ 31
  · rw [within_of_lt hm, ok_bind, h hm]
  · have hn : ¬ n < 2 ^ 31 := by omega
    rw [within, within, if_neg hm, if_neg hn]
    rfl

/-- The value of `ft_strcmp`. -/
def strcmpBytes : List UInt8 → List UInt8 → Int
  | a :: s, b :: t => if a = b then strcmpBytes s t else (a.toNat : Int) - b.toNat
  | a :: _, [] => a.toNat
  | [], b :: _ => -b.toNat
  | [], [] => 0

/-- How many characters two strings share from the start. -/
def agreement : List UInt8 → List UInt8 → Nat
  | a :: s, b :: t => if a = b then agreement s t + 1 else 0
  | _, _ => 0

theorem le_agreement : n ≤ agreement xs ys ↔
    n ≤ xs.length ∧ n ≤ ys.length ∧ xs.take n = ys.take n := by
  induction n generalizing xs ys with
  | zero => simp
  | succ n ih =>
    cases xs with
    | nil => simp [agreement]
    | cons x xs =>
      cases ys with
      | nil => simp [agreement]
      | cons y ys =>
        by_cases hxy : x = y
        · simp [agreement, hxy, ih]
        · simp [agreement, hxy]

theorem strcmpLoop_eq (hi : i < 2 ^ 31) :
    strcmpLoop i xs ys = within (i + agreement xs ys) (strcmpBytes xs ys) := by
  induction xs generalizing i ys with
  | nil => cases ys <;> exact (within_of_lt hi).symm
  | cons x xs ih =>
    cases ys with
    | nil => exact (within_of_lt hi).symm
    | cons y ys =>
      by_cases hxy : x = y
      · rw [strcmpLoop, strcmpBytes, agreement, if_pos hxy, if_pos hxy, if_pos hxy]
        apply within_bind (by omega)
        intro hnext
        rw [ih hnext, Nat.add_assoc, Nat.add_comm 1]
      · rw [strcmpLoop, strcmpBytes, agreement, if_neg hxy, if_neg hxy, if_neg hxy]
        exact (within_of_lt hi).symm

theorem ftStrcmp_eq (s t : CString) :
    ftStrcmp s t = within (agreement s.bytes t.bytes) (strcmpBytes s.bytes t.bytes) := by
  rw [ftStrcmp, strcmpLoop_eq (by decide), Nat.zero_add]

theorem strcmpBytes_eq_zero {s t : List UInt8} (hs : (0 : UInt8) ∉ s) (ht : (0 : UInt8) ∉ t) :
    strcmpBytes s t = 0 ↔ s = t := by
  induction s generalizing t with
  | nil =>
    cases t with
    | nil => simp [strcmpBytes]
    | cons b t =>
      have hb : b.toNat ≠ 0 := fun h => ht (by simp [show b = 0 from UInt8.toNat_inj.mp h])
      simp [strcmpBytes, hb]
  | cons a s ih =>
    cases t with
    | nil =>
      have ha : a.toNat ≠ 0 := fun h => hs (by simp [show a = 0 from UInt8.toNat_inj.mp h])
      simp [strcmpBytes, ha]
    | cons b t =>
      have ih' := @ih t (fun h => hs (List.mem_cons_of_mem _ h))
        (fun h => ht (List.mem_cons_of_mem _ h))
      by_cases hab : a = b
      · simp [strcmpBytes, hab, ih']
      · have hne : (a.toNat : Int) - b.toNat ≠ 0 := by
          have h : a.toNat ≠ b.toNat := fun h => hab (UInt8.toNat_inj.mp h)
          omega
        simp [strcmpBytes, hab, hne]

@[simp] theorem strcmpBytes_strings (s t : CString) : strcmpBytes s.bytes t.bytes = 0 ↔ s = t := by
  rw [strcmpBytes_eq_zero s.nulFree t.nulFree]
  cases s
  cases t
  simp

theorem ftStrcmp_ok {t : CString} (ht : t.bytes.length < 2 ^ 31) (s : CString) :
    ftStrcmp s t = .ok (strcmpBytes s.bytes t.bytes) := by
  have hle := (le_agreement.mp (le_refl (agreement s.bytes t.bytes))).2.1
  rw [ftStrcmp_eq, within_of_lt (lt_of_le_of_lt hle ht)]

theorem ftStrcmp_eq_zero {t : CString} (ht : t.bytes.length < 2 ^ 31) (s : CString) :
    ftStrcmp s t = .ok 0 ↔ s = t := by
  rw [ftStrcmp_ok ht, Except.ok.injEq, strcmpBytes_strings]

end FtTraceroute.Libft

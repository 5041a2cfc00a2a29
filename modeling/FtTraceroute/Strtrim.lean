import FtTraceroute.Strings
import FtTraceroute.Library.Scan

namespace FtTraceroute.Strtrim

open Library.Loops Library.Scan Libft Strings

def isSpace (c : UInt8) : Bool := c == 9 || c == 10 || c == 32

/-- The inner loop of `ft_check_trim_back`, with the string from `s[j]` on. The index at which
it finds the NUL behind `s[j]`. -/
def blankRun (j : Nat) : List UInt8 → Except Fault (Option Nat)
  | [] => .ok none
  | x :: rest =>
    if isSpace x then next j >>= fun k => if rest = [] then .ok (some j) else blankRun k rest
    else .ok none

/-- The loop of `ft_check_trim_back`, with the string from `s[i]` on. Its `cpt` is never read. -/
def trimBackLoop (len : Int) (i : Nat) : List UInt8 → Except Fault Int
  | [] => .ok len
  | x :: rest => do
    -- the test before the inner loop is the first test of that loop
    match ← blankRun i (x :: rest) with
    | some j => pure (wrap 32 (len - (j - i + 1)))
    | none => trimBackLoop len (← next i) rest

/-- The index that is passed starts again at 0. -/
def ftCheckTrimBack (s : CString) (len : Int) (_i : Nat) : Except Fault Int :=
  trimBackLoop len 0 s.bytes

def trimFrontLoop (s : CString) (len : Int) (i : Nat) : List UInt8 → Except Fault Int
  | [] => .ok 0
  | x :: rest =>
    if isSpace x then next i >>= fun j => trimFrontLoop s (wrap 32 (len - 1)) j rest
    else ftCheckTrimBack s len i

def ftCheckTrimFront (s : CString) : Except Fault Int :=
  trimFrontLoop s (wrap 32 (ftStrlen (some s))) 0 s.bytes

/-- The loop of `ft_strtrim`, with the string from `s[cpt]` on. It takes the NUL for one more
blank and reads on behind it. -/
def startLoop (cpt : Nat) : List UInt8 → Except Fault Nat
  | [] => .error .outOfBounds
  | x :: rest => if isSpace x then startLoop (cpt + 1) rest else .ok cpt

def ftStrtrim (s : Str) : Except Fault Str :=
  match s with
  | none => .ok none
  | some s => do
    let len ← ftCheckTrimFront s
    let cpt ← startLoop 0 s.bytes
    ftStrsub (some s) cpt (toSize len)

def Trims (s : CString) : Prop :=
  ∃ t, ftStrtrim (some s) = .ok (some t) ∧ t.bytes = trim isSpace s.bytes

variable {s : CString} {xs : List UInt8} {i j : Nat} {n : Int}

theorem blankRun_last (hne : xs ≠ []) (hxs : ∀ x ∈ xs, isSpace x = true) :
    blankRun j xs = within (j + xs.length) (some (j + xs.length - 1)) := by
  induction xs generalizing j with
  | nil => exact absurd rfl hne
  | cons x rest ih =>
    rw [blankRun, if_pos (hxs x List.mem_cons_self), add_length_cons]
    apply within_bind (by omega)
    intro hnext
    by_cases hrest : rest = []
    · rw [if_pos hrest, hrest]
      exact (within_of_lt hnext).symm
    · rw [if_neg hrest]
      exact ih hrest fun y hy => hxs y (List.mem_cons_of_mem x hy)

theorem blankRun_none (hj : j < 2 ^ 31) (hxs : ∃ x ∈ xs, isSpace x = false) :
    blankRun j xs = within (j + (xs.takeWhile isSpace).length) none := by
  induction xs generalizing j with
  | nil => simp at hxs
  | cons x rest ih =>
    cases hx : isSpace x with
    | false =>
      rw [blankRun, hx, List.takeWhile_cons_of_neg (by simp [hx])]
      exact (within_of_lt hj).symm
    | true =>
      have hrest := exists_rest hx hxs
      have hne : rest ≠ [] := by
        rintro rfl
        simp at hrest
      rw [blankRun, if_pos hx, add_length_takeWhile hx]
      apply within_bind (by omega)
      intro hnext
      rw [if_neg hne]
      exact ih hnext hrest

theorem wrap_sub (n d : Int) : wrap 32 (wrap 32 n - d) = wrap 32 (n - d) := Int.bmod_sub_bmod

theorem trimBackLoop_eq (hi : i < 2 ^ 31) : trimBackLoop (wrap 32 n) i xs =
    within (i + xs.length) (wrap 32 (n - (xs.rtakeWhile isSpace).length)) := by
  induction xs generalizing i with
  | nil =>
    rw [List.rtakeWhile_nil, List.length_nil, Int.natCast_zero, Int.sub_zero]
    exact (within_of_lt hi).symm
  | cons x rest ih =>
    rw [trimBackLoop]
    by_cases hstop : ∃ y ∈ x :: rest, isSpace y = false
    · have hrun := (List.takeWhile_sublist isSpace (l := x :: rest)).length_le
      rw [blankRun_none hi hstop]
      apply within_bind (by omega)
      intro hshort
      rw [add_length_cons]
      apply within_bind (by omega)
      intro hnext
      rw [ih hnext, rtakeWhile_cons hstop]
    · have hall : ∀ y ∈ x :: rest, isSpace y = true := by simpa using hstop
      rw [blankRun_last (by simp) hall]
      apply within_bind le_rfl
      intro hshort
      have hlast : ((i + (x :: rest).length - 1 : Nat) : Int) - i + 1 = (x :: rest).length := by
        rw [List.length_cons]
        omega
      rw [List.rtakeWhile_eq_self_iff.mpr hall, ← hlast, within_of_lt hshort, ← wrap_sub]
      rfl

theorem trimFrontLoop_eq (hxs : ∃ x ∈ xs, isSpace x = false)
    (hlength : i + xs.length ≤ s.bytes.length) :
    trimFrontLoop s (wrap 32 n) i xs = within s.bytes.length
      (wrap 32 (n - (xs.takeWhile isSpace).length - (s.bytes.rtakeWhile isSpace).length)) := by
  induction xs generalizing i n with
  | nil => simp at hxs
  | cons x rest ih =>
    rw [List.length_cons] at hlength
    cases hx : isSpace x with
    | false =>
      rw [trimFrontLoop, hx, List.takeWhile_cons_of_neg (by simp [hx]), List.length_nil,
        Int.natCast_zero, Int.sub_zero, ← Nat.zero_add s.bytes.length]
      exact trimBackLoop_eq (by decide)
    | true =>
      have hrest := exists_rest hx hxs
      have hrun : n - ((x :: rest).takeWhile isSpace).length =
          n - 1 - (rest.takeWhile isSpace).length := by
        rw [List.takeWhile_cons_of_pos hx, List.length_cons]
        omega
      rw [trimFrontLoop, if_pos hx, hrun]
      apply within_bind (by omega)
      intro hnext
      rw [wrap_sub]
      exact ih hrest (by omega)

theorem startLoop_eq (hxs : ∃ x ∈ xs, isSpace x = false) (cpt : Nat) :
    startLoop cpt xs = .ok (cpt + (xs.takeWhile isSpace).length) := by
  induction xs generalizing cpt with
  | nil => simp at hxs
  | cons x rest ih =>
    cases hx : isSpace x with
    | false =>
      rw [startLoop, hx, List.takeWhile_cons_of_neg (by simp [hx])]
      rfl
    | true =>
      have hrest := exists_rest hx hxs
      rw [startLoop, if_pos hx, ih hrest, List.takeWhile_cons_of_pos hx, List.length_cons]
      congr 1
      omega

/-- On blanks alone the start loop passes the NUL. -/
theorem startLoop_blanks (hxs : ∀ x ∈ xs, isSpace x = true) (cpt : Nat) :
    startLoop cpt xs = .error .outOfBounds := by
  induction xs generalizing cpt with
  | nil => rfl
  | cons x rest ih =>
    rw [startLoop, if_pos (hxs x List.mem_cons_self)]
    exact ih (fun y hy => hxs y (List.mem_cons_of_mem x hy)) (cpt + 1)

theorem ftCheckTrimFront_eq (hs : ∃ x ∈ s.bytes, isSpace x = false) :
    ftCheckTrimFront s = within s.bytes.length (wrap 32 (s.bytes.length -
      (s.bytes.takeWhile isSpace).length - (s.bytes.rtakeWhile isSpace).length)) := by
  apply trimFrontLoop_eq hs
  rw [Nat.zero_add]

theorem ftStrtrim_ok (hs : ∃ x ∈ s.bytes, isSpace x = false) (hshort : s.bytes.length < 2 ^ 31) :
    Trims s := by
  have hends := length_ends_le hs
  have hkept := trim_eq hs
  have hfront := ftCheckTrimFront_eq hs
  have hstart := startLoop_eq hs 0
  rw [Nat.zero_add] at hstart
  generalize (s.bytes.takeWhile isSpace).length = start at hends hkept hfront hstart
  generalize (s.bytes.rtakeWhile isSpace).length = stop at hends hkept hfront
  have hlen : (s.bytes.length : Int) - start - stop = (s.bytes.length - start - stop : Nat) := by
    omega
  rw [within_of_lt hshort, hlen, wrap_of_lt (by omega)] at hfront
  refine ⟨take (s.bytes.length - start - stop) (drop start s), ?_, hkept.symm⟩
  rw [ftStrtrim, hfront, ok_bind, hstart, ok_bind, toSize_natCast (by omega)]
  exact ftStrsub_ok (by omega) hshort

/-- `ft_strtrim` trims exactly the strings that have another character than its three blanks
and that an `int` can index. -/
theorem ftStrtrim_trims (s : CString) :
    Trims s ↔ (∃ x ∈ s.bytes, isSpace x = false) ∧ s.bytes.length < 2 ^ 31 := by
  constructor
  · rintro ⟨t, ht, -⟩
    obtain ⟨len, hfront, ht⟩ := bind_eq_ok.mp ht
    obtain ⟨start, hstart, -⟩ := bind_eq_ok.mp ht
    have hs : ∃ x ∈ s.bytes, isSpace x = false := by
      by_contra hall
      rw [startLoop_blanks (by simpa using hall)] at hstart
      cases hstart
    rw [ftCheckTrimFront_eq hs] at hfront
    exact ⟨hs, (within_eq_ok.mp hfront).1⟩
  · rintro ⟨hs, hshort⟩
    exact ftStrtrim_ok hs hshort

example : ftStrtrim (some ⟨ascii " a b\t\n", by decide⟩) = .ok (some ⟨ascii "a b", by decide⟩) := by
  decide

/-- The start loop leaves the empty string. -/
theorem emptyString_untrimmed :
    ftStrtrim (some emptyString) = .error .outOfBounds ∧ ¬ Trims emptyString := by
  have htrim : ftStrtrim (some emptyString) = .error .outOfBounds := by decide
  refine ⟨htrim, ?_⟩
  rintro ⟨t, ht, -⟩
  rw [htrim] at ht
  cases ht

end FtTraceroute.Strtrim

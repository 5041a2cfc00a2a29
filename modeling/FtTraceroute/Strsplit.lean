import FtTraceroute.Strings
import FtTraceroute.Library.Scan
import FtTraceroute.Library.Split

namespace FtTraceroute.Strsplit

open Library.Loops Library.Scan Library.Split Libft Strings

/-- A block of `char *`s: the bytes `malloc` was asked for and the stores into it, the last
one first. Nothing checks that a store lies inside the block. -/
structure PtrArray where
  size : Nat
  stores : List (Nat × Str)
deriving DecidableEq

def sizeofPointer : Nat := 8

namespace PtrArray

def store (ret : PtrArray) (i : Nat) (p : Str) : PtrArray :=
  { ret with stores := (i, p) :: ret.stores }

def read (ret : PtrArray) (i : Nat) : Option Str := ret.stores.lookup i

def Inside (ret : PtrArray) (i : Nat) : Prop := sizeofPointer * (i + 1) ≤ ret.size

def Holds (ret : PtrArray) (ws : List CString) : Prop := ∀ i ≤ ws.length, ret.read i = some ws[i]?

end PtrArray

def testWord (ret : PtrArray) (tst : Nat) : PtrArray :=
  if tst = 1 then (ret.store 0 none).store 1 none else ret

def lenLoop (c : UInt8) (j : Nat) : List UInt8 → Except Fault Nat
  | [] => .ok j
  | x :: rest => if x = c ∨ x = 0 then .ok j else next j >>= fun j => lenLoop c j rest

def ftLenword (str : CString) (i : Nat) (c : UInt8) : Except Fault Nat :=
  lenLoop c 0 (str.bytes.drop i)

/-- The test of `ft_countword` at `str[i]`. After the last character `str[i + 1]` is the NUL. -/
def startsWord (c : UInt8) (i : Nat) (x : UInt8) (rest : List UInt8) : Bool :=
  (i == 0 && x != c) || (x == c && (rest.headD 0 != c && rest.headD 0 != 0))

/-- The loop of `ft_countword`, with the string from `str[i]` on. -/
def countLoop (c : UInt8) (i cpt : Nat) : List UInt8 → Except Fault Nat
  | [] => .ok cpt
  | x :: rest => next i >>= fun j =>
    countLoop c j (if startsWord c i x rest then cpt + 1 else cpt) rest

def ftCountword (str : CString) (c : UInt8) : Except Fault Nat := countLoop c 0 0 str.bytes

/-- `while (s[k] == c) k++`, with the string from `s[k]` on. The NUL stops it unless it is
the separator. -/
def skipLoop (c : UInt8) (k : Nat) : List UInt8 → Except Fault Nat
  | [] => if c = 0 then .error .outOfBounds else .ok k
  | x :: rest => if x = c then skipLoop c (k + 1) rest else .ok k

/-- The loop of `ft_strsplit` while `left` words are missing. Its unsigned indices do not wrap:
`ft_countword` has walked through the string with an `int` before. -/
def splitLoop (s : CString) (c : UInt8) (left i k : Nat) (ret : PtrArray) :
    Except Fault PtrArray :=
  match left with
  | 0 => .ok ret
  | left + 1 => do
    let k ← skipLoop c k (s.bytes.drop k)
    let word ← ftStrsub (some s) k (← ftLenword s k c)
    splitLoop s c left (i + 1) (k + (← ftLenword s k c)) (ret.store i word)

def ftStrsplit (s : Str) (c : UInt8) : Except Fault (Option PtrArray) :=
  match s with
  | none => .ok none
  | some s => do
    let nw ← ftCountword s c
    let tst := if nw = 0 then 1 else 0
    -- the 1 is for the null pointer, but outside the product it is one byte
    let ret : PtrArray := ⟨sizeofPointer * (nw + tst) + 1, []⟩
    let ret ← splitLoop s c nw 0 0 (ret.store (nw + tst) none)
    pure (some (testWord ret tst))

def entries (i : Nat) : List CString → List (Nat × Str)
  | [] => []
  | w :: ws => entries (i + 1) ws ++ [(i, some w)]

/-- What `ft_strsplit` leaves in its block for the words `ws`. -/
def filled (ws : List CString) : PtrArray :=
  let tst := if ws.length = 0 then 1 else 0
  testWord ⟨sizeofPointer * (ws.length + tst) + 1, entries 0 ws ++ [(ws.length + tst, none)]⟩ tst

def Splits (s : CString) (c : UInt8) (ret : PtrArray) : Prop :=
  ∃ ws : List CString, ws.map CString.bytes = segments c s.bytes ∧ ret.Holds ws ∧
    ftCountword s c = .ok ws.length

/-- The array holds the segments, and every store lies inside the block. -/
def Meets (s : CString) (c : UInt8) : Prop :=
  ∃ ret, ftStrsplit (some s) c = .ok (some ret) ∧ Splits s c ret ∧ ∀ p ∈ ret.stores, ret.Inside p.1

structure Separator where
  char : UInt8
  notNul : char ≠ 0

variable {s : CString} {ws : List CString} {c : UInt8} {xs : List UInt8} {i j k cpt : Nat}

theorem lenLoop_eq (hj : j < 2 ^ 31) (hxs : (0 : UInt8) ∉ xs) :
    lenLoop c j xs =
      within (j + (xs.takeWhile (· ≠ c)).length) (j + (xs.takeWhile (· ≠ c)).length) := by
  induction xs generalizing j with
  | nil => exact (within_of_lt hj).symm
  | cons x rest ih =>
    have hx := List.ne_of_not_mem_cons hxs
    have hrest := List.not_mem_of_not_mem_cons hxs
    by_cases hc : x = c
    · rw [lenLoop, if_pos (.inl hc)]
      simpa [hc] using (within_of_lt hj).symm
    · have hlength := add_length_takeWhile (p := (· ≠ c)) (decide_eq_true hc) j rest
      rw [lenLoop, if_neg (by simp [hc, Ne.symm hx]), hlength]
      apply within_bind (by omega)
      intro hnext
      exact ih hnext hrest

theorem skipLoop_eq (hc : c ≠ 0) (xs : List UInt8) :
    skipLoop c k xs = .ok (k + (xs.takeWhile (· = c)).length) := by
  induction xs generalizing k with
  | nil => exact if_neg hc
  | cons x rest ih =>
    by_cases hx : x = c
    · rw [skipLoop, if_pos hx, ih]
      simp [hx]
      omega
    · rw [skipLoop, if_neg hx]
      simp [hx]

theorem segments_length (hxs : (0 : UInt8) ∉ xs) : (segments c xs).length =
    (if xs.headD 0 != c && xs.headD 0 != 0 then 1 else 0) +
      (segments c (xs.dropWhile (· ≠ c))).length := by
  cases xs with
  | nil => simp
  | cons x rest =>
    have hx := List.ne_of_not_mem_cons hxs
    by_cases hc : x = c
    · simp [hc]
    · rw [segments_cons hc]
      simp [hc, Ne.symm hx]
      omega

theorem countLoop_eq (hpos : 0 < i) (hi : i < 2 ^ 31) (hxs : (0 : UInt8) ∉ xs) :
    countLoop c i cpt xs =
      within (i + xs.length) (cpt + (segments c (xs.dropWhile (· ≠ c))).length) := by
  induction xs generalizing i cpt with
  | nil => exact (within_of_lt hi).symm
  | cons x rest ih =>
    have hrest := List.not_mem_of_not_mem_cons hxs
    rw [countLoop, add_length_cons]
    apply within_bind (by omega)
    intro hnext
    rw [ih (Nat.succ_pos i) hnext hrest]
    congr 1
    by_cases hc : x = c
    · have hcount := segments_length (c := c) hrest
      simp only [startsWord, hc, bne_self_eq_false, beq_self_eq_true, Bool.and_false,
        Bool.false_or, Bool.true_and, ne_eq, not_true_eq_false, decide_false, List.dropWhile_cons,
        Bool.false_eq_true, if_false, segments_cons_self, hcount]
      split <;> omega
    · simp [startsWord, hc, hpos.ne']

theorem ftCountword_eq (s : CString) (c : UInt8) :
    ftCountword s c = within s.bytes.length (segments c s.bytes).length := by
  obtain ⟨xs, hxs⟩ := s
  cases xs with
  | nil => rfl
  | cons x rest =>
    have hx := List.ne_of_not_mem_cons hxs
    have hrest := List.not_mem_of_not_mem_cons hxs
    have hcount := segments_length (c := c) hrest
    rw [ftCountword, countLoop]
    apply within_bind (by simp)
    intro hnext
    rw [countLoop_eq Nat.one_pos hnext hrest, List.length_cons, Nat.add_comm 1]
    congr 1
    by_cases hc : x = c
    · simp only [startsWord, hc, bne_self_eq_false, beq_self_eq_true, Bool.and_false,
        Bool.false_or, Bool.true_and, segments_cons_self, hcount]
    · rw [segments_cons hc]
      simp [startsWord, hc, Nat.add_comm]

theorem mem_entries {p : Nat × Str} (h : p ∈ entries i ws) : i ≤ p.1 ∧ p.1 < i + ws.length := by
  induction ws generalizing i with
  | nil => cases h
  | cons w ws ih =>
    rw [List.length_cons]
    obtain h | h := List.mem_append.mp h
    · obtain ⟨hlow, hhigh⟩ := ih h
      omega
    · cases List.mem_singleton.mp h
      exact ⟨le_rfl, by omega⟩

theorem lookup_entries_other {l : List (Nat × Str)} (h : j < i ∨ i + ws.length ≤ j) :
    (entries i ws ++ l).lookup j = l.lookup j := by
  have hnone : (entries i ws).lookup j = none := by
    rw [List.lookup_eq_none_iff]
    intro p hp
    obtain ⟨hlow, hhigh⟩ := mem_entries hp
    rw [bne_iff_ne]
    omega
  rw [List.lookup_append, hnone, Option.none_or]

theorem lookup_entries {l : List (Nat × Str)} (h : j < ws.length) :
    (entries i ws ++ l).lookup (i + j) = some ws[j]? := by
  induction ws generalizing i j l with
  | nil => cases h
  | cons w ws ih =>
    rw [entries, List.append_assoc]
    cases j with
    | zero =>
      rw [lookup_entries_other (by omega)]
      simp
    | succ j =>
      rw [← Nat.add_assoc, Nat.add_right_comm, ih (by simpa using h), List.getElem?_cons_succ]

theorem ftLenword_eq (hshort : s.bytes.length < 2 ^ 31) (k : Nat) (c : UInt8) :
    ftLenword s k c = .ok ((s.bytes.drop k).takeWhile (· ≠ c)).length := by
  have hword := (List.takeWhile_sublist (· ≠ c) (l := s.bytes.drop k)).length_le
  have hrest := List.length_drop (i := k) (l := s.bytes)
  have hnul : (0 : UInt8) ∉ s.bytes.drop k := (drop k s).nulFree
  rw [ftLenword, lenLoop_eq (by decide) hnul, Nat.zero_add]
  apply within_of_lt
  omega

theorem word_step (hc : c ≠ 0) (hshort : s.bytes.length < 2 ^ 31)
    (hne : segments c (s.bytes.drop k) ≠ []) :
    ∃ m len, skipLoop c k (s.bytes.drop k) = .ok m ∧ ftLenword s m c = .ok len ∧
      m + len ≤ s.bytes.length ∧ segments c (s.bytes.drop k) =
        (take len (drop m s)).bytes :: segments c (s.bytes.drop (m + len)) := by
  have hskip := skipLoop_eq (k := k) hc (s.bytes.drop k)
  have hsegments := segments_dropWhile c (s.bytes.drop k)
  have hhead := List.head?_dropWhile_not (· = c) (s.bytes.drop k)
  rw [← drop_length_takeWhile, List.drop_drop] at hsegments hhead
  generalize k + ((s.bytes.drop k).takeWhile (· = c)).length = m at hskip hsegments hhead
  have hlen := ftLenword_eq hshort m c
  have hle := (List.takeWhile_sublist (· ≠ c) (l := s.bytes.drop m)).length_le
  refine ⟨m, _, hskip, hlen, ?_⟩
  cases hrest : s.bytes.drop m with
  | nil =>
    rw [← hsegments, hrest] at hne
    exact absurd segments_nil hne
  | cons x rest =>
    have hx : x ≠ c := by simpa [hrest] using hhead
    have hm : 0 < (s.bytes.drop m).length := by simp [hrest]
    have htake := take_length_takeWhile (· ≠ c) (s.bytes.drop m)
    rw [← hsegments, hrest, segments_cons hx, ← hrest, ← drop_length_takeWhile, List.drop_drop]
    rw [List.length_drop] at hle hm
    exact ⟨by omega, congrArg (· :: _) htake.symm⟩

theorem splitLoop_eq (hc : c ≠ 0) (hshort : s.bytes.length < 2 ^ 31) (k i : Nat) (ret : PtrArray) :
    ∃ ws : List CString, ws.map CString.bytes = segments c (s.bytes.drop k) ∧
      splitLoop s c ws.length i k ret = .ok { ret with stores := entries i ws ++ ret.stores } := by
  induction hn : (segments c (s.bytes.drop k)).length generalizing k i ret with
  | zero => exact ⟨[], (List.length_eq_zero_iff.mp hn).symm, rfl⟩
  | succ n ih =>
    have hne : segments c (s.bytes.drop k) ≠ [] := List.ne_nil_of_length_eq_add_one hn
    obtain ⟨m, len, hskip, hlen, hle, hsegments⟩ := word_step hc hshort hne
    rw [hsegments, List.length_cons] at hn
    obtain ⟨ws, hws, hloop⟩ := ih (m + len) (i + 1) (ret.store i (take len (drop m s)))
      (Nat.succ.inj hn)
    refine ⟨take len (drop m s) :: ws, by rw [hsegments, List.map_cons, hws], ?_⟩
    rw [List.length_cons, splitLoop, hskip, ok_bind, hlen, ok_bind, ftStrsub_ok hle hshort,
      ok_bind, ok_bind, hloop]
    simp [PtrArray.store, entries]

theorem filled_cons (w : CString) (ws : List CString) : filled (w :: ws) =
    ⟨8 * (w :: ws).length + 1, entries 0 (w :: ws) ++ [((w :: ws).length, none)]⟩ := rfl

theorem filled_holds (ws : List CString) : (filled ws).Holds ws := by
  intro i hi
  cases ws with
  | nil =>
    obtain rfl : i = 0 := Nat.le_zero.mp hi
    rfl
  | cons w ws =>
    rw [PtrArray.read, filled_cons]
    obtain hlt | rfl := Nat.lt_or_eq_of_le hi
    · have hread := lookup_entries (i := 0) (l := [((w :: ws).length, none)]) hlt
      rwa [Nat.zero_add] at hread
    · rw [lookup_entries_other (.inr (Nat.zero_add _).le)]
      simp

/-- The null pointer at the end is the one store that leaves the block. -/
theorem filled_outside {p : Nat × Str} (hp : p ∈ (filled ws).stores) :
    ¬ (filled ws).Inside p.1 ↔ p.1 = max 1 ws.length := by
  cases ws with
  | nil =>
    have hstores : p ∈ [(1, (none : Str)), (0, none), (1, none)] := hp
    have hsize : (filled []).size = 9 := rfl
    rw [PtrArray.Inside, hsize, sizeofPointer]
    simp only [List.mem_cons, List.not_mem_nil, or_false] at hstores
    obtain rfl | rfl | rfl := hstores
    all_goals decide
  | cons w ws =>
    have hmax : max 1 (w :: ws).length = (w :: ws).length := by simp
    rw [filled_cons] at hp
    have hin : p.1 ≤ (w :: ws).length := by
      obtain h | h := List.mem_append.mp hp
      · obtain ⟨-, hhigh⟩ := mem_entries h
        omega
      · rw [List.mem_singleton.mp h]
    rw [PtrArray.Inside, filled_cons, hmax, sizeofPointer]
    dsimp only
    omega

theorem terminator_mem (ws : List CString) : (max 1 ws.length, none) ∈ (filled ws).stores := by
  cases ws with
  | nil => exact List.mem_cons_self
  | cons w ws =>
    have hmax : max 1 (w :: ws).length = (w :: ws).length := by simp
    rw [hmax, filled_cons]
    exact List.mem_append_right _ List.mem_cons_self

theorem ftStrsplit_eq (hc : c ≠ 0) (hshort : s.bytes.length < 2 ^ 31) :
    ∃ ws : List CString, ws.map CString.bytes = segments c s.bytes ∧
      ftStrsplit (some s) c = .ok (some (filled ws)) := by
  let nw := (segments c s.bytes).length
  let tst := if nw = 0 then 1 else 0
  let ret : PtrArray := ⟨sizeofPointer * (nw + tst) + 1, []⟩
  obtain ⟨ws, hws, hloop⟩ := splitLoop_eq hc hshort 0 0 (ret.store (nw + tst) none)
  rw [List.drop_zero] at hws
  have hnw : nw = ws.length := by
    rw [← List.length_map CString.bytes, hws]
  refine ⟨ws, hws, ?_⟩
  have hcount : ftCountword s c = .ok nw := (ftCountword_eq s c).trans (within_of_lt hshort)
  rw [ftStrsplit, hcount, ok_bind]
  rw [← hnw] at hloop
  simp only [hloop, ok_bind, ret, tst]
  rw [filled, ← hnw]
  rfl

theorem ftStrsplit_short {ret : PtrArray} (h : ftStrsplit (some s) c = .ok (some ret)) :
    s.bytes.length < 2 ^ 31 := by
  obtain ⟨nw, hnw, -⟩ := bind_eq_ok.mp h
  rw [ftCountword_eq] at hnw
  exact (within_eq_ok.mp hnw).1

theorem ftStrsplit_splits (hc : c ≠ 0) (hshort : s.bytes.length < 2 ^ 31) :
    ∃ ret, ftStrsplit (some s) c = .ok (some ret) ∧ Splits s c ret ∧
      ∀ p ∈ ret.stores, ¬ ret.Inside p.1 ↔ p.1 = max 1 (segments c s.bytes).length := by
  obtain ⟨ws, hws, hsplit⟩ := ftStrsplit_eq hc hshort
  have hlength : (segments c s.bytes).length = ws.length := by
    rw [← hws, List.length_map]
  refine ⟨filled ws, hsplit, ⟨ws, hws, filled_holds ws, ?_⟩, ?_⟩
  · rw [ftCountword_eq, within_of_lt hshort, hlength]
  · intro p hp
    rw [hlength]
    exact filled_outside hp

/-- No string is split inside the block that was allocated for it. Every one that an `int` can
index is split otherwise as it should be: of all stores only that of the last null pointer
leaves the block. -/
theorem ftStrsplit_overruns (s : CString) (c : Separator) :
    ¬ Meets s c.char ∧
      ((∃ ret, ftStrsplit (some s) c.char = .ok (some ret) ∧ Splits s c.char ret ∧
        ∀ p ∈ ret.stores, ¬ ret.Inside p.1 ↔ p.1 = max 1 (segments c.char s.bytes).length) ↔
        s.bytes.length < 2 ^ 31) := by
  constructor
  · rintro ⟨ret, hret, -, hinside⟩
    obtain ⟨ws, -, hsplit⟩ := ftStrsplit_eq c.notNul (ftStrsplit_short hret)
    rw [hsplit] at hret
    cases hret
    have hmem := terminator_mem ws
    exact (filled_outside hmem).mpr rfl (hinside _ hmem)
  · constructor
    · rintro ⟨ret, hret, -⟩
      exact ftStrsplit_short hret
    · exact ftStrsplit_splits c.notNul

def twoWords : CString := ⟨ascii "a b", by decide⟩

def space : Separator := ⟨32, by decide⟩

/-- 17 bytes are allocated, and the null pointer is stored into bytes 16 to 23. -/
theorem twoWords_overruns : ftStrsplit (some twoWords) space.char =
    .ok (some ⟨17, [(1, some ⟨ascii "b", by decide⟩), (0, some ⟨ascii "a", by decide⟩),
      (2, none)]⟩) ∧ ¬ Meets twoWords space.char := by
  have hsplit : ftStrsplit (some twoWords) space.char =
      .ok (some ⟨17, [(1, some ⟨ascii "b", by decide⟩), (0, some ⟨ascii "a", by decide⟩),
        (2, none)]⟩) := by decide
  refine ⟨hsplit, ?_⟩
  rintro ⟨ret, hret, -, hinside⟩
  rw [hsplit] at hret
  cases hret
  have hstore : sizeofPointer * (2 + 1) ≤ 17 := hinside (2, none) (by decide)
  exact absurd hstore (by decide)

end FtTraceroute.Strsplit

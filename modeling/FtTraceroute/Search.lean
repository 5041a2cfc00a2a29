import FtTraceroute.Library.Occurs
import FtTraceroute.Strings

namespace FtTraceroute.Search

open Library.Loops Library.Occurs Libft Strings

/-- `it_works` of `ft_strstr`: `hs[k]` and `nd[j]` are the heads of what is left of the
two strings, the second one not empty. -/
def itWorks : List UInt8 → List UInt8 → Nat → Except Fault Bool
  | c :: hs, d :: nd, k =>
    if c = d then
      if nd = [] then .ok true else next k >>= itWorks hs nd
    else .ok false
  | _, _, _ => .ok false

/-- The test at index `i` of `ft_strstr`, with `hs` left from there on. -/
def testHere (nd hs : List UInt8) (i : Nat) : Except Fault Bool :=
  if hs.head? = nd.head? then itWorks hs nd i else .ok false

def strstrLoop (nd : List UInt8) : List UInt8 → Nat → Except Fault (Option Nat)
  | [], _ => .ok none
  | c :: hs, i => do
    let found ← testHere nd (c :: hs) i
    if found then pure (some i) else next i >>= strstrLoop nd hs

/-- `ft_strstr`. A pointer into `hs` is its distance from `hs`. -/
def ftStrstr (hs nd : CString) : Except Fault (Option Nat) :=
  if nd.bytes = [] then .ok (some 0) else strstrLoop nd.bytes hs.bytes 0

/-- `does_it_work` of `ft_strnstr`, with `left` characters from `hs[k]` on before `hs[len]`. -/
def doesItWork : Nat → List UInt8 → List UInt8 → Bool
  | left + 1, c :: hs, d :: nd => c = d && (nd = [] || doesItWork left hs nd)
  | _, _, _ => false

/-- The test at index `i` of `ft_strnstr`, a `size_t` that is handed on as an `int`. -/
def ntestHere (nd hs : List UInt8) (len i : Nat) : Except Fault Bool :=
  if hs.head? = nd.head? then within i (doesItWork (len - i) hs nd) else .ok false

def strnstrLoop (nd : List UInt8) (len : Nat) : List UInt8 → Nat → Except Fault (Option Nat)
  | [], _ => .ok none
  | c :: hs, i =>
    if i ≤ len then do
      let found ← ntestHere nd (c :: hs) len i
      if found then pure (some i) else strnstrLoop nd len hs (i + 1)
    else .ok none

def ftStrnstr (hs nd : CString) (len : Nat) : Except Fault (Option Nat) :=
  if nd.bytes = [] then .ok (some 0) else strnstrLoop nd.bytes len hs.bytes 0

def charValue (c : UInt8) : Int := wrap 8 c.toNat

/-- The second loop of `ft_strrchr`, with `cpt + 1` characters left to be looked at. -/
def strrchrLoop (s : List UInt8) (c : Int) : Nat → Option Nat
  | 0 => none
  | cpt + 1 => if charValue (s.getD cpt 0) = c then some cpt else strrchrLoop s c cpt

/-- `ft_strrchr`. The NUL is looked at first. -/
def ftStrrchr (s : CString) (c : Int) : Except Fault (Option Nat) :=
  within (s.bytes.length + 1) (strrchrLoop s.bytes c (s.bytes.length + 1))

variable {hs nd : List UInt8} {c : UInt8} {s t : CString} {i k len : Nat}

theorem next_of_lt (h : k + 1 < 2 ^ 31) : next k = .ok (k + 1) := within_of_lt h

theorem itWorks_eq (hnd : nd ≠ []) (h : k + hs.length < 2 ^ 31) :
    itWorks hs nd k = .ok (nd.isPrefixOf hs) := by
  induction hs generalizing nd k with
  | nil =>
    obtain ⟨d, nd, rfl⟩ := List.exists_cons_of_ne_nil hnd
    rfl
  | cons c hs ih =>
    obtain ⟨d, nd, rfl⟩ := List.exists_cons_of_ne_nil hnd
    rw [List.length_cons] at h
    rw [itWorks, List.isPrefixOf_cons_cons]
    by_cases hcd : c = d
    · rw [if_pos hcd]
      by_cases hend : nd = []
      · simp [hend, hcd]
      · rw [if_neg hend, next_of_lt (by omega), ok_bind, ih hend (by omega)]
        simp [hcd]
    · rw [if_neg hcd]
      simp [Ne.symm hcd]

/-- The first character decides nothing that the rest of the test would not. -/
theorem head_isPrefixOf (hnd : nd ≠ []) (h : hs.head? ≠ nd.head?) : nd.isPrefixOf hs = false := by
  obtain ⟨d, nd, rfl⟩ := List.exists_cons_of_ne_nil hnd
  cases hs with
  | nil => rfl
  | cons c hs =>
    rw [List.isPrefixOf_cons_cons]
    simp only [List.head?_cons, ne_eq, Option.some_inj] at h
    simp [Ne.symm h]

theorem shift_found (i : Nat) (found : Option Nat) :
    found.map (i + 1 + ·) = (found.map (· + 1)).map (i + ·) := by
  rw [Option.map_map]
  congr 1
  funext j
  simp only [Function.comp_apply]
  omega

theorem testHere_eq (hnd : nd ≠ []) (h : i + hs.length < 2 ^ 31) :
    testHere nd hs i = .ok (nd.isPrefixOf hs) := by
  rw [testHere]
  split
  · exact itWorks_eq hnd h
  · next hhead => rw [head_isPrefixOf hnd hhead]

theorem strstrLoop_eq (hnd : nd ≠ []) (h : i + hs.length < 2 ^ 31) :
    strstrLoop nd hs i = .ok ((find nd hs).map (i + ·)) := by
  induction hs generalizing i with
  | nil => rw [strstrLoop, find, if_neg hnd, Option.map_none]
  | cons c hs ih =>
    rw [strstrLoop, testHere_eq hnd h, ok_bind, find]
    rw [List.length_cons] at h
    split
    · rfl
    · rw [next_of_lt (by omega), ok_bind, ih (by omega), shift_found]

theorem ftStrstr_eq (h : s.bytes.length < 2 ^ 31) :
    ftStrstr s t = .ok (find t.bytes s.bytes) := by
  rw [ftStrstr]
  split
  · next hnd =>
    rw [hnd, find_eq_some_iff.mpr (first_zero.mpr List.nil_prefix)]
  · next hnd =>
    rw [strstrLoop_eq hnd (by omega)]
    simp

theorem doesItWork_eq (hnd : nd ≠ []) (k : Nat) (hs : List UInt8) :
    doesItWork k hs nd = nd.isPrefixOf (hs.take k) := by
  induction k generalizing hs nd with
  | zero =>
    obtain ⟨d, nd, rfl⟩ := List.exists_cons_of_ne_nil hnd
    rfl
  | succ k ih =>
    obtain ⟨d, nd, rfl⟩ := List.exists_cons_of_ne_nil hnd
    cases hs with
    | nil => rfl
    | cons c hs =>
      rw [doesItWork, List.take_succ_cons, List.isPrefixOf_cons_cons]
      by_cases hend : nd = []
      · simp [hend, Eq.comm, Bool.beq_eq_decide_eq]
      · rw [ih hend]
        by_cases hcd : c = d
        · simp [hcd, hend]
        · simp [hcd, Ne.symm hcd]

theorem ntestHere_eq (hnd : nd ≠ []) (h : i < 2 ^ 31) :
    ntestHere nd hs len i = .ok (nd.isPrefixOf (hs.take (len - i))) := by
  rw [ntestHere]
  split
  · rw [within_of_lt h, doesItWork_eq hnd]
  · next hhead =>
    rw [head_isPrefixOf hnd]
    rw [List.head?_take]
    split
    · exact fun h => hnd (List.head?_eq_none_iff.mp h.symm)
    · exact hhead

theorem strnstrLoop_eq (hnd : nd ≠ []) (h : i + hs.length < 2 ^ 31) :
    strnstrLoop nd len hs i = .ok ((find nd (hs.take (len - i))).map (i + ·)) := by
  induction hs generalizing i with
  | nil => rw [strnstrLoop, List.take_nil, find, if_neg hnd, Option.map_none]
  | cons c hs ih =>
    rw [List.length_cons] at h
    have hnext := ih (i := i + 1) (by omega)
    have hempty : find nd [] = none := if_neg hnd
    rw [strnstrLoop, ntestHere_eq hnd (by omega), ok_bind, hnext]
    cases hleft : len - i with
    | zero =>
      have hafter : len - (i + 1) = 0 := by omega
      obtain ⟨d, nd, rfl⟩ := List.exists_cons_of_ne_nil hnd
      simp [hafter, hempty]
    | succ k =>
      have hafter : len - (i + 1) = k := by omega
      rw [if_pos (by omega), List.take_succ_cons, find, hafter, shift_found]
      split <;> rfl

theorem ftStrnstr_eq (h : s.bytes.length < 2 ^ 31) (len : Nat) :
    ftStrnstr s t len = .ok (find t.bytes (s.bytes.take len)) := by
  rw [ftStrnstr]
  split
  · next hnd =>
    rw [hnd, find_eq_some_iff.mpr (first_zero.mpr List.nil_prefix)]
  · next hnd =>
    rw [strnstrLoop_eq hnd (by omega)]
    simp

/-- `ft_strstr` returns the first place of the second string in the first one, and
`ft_strnstr` the first one that lies wholly within `len` characters. Without such a place
they return `NULL`. -/
theorem strstr_first (h : s.bytes.length < 2 ^ 31) (t : CString) (len : Nat) :
    ∃ found nfound, ftStrstr s t = .ok found ∧ ftStrnstr s t len = .ok nfound ∧
      (∀ i, found = some i ↔ First t.bytes s.bytes i) ∧
      (found = none ↔ ¬ t.bytes <:+: s.bytes) ∧
      (∀ i, nfound = some i ↔ First t.bytes (s.bytes.take len) i) ∧
      (nfound = none ↔ ¬ t.bytes <:+: s.bytes.take len) :=
  ⟨_, _, ftStrstr_eq h, ftStrnstr_eq h len, fun _ => find_eq_some_iff, find_eq_none_iff,
    fun _ => find_eq_some_iff, find_eq_none_iff⟩

def haystack : CString := ⟨ascii "aabaab", by decide⟩

def needle : CString := ⟨ascii "aab", by decide⟩

theorem strstr_first_haystack :
    ∃ found nfound, ftStrstr haystack needle = .ok found ∧ ftStrnstr haystack needle 2 = .ok nfound ∧
      (∀ i, found = some i ↔ First needle.bytes haystack.bytes i) ∧
      (found = none ↔ ¬ needle.bytes <:+: haystack.bytes) ∧
      (∀ i, nfound = some i ↔ First needle.bytes (haystack.bytes.take 2) i) ∧
      (nfound = none ↔ ¬ needle.bytes <:+: haystack.bytes.take 2) :=
  strstr_first (by decide) needle 2

theorem strrchrLoop_eq_some_iff {s : List UInt8} {c : Int} {n i : Nat} :
    strrchrLoop s c n = some i ↔
      i < n ∧ charValue (s.getD i 0) = c ∧ ∀ j < n, i < j → charValue (s.getD j 0) ≠ c := by
  induction n with
  | zero => simp [strrchrLoop]
  | succ n ih =>
    rw [strrchrLoop]
    split
    · next hn =>
      rw [Option.some_inj]
      constructor
      · rintro rfl
        exact ⟨Nat.lt_succ_self n, hn, fun j hj hlt => absurd hj (by omega)⟩
      · rintro ⟨hlt, -, hafter⟩
        by_contra hne
        exact hafter n (Nat.lt_succ_self n) (by omega) hn
    · next hn =>
      rw [ih]
      constructor
      · rintro ⟨hlt, hi, hafter⟩
        refine ⟨by omega, hi, fun j hj hij => ?_⟩
        obtain hj | rfl := Nat.lt_succ_iff_lt_or_eq.mp hj
        · exact hafter j hj hij
        · exact hn
      · rintro ⟨hlt, hi, hafter⟩
        have hne : i ≠ n := fun heq => hn (heq ▸ hi)
        exact ⟨by omega, hi, fun j hj hij => hafter j (by omega) hij⟩

theorem charValue_lt (c : UInt8) : charValue c < 128 := by
  have h := Int.bmod_lt (x := c.toNat) (m := 2 ^ 8) (by decide)
  rw [charValue, wrap]
  omega

theorem charValue_eq_iff (c : UInt8) {d : Int} (hlow : 0 ≤ d) (hhigh : d < 128) :
    charValue c = d ↔ c = UInt8.ofInt d := by
  have hc := c.toNat_lt
  rw [← UInt8.toNat_inj, UInt8.ofInt, UInt8.toNat_ofNat', charValue, wrap, Int.bmod]
  split
  · omega
  · omega

theorem ftStrchr_mem {c : UInt8} (h : c ∈ s.bytes) : ∃ t, ftStrchr (some s) c = .ok (some t) := by
  have hlt : (s.bytes.takeWhile (· ≠ c)).length < s.bytes.length := by
    by_contra hge
    have hall := (List.takeWhile_prefix (· ≠ c)).eq_of_length_le (not_lt.mp hge)
    have hbefore := List.mem_takeWhile_imp (hall.symm ▸ h)
    simp at hbefore
  simp only [ftStrchr, if_pos hlt]
  split
  · exact ⟨_, rfl⟩
  · exact ⟨_, rfl⟩

/-- `ft_strrchr` returns the last place of a character below 128, the NUL being the last
character of a string. A character from 128 on it never finds, which `ft_strchr` does: it casts
its argument. -/
theorem strrchr_last (h : s.bytes.length + 1 < 2 ^ 31) (c : Int) :
    ∃ found, ftStrrchr s c = .ok found ∧
      (0 ≤ c → c < 128 → ∀ i, found = some i ↔ i ≤ s.bytes.length ∧
        s.bytes.getD i 0 = UInt8.ofInt c ∧
        ∀ j ≤ s.bytes.length, i < j → s.bytes.getD j 0 ≠ UInt8.ofInt c) ∧
      (128 ≤ c → found = none) ∧
      (UInt8.ofInt c ∈ s.bytes → ∃ t, ftStrchr (some s) (UInt8.ofInt c) = .ok (some t)) := by
  refine ⟨_, within_of_lt h, fun hlow hhigh i => ?_, fun hbig => ?_, ftStrchr_mem⟩
  · rw [strrchrLoop_eq_some_iff, Nat.lt_succ_iff, charValue_eq_iff _ hlow hhigh]
    simp only [Nat.lt_succ_iff, ne_eq, charValue_eq_iff _ hlow hhigh]
  · rw [Option.eq_none_iff_forall_ne_some]
    intro i hi
    have hc := (strrchrLoop_eq_some_iff.mp hi).2.1
    have hlt := charValue_lt (s.bytes.getD i 0)
    omega

theorem strrchr_last_haystack :
    ∃ found, ftStrrchr haystack 97 = .ok found ∧
      (0 ≤ (97 : Int) → (97 : Int) < 128 → ∀ i, found = some i ↔ i ≤ haystack.bytes.length ∧
        haystack.bytes.getD i 0 = UInt8.ofInt 97 ∧
        ∀ j ≤ haystack.bytes.length, i < j → haystack.bytes.getD j 0 ≠ UInt8.ofInt 97) ∧
      ((128 : Int) ≤ 97 → found = none) ∧
      (UInt8.ofInt 97 ∈ haystack.bytes →
        ∃ t, ftStrchr (some haystack) (UInt8.ofInt 97) = .ok (some t)) :=
  strrchr_last (by decide) 97

end FtTraceroute.Search

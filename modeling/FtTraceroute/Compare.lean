import FtTraceroute.Memory
import FtTraceroute.Strings

namespace FtTraceroute.Compare

open Library.Loops Library.Ram Libft Strings Memory

def charAt (s : CString) (i : Nat) : UInt8 := s.bytes.getD i 0

/-- The loop of `ft_strncmp` from index `i` on, which `left` turns bring to `n - 1`. -/
def ncmpLoop (s t : CString) : Nat → Nat → Nat
  | 0, i => i
  | left + 1, i =>
    if charAt s i = charAt t i ∧ charAt s i ≠ 0 ∧ charAt t i ≠ 0 then ncmpLoop s t left (i + 1)
    else i

def ftStrncmp (s t : CString) (n : Nat) : Int :=
  if n = 0 then 0
  else
    let i := ncmpLoop s t (n - 1) 0
    (charAt s i).toNat - (charAt t i).toNat

def ftStrequ : Str → Str → Except Fault Int
  | some s, some t => ftStrcmp s t >>= fun d => .ok (if d = 0 then 1 else 0)
  | _, _ => .ok 0

def ftStrnequ (s t : Str) (n : Nat) : Int :=
  if s = none ∧ t = none ∨ n = 0 then 1
  else match s, t with
    | some s, some t => if ftStrncmp s t n = 0 then 1 else 0
    | _, _ => 0

variable {s t : CString} {xs ys : List UInt8} {m : Mem} {a b n : Nat}

theorem strcmpBytes_swap (xs ys : List UInt8) : strcmpBytes ys xs = -strcmpBytes xs ys := by
  induction xs generalizing ys with
  | nil => cases ys <;> simp [strcmpBytes]
  | cons x xs ih =>
    cases ys with
    | nil => simp [strcmpBytes]
    | cons y ys =>
      by_cases hxy : x = y
      · simp [strcmpBytes, hxy, ih]
      · simp only [strcmpBytes, if_neg hxy, if_neg (Ne.symm hxy)]
        omega

/-- Where the end of a list cannot be taken for a byte of the other, the comparison is
the lexicographic one. -/
theorem strcmpBytes_neg_iff (h : xs.length = ys.length ∨ 0 ∉ ys) :
    strcmpBytes xs ys < 0 ↔ xs < ys := by
  induction xs generalizing ys with
  | nil =>
    cases ys with
    | nil => simp [strcmpBytes]
    | cons y ys =>
      have hy : y ≠ 0 := by
        rintro rfl
        exact h.elim (by simp) (by simp)
      have hpos : 0 < y.toNat := Nat.pos_of_ne_zero fun hzero => hy (UInt8.toNat_inj.mp hzero)
      simp only [strcmpBytes, List.nil_lt_cons, iff_true]
      omega
  | cons x xs ih =>
    cases ys with
    | nil => simp [strcmpBytes]
    | cons y ys =>
      have htail : xs.length = ys.length ∨ 0 ∉ ys := by
        apply h.imp
        · exact fun hlen => Nat.succ_inj.mp hlen
        · exact fun hnul hmem => hnul (List.mem_cons_of_mem y hmem)
      rw [List.cons_lt_cons_iff, UInt8.lt_iff_toNat_lt]
      by_cases hxy : x = y
      · simp [strcmpBytes, hxy, ih htail]
      · rw [strcmpBytes, if_neg hxy]
        simp only [hxy, false_and, or_false]
        omega

theorem drop_cases {i : Nat} (hi : i ≤ s.bytes.length) :
    charAt s i = 0 ∧ s.bytes.drop i = [] ∨
      i < s.bytes.length ∧ charAt s i ≠ 0 ∧ s.bytes.drop i = charAt s i :: s.bytes.drop (i + 1) := by
  obtain rfl | hlt := Nat.eq_or_lt_of_le hi
  · exact .inl ⟨List.getD_eq_default _ _ le_rfl, List.drop_length⟩
  · have hget : charAt s i = s.bytes[i] := List.getD_eq_getElem _ _ hlt
    refine .inr ⟨hlt, fun hzero => ?_, hget ▸ List.drop_eq_getElem_cons hlt⟩
    exact s.nulFree (hzero ▸ hget ▸ List.getElem_mem hlt)

theorem ncmpLoop_eq (left : Nat) {i : Nat} (hs : i ≤ s.bytes.length) (ht : i ≤ t.bytes.length) :
    ((charAt s (ncmpLoop s t left i)).toNat : Int) - (charAt t (ncmpLoop s t left i)).toNat =
      strcmpBytes ((s.bytes.drop i).take (left + 1)) ((t.bytes.drop i).take (left + 1)) := by
  induction left generalizing i with
  | zero =>
    rw [ncmpLoop]
    obtain ⟨hc, hdrop⟩ | ⟨-, -, hdrop⟩ := drop_cases hs <;>
      obtain ⟨hc', hdrop'⟩ | ⟨-, -, hdrop'⟩ := drop_cases ht
    · simp [hdrop, hdrop', hc, hc', strcmpBytes]
    · simp [hdrop, hdrop', hc, strcmpBytes]
    · simp [hdrop, hdrop', hc', strcmpBytes]
    · rw [hdrop, hdrop']
      by_cases heq : charAt s i = charAt t i <;> simp [strcmpBytes, heq]
  | succ left ih =>
    rw [ncmpLoop]
    obtain ⟨hc, hdrop⟩ | ⟨hlt, hc, hdrop⟩ := drop_cases hs <;>
      obtain ⟨hc', hdrop'⟩ | ⟨hlt', hc', hdrop'⟩ := drop_cases ht
    · simp [hdrop, hdrop', hc, hc', strcmpBytes]
    · simp [hdrop, hdrop', hc, strcmpBytes]
    · simp [hdrop, hdrop', hc', strcmpBytes]
    · rw [hdrop, hdrop', List.take_succ_cons, List.take_succ_cons, strcmpBytes]
      by_cases heq : charAt s i = charAt t i
      · rw [if_pos ⟨heq, hc, hc'⟩, if_pos heq, ih hlt hlt']
      · rw [if_neg fun h => heq h.1, if_neg heq]

theorem ftStrncmp_eq (s t : CString) (n : Nat) :
    ftStrncmp s t n = strcmpBytes (s.bytes.take n) (t.bytes.take n) := by
  cases n with
  | zero => simp [ftStrncmp, strcmpBytes]
  | succ n =>
    have hloop := ncmpLoop_eq n (Nat.zero_le s.bytes.length) (Nat.zero_le t.bytes.length)
    rw [List.drop_zero, List.drop_zero] at hloop
    exact hloop

theorem ftMemcmp_eq (hx : Holds m a xs) (hy : Holds m b ys) (hlen : xs.length = ys.length) :
    ftMemcmp a b xs.length m = some (strcmpBytes xs ys) := by
  induction xs generalizing a b ys with
  | nil =>
    obtain rfl := List.length_eq_zero_iff.mp hlen.symm
    rfl
  | cons x xs ih =>
    cases ys with
    | nil => simp at hlen
    | cons y ys =>
      obtain ⟨hx, hxs⟩ := holds_cons.mp hx
      obtain ⟨hy, hys⟩ := holds_cons.mp hy
      rw [List.length_cons, ftMemcmp, hx, hy, strcmpBytes]
      by_cases hxy : x = y
      · rw [if_pos hxy, ← ih hxs hys (Nat.succ_inj.mp hlen), hxy]
        simp
      · rw [if_neg hxy]
        simp [hxy]

/-- The strings agree in more characters than an `int` can count. -/
def AgreeTooLong (s t : CString) : Prop :=
  2 ^ 31 ≤ s.bytes.length ∧ 2 ^ 31 ≤ t.bytes.length ∧
    s.bytes.take (2 ^ 31) = t.bytes.take (2 ^ 31)

theorem ftStrcmp_cases (s t : CString) :
    AgreeTooLong s t ∧ ftStrcmp s t = .error .outOfBounds ∨
      ¬ AgreeTooLong s t ∧ ftStrcmp s t = .ok (strcmpBytes s.bytes t.bytes) := by
  rw [ftStrcmp_eq, AgreeTooLong, ← le_agreement]
  obtain hshort | hlong := lt_or_ge (agreement s.bytes t.bytes) (2 ^ 31)
  · exact .inr ⟨not_le.mpr hshort, within_of_lt hshort⟩
  · exact .inl ⟨hlong, within_of_le hlong⟩

/-- `ft_strcmp` is the lexicographic order of the characters as unsigned bytes, unless the
strings agree for too long. `ft_strncmp` is that order on the first `n` characters of each,
whatever their number. -/
theorem strcmp_lexicographic (s t : CString) (n : Nat) :
    ((∃ f, ftStrcmp s t = .error f) ↔ AgreeTooLong s t) ∧
      (∀ r, ftStrcmp s t = .ok r → (r < 0 ↔ s.bytes < t.bytes) ∧ (0 < r ↔ t.bytes < s.bytes)) ∧
      (ftStrncmp s t n < 0 ↔ s.bytes.take n < t.bytes.take n) ∧
      (0 < ftStrncmp s t n ↔ t.bytes.take n < s.bytes.take n) := by
  have hneg : ∀ s t : CString, strcmpBytes s.bytes t.bytes < 0 ↔ s.bytes < t.bytes := fun s t =>
    strcmpBytes_neg_iff (.inr t.nulFree)
  have hpos : ∀ s t : CString, 0 < strcmpBytes s.bytes t.bytes ↔ t.bytes < s.bytes := by
    intro s t
    rw [← hneg t s, strcmpBytes_swap s.bytes t.bytes, neg_lt_zero]
  have htake := hneg (take n s) (take n t)
  have htake' := hpos (take n s) (take n t)
  rw [ftStrncmp_eq]
  obtain ⟨hlong, hcmp⟩ | ⟨hshort, hcmp⟩ := ftStrcmp_cases s t
  · rw [hcmp]
    exact ⟨iff_of_true ⟨_, rfl⟩ hlong, nofun, htake, htake'⟩
  · rw [hcmp]
    refine ⟨iff_of_false nofun hshort, fun r hr => ?_, htake, htake'⟩
    cases hr
    exact ⟨hneg s t, hpos s t⟩

/-- Two blocks of one length, NULs included. -/
theorem memcmp_lexicographic (hx : Holds m a xs) (hy : Holds m b ys)
    (hlen : xs.length = ys.length) :
    ∃ r, ftMemcmp a b xs.length m = some r ∧ (r < 0 ↔ xs < ys) ∧ (0 < r ↔ ys < xs) := by
  refine ⟨_, ftMemcmp_eq hx hy hlen, strcmpBytes_neg_iff (.inl hlen), ?_⟩
  rw [← strcmpBytes_neg_iff (.inl hlen.symm), strcmpBytes_swap]
  exact neg_pos

theorem ftStrnequ_iff (s t : Str) (n : Nat) :
    ftStrnequ s t n = 1 ↔ n = 0 ∨ s.map (take n) = t.map (take n) := by
  cases s with
  | none => cases t <;> simp [ftStrnequ]
  | some s =>
    cases t with
    | none => simp [ftStrnequ]
    | some t =>
      have hequal : strcmpBytes (s.bytes.take n) (t.bytes.take n) = 0 ↔ take n s = take n t :=
        strcmpBytes_strings (take n s) (take n t)
      by_cases hn : n = 0 <;> by_cases heq : take n s = take n t <;>
        simp [ftStrnequ, ftStrncmp_eq, hequal, hn, heq]

theorem ftStrequ_iff (s t : CString) :
    ftStrequ (some s) (some t) = .ok 1 ↔ s = t ∧ s.bytes.length < 2 ^ 31 := by
  have hequal := strcmpBytes_strings s t
  obtain ⟨hlong, hcmp⟩ | ⟨hshort, hcmp⟩ := ftStrcmp_cases s t
  · rw [ftStrequ, hcmp]
    exact iff_of_false nofun fun h => absurd hlong.1 (not_le.mpr h.2)
  · rw [ftStrequ, hcmp, ok_bind, Except.ok.injEq]
    by_cases hst : s = t
    · have hlength : s.bytes.length < 2 ^ 31 := by
        by_contra hlong
        exact hshort ⟨not_lt.mp hlong, hst ▸ not_lt.mp hlong, by rw [hst]⟩
      rw [if_pos (hequal.mpr hst)]
      exact iff_of_true rfl ⟨hst, hlength⟩
    · rw [if_neg fun h => hst (hequal.mp h)]
      exact iff_of_false (by decide) fun h => hst h.1

/-- `ft_strnequ` compares the first `n` characters and takes two null pointers for equal,
which `ft_strequ` does not. -/
theorem strnequ_iff (s t : Str) (n : Nat) :
    (ftStrnequ s t n = 1 ↔ n = 0 ∨ s.map (take n) = t.map (take n)) ∧
      (ftStrequ s t = .ok 1 ↔ s = t ∧ ∃ x, s = some x ∧ x.bytes.length < 2 ^ 31) ∧
      ((∃ f, ftStrequ s t = .error f) ↔ ∃ x y, s = some x ∧ t = some y ∧ AgreeTooLong x y) := by
  refine ⟨ftStrnequ_iff s t n, ?_⟩
  cases s with
  | none => simp [ftStrequ]
  | some s =>
    cases t with
    | none => simp [ftStrequ]
    | some t =>
      refine ⟨by simp [ftStrequ_iff], ?_⟩
      have hexists : (∃ x y, some s = some x ∧ some t = some y ∧ AgreeTooLong x y) ↔
          AgreeTooLong s t := by simp
      rw [hexists]
      obtain ⟨hlong, hcmp⟩ | ⟨hshort, hcmp⟩ := ftStrcmp_cases s t
      · rw [ftStrequ, hcmp]
        exact iff_of_true ⟨_, rfl⟩ hlong
      · rw [ftStrequ, hcmp]
        exact iff_of_false nofun hshort

end FtTraceroute.Compare

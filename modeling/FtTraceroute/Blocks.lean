import FtTraceroute.Concat

namespace FtTraceroute.Blocks

open Library.Loops Libft Strings Concat

/-- `malloc(size)`, with `heap` for the bytes that happen to be in the block. -/
def malloc (heap : Nat → UInt8) (size : Nat) : Option (List UInt8) :=
  if 2 ^ 63 ≤ size % 2 ^ 64 then none else some ((List.range (size % 2 ^ 64)).map heap)

abbrev Result := Except Fault (Option (List UInt8))

/-- `if (!(r = malloc(size))) return (NULL);`, and what is done with the block. -/
def allocated (heap : Nat → UInt8) (size : Nat)
    (use : List UInt8 → Except Fault (List UInt8)) : Result :=
  match malloc heap size with
  | none => .ok none
  | some r => some <$> use r

/-- `ft_strnew` and, below, the functions that copy strings into new blocks, byte by byte. -/
def ftStrnew (heap : Nat → UInt8) (size : Nat) : Result :=
  allocated heap (size + 1) (padLoop ((size + 1) % 2 ^ 64) 0)

def ftStrdup (heap : Nat → UInt8) : Str → Result
  | none => ftStrnew heap 1
  | some s =>
    allocated heap (toSize (wrap 32 s.bytes.length) + 1) (copyText next (fun _ => true) s 0)

def ftStrndup (heap : Nat → UInt8) (s : Str) (len : Nat) : Result :=
  match s with
  | none => .ok none
  | some s =>
    if len = 0 then .ok none
    else do
      match ← ftStrnew heap len with
      | none => pure none
      | some ret =>
        let r ← copyLoop next (fun i => i < len) s.bytes 0 0 ret
        pure (some r.2)

/-- The variables of the outer loop of `ft_strjoin`; `i` is how far `ret` has moved. -/
structure Join where
  len : Nat
  s1 : List UInt8
  s2 : List UInt8
  i : Nat
  ret : List UInt8

def joinTurn (j : Join) : Except Fault Join := do
  let r ← copyLoop bump (fun _ => true) j.s1 j.i 0 j.ret
  let r ← copyLoop bump (fun _ => true) j.s2 r.1 0 r.2
  pure ⟨j.len - j.s1.length - j.s2.length, [], [], r.1, r.2⟩

def joinBlock (s1 s2 : CString) (ret : List UInt8) : Except Fault (List UInt8) := do
  let j ← whileM (fun j => j.len ≠ 0) joinTurn .outOfBounds 2
    ⟨s1.bytes.length + s2.bytes.length, s1.bytes, s2.bytes, 0, ret⟩
  Itoa.storeChar j.ret j.i 0

def ftStrjoin (heap : Nat → UInt8) : Str → Str → Result
  | some s1, some s2 =>
    allocated heap (s1.bytes.length + s2.bytes.length + 1) (joinBlock s1 s2)
  | _, _ => .ok none

def ftStrsub (heap : Nat → UInt8) (s : Str) (start len : Nat) : Result :=
  match s with
  | none => .ok none
  | some s =>
    if s.bytes.length < start then .error .outOfBounds
    else allocated heap (len + 1) fun ret => do
      let ret ← ftStrncpy ret (drop start s) len
      Itoa.storeChar ret len 0

/-- The same result, with some bytes behind the NUL of the string. -/
def Refines : Except Fault Str → Result → Prop
  | .ok none, .ok none => True
  | .ok (some t), .ok (some block) => ∃ slack, block = buffer t slack
  | .error _, .error _ => True
  | _, _ => False

variable {heap : Nat → UInt8} {size : Nat} {s t : CString}

theorem refines_allocString {use : List UInt8 → Except Fault (List UInt8)}
    (hroom : ∀ r, r.length = size % 2 ^ 64 → r.length < 2 ^ 63 → t.bytes.length < r.length →
      ∃ slack, use r = .ok (buffer t slack))
    (hfull : ∀ r, r.length = size % 2 ^ 64 → r.length < 2 ^ 63 → r.length ≤ t.bytes.length →
      use r = .error .outOfBounds) :
    Refines (allocString size t) (allocated heap size use) := by
  rw [allocString, allocated, malloc]
  split
  · trivial
  · next hsize =>
    have hlength : ((List.range (size % 2 ^ 64)).map heap).length = size % 2 ^ 64 := by simp
    simp only
    split
    · next hfits =>
      rw [hfull _ hlength (by omega) (by omega)]
      trivial
    · next hfits =>
      obtain ⟨slack, huse⟩ := hroom _ hlength (by omega) (by omega)
      rw [huse]
      exact ⟨slack, rfl⟩

theorem refines_none : Refines (.ok none) (.ok none) := True.intro

theorem refines_error {f f' : Fault} : Refines (.error f) (.error f') := True.intro

theorem strnew_block (hsize : size + 1 < 2 ^ 64) : ftStrnew heap size =
    .ok (if 2 ^ 63 ≤ size + 1 then none else some (List.replicate (size + 1) 0)) := by
  have hmod : (size + 1) % 2 ^ 64 = size + 1 := Nat.mod_eq_of_lt hsize
  have hpad := padLoop_eq (size + 1) [] ((List.range (size + 1)).map heap) [] (by simp)
  rw [List.nil_append, List.append_nil, List.length_nil, List.nil_append, List.append_nil] at hpad
  rw [ftStrnew, allocated, malloc, hmod]
  by_cases hbig : 2 ^ 63 ≤ size + 1
  · rw [if_pos hbig, if_pos hbig]
  · rw [if_neg hbig, if_neg hbig]
    change some <$> padLoop _ _ _ = _
    rw [hpad]
    rfl

theorem strnew_refines (hsize : size + 1 < 2 ^ 64) :
    Refines (Strings.ftStrnew size) (ftStrnew heap size) := by
  have hmod : (size + 1) % 2 ^ 64 = size + 1 := Nat.mod_eq_of_lt hsize
  rw [strnew_block hsize, Strings.ftStrnew, allocString, hmod]
  split
  · trivial
  · rw [if_neg (by simp [emptyString])]
    exact ⟨List.replicate size 0, rfl⟩

theorem length_of_wrap (h : s.bytes.length < (toSize (wrap 32 s.bytes.length) + 1) % 2 ^ 64)
    (hsize : (toSize (wrap 32 s.bytes.length) + 1) % 2 ^ 64 < 2 ^ 63) :
    s.bytes.length < 2 ^ 31 := by
  have hlow : -(2 ^ 31) ≤ wrap 32 (s.bytes.length : Int) := Int.le_bmod (by decide)
  have hhigh : wrap 32 (s.bytes.length : Int) < 2 ^ 31 := Int.bmod_lt (by decide)
  rw [toSize] at h hsize
  omega

theorem strdup_refines (s : Str) : Refines (Strings.ftStrdup s) (ftStrdup heap s) := by
  cases s with
  | none => exact strnew_refines (by decide)
  | some s =>
    rw [Strings.ftStrdup, ftStrdup]
    refine @refines_allocString heap _ s _ ?_ ?_
    · intro r hr hsize hfits
      have hshort : s.bytes.length < 2 ^ 31 := length_of_wrap (by omega) (by omega)
      have hcopy := ftStrcpy_eq r s
      rw [if_pos ⟨hfits, hshort⟩] at hcopy
      exact ⟨_, hcopy⟩
    · intro r hr hsize hfull
      have hcopy := ftStrcpy_eq r s
      rwa [if_neg fun h => not_le.mpr h.1 hfull] at hcopy

theorem strsub_refines (s : Str) (start : Nat) {len : Nat} (hlen : len + 1 < 2 ^ 64) :
    Refines (Strings.ftStrsub s start len) (ftStrsub heap s start len) := by
  cases s with
  | none => exact refines_none
  | some s =>
    have hmod : (len + 1) % 2 ^ 64 = len + 1 := Nat.mod_eq_of_lt hlen
    have hlength : (take len (drop start s)).bytes.length ≤ len := List.length_take_le _ _
    rw [Strings.ftStrsub, ftStrsub]
    split
    · exact refines_error
    · next hstart =>
      apply refines_allocString
      · intro r hr hsize hfits
        have hsub : Strings.ftStrsub (some s) start len = .ok (some (take len (drop start s))) := by
          rw [Strings.ftStrsub, if_neg hstart]
          exact allocString_ok (by omega) (by omega)
        exact ⟨_, strsub_copies hsub (hr.trans hmod)⟩
      · intro r hr hsize hfull
        omega

theorem strndup_refines (s : Str) {len : Nat} (hlen : len + 1 < 2 ^ 64) :
    Refines (Strings.ftStrndup s len) (ftStrndup heap s len) := by
  cases s with
  | none => exact refines_none
  | some s =>
    rw [Strings.ftStrndup, ftStrndup]
    by_cases hpos : len = 0
    · rw [if_pos hpos, if_pos hpos]
      exact refines_none
    · rw [if_neg hpos, if_neg hpos, strnew_block hlen, Strings.ftStrnew, allocString,
        Nat.mod_eq_of_lt hlen]
      by_cases hbig : 2 ^ 63 ≤ len + 1
      · rw [if_pos hbig, if_pos hbig]
        exact refines_none
      · have hlength : (take len s).bytes.length = min len s.bytes.length := List.length_take
        have hslack : (List.replicate (len + 1) (0 : UInt8)).drop (take len s).bytes.length =
            0 :: List.replicate (len - (take len s).bytes.length) 0 := by
          rw [List.drop_replicate, ← List.replicate_succ]
          congr 1
          omega
        have hloop := copyLoop_counted (fun _ => rfl : ∀ j, (fun j => decide (j < len)) j = _) s
          (List.replicate (len + 1) 0) (by decide) fun k _ => next_eq k
        rw [hslack, List.length_replicate] at hloop
        rw [if_neg hbig, if_neg (by simp [emptyString]), if_neg hbig, ok_bind, ok_bind]
        simp only
        rw [hloop]
        by_cases hlong : 2 ^ 31 ≤ min len s.bytes.length
        · rw [if_pos hlong, if_neg (by omega)]
          exact refines_error
        · rw [if_neg hlong, if_pos (by omega)]
          exact ⟨_, rfl⟩

theorem copyLoop_zero (step : Nat → Except Fault Nat) (ys : List UInt8) (i j : Nat)
    (dest : List UInt8) : copyLoop step (fun _ => true) ys i j dest =
      copyLoop step (fun _ => true) ys i 0 dest := by
  induction ys generalizing i j dest with
  | nil => rfl
  | cons c ys ih =>
    rw [copyLoop, copyLoop, if_pos rfl, if_pos rfl]
    congr 1
    funext dest
    congr 1
    funext i
    rw [ih i (j + 1) dest, ih i (0 + 1) dest]

theorem copyLoop_append (step : Nat → Except Fault Nat) (xs ys : List UInt8) (i : Nat)
    (dest : List UInt8) : copyLoop step (fun _ => true) (xs ++ ys) i 0 dest =
      copyLoop step (fun _ => true) xs i 0 dest >>= fun r =>
        copyLoop step (fun _ => true) ys r.1 0 r.2 := by
  induction xs generalizing i dest with
  | nil => rfl
  | cons c xs ih =>
    rw [List.cons_append, copyLoop, copyLoop, if_pos rfl, if_pos rfl, bind_assoc]
    congr 1
    funext dest
    rw [bind_assoc]
    congr 1
    funext i
    rw [copyLoop_zero step (xs ++ ys) i (0 + 1), ih, copyLoop_zero step xs i (0 + 1)]

theorem copyText_bump {more : Nat → Bool} (hmore : ∀ j, more j = true) (dest : List UInt8) :
    copyText bump more t 0 dest =
      if t.bytes.length < dest.length then .ok (buffer t (dest.drop (t.bytes.length + 1)))
      else .error .outOfBounds := by
  have hall : ∀ k < t.bytes.length, more (0 + k) = true := fun k _ => hmore (0 + k)
  have hstart : ([] : List UInt8).length < ([] : List UInt8).length + dest.length + 1 :=
    Nat.succ_pos _
  have hcopy := copyLoop_storeChar hall (.inl rfl) hstart fun k hk => bump_eq hk
  rw [List.append_nil, List.length_nil, Nat.zero_add, List.nil_append, List.nil_append] at hcopy
  rw [copyText, hcopy, buffer]
  congr 1
  rw [eq_iff_iff]
  omega

theorem joinBlock_eq (s t : CString) (ret : List UInt8) :
    joinBlock s t ret = copyText bump (fun _ => true) (append s t) 0 ret := by
  have hturn : ∀ len s1 s2 i ret, joinTurn ⟨len, s1, s2, i, ret⟩ =
      copyLoop bump (fun _ => true) (s1 ++ s2) i 0 ret >>= fun r =>
        .ok ⟨len - s1.length - s2.length, [], [], r.1, r.2⟩ := by
    intro len s1 s2 i ret
    rw [copyLoop_append, bind_assoc]
    rfl
  rw [joinBlock, copyText, append, whileM]
  by_cases hempty : s.bytes.length + t.bytes.length = 0
  · have hs : s.bytes = [] := List.eq_nil_of_length_eq_zero (by omega)
    have ht : t.bytes = [] := List.eq_nil_of_length_eq_zero (by omega)
    rw [if_neg (by simp [hempty])]
    change _ = copyLoop bump (fun _ => true) (s.bytes ++ t.bytes) 0 0 ret >>= _
    rw [hs, ht]
    rfl
  · rw [if_pos (decide_eq_true hempty), hturn, bind_assoc, bind_assoc]
    congr 1
    funext r
    rw [ok_bind, whileM, if_neg (by simp)]
    rfl

theorem strjoin_refines (s t : Str) : Refines (Strings.ftStrjoin s t) (ftStrjoin heap s t) := by
  cases s with
  | none => exact refines_none
  | some s =>
    cases t with
    | none => exact refines_none
    | some t =>
      rw [Strings.ftStrjoin, ftStrjoin]
      apply refines_allocString
      · intro r _ _ hfits
        rw [joinBlock_eq, copyText_bump fun _ => rfl, if_pos hfits]
        exact ⟨_, rfl⟩
      · intro r _ _ hfull
        rw [joinBlock_eq, copyText_bump fun _ => rfl, if_neg (not_lt.mpr hfull)]

/-- Whatever `malloc` leaves in a block, the functions that make a new string return null, a
block with the string and its NUL, or fault, just as they do in the model on strings. Only a
size of `SIZE_MAX` is excluded, for which `ft_strnew` returns a block of no bytes. -/
theorem strings_refined (heap : Nat → UInt8) (s t : Str) (start : Nat) {len : Nat}
    (hlen : len + 1 < 2 ^ 64) :
    Refines (Strings.ftStrnew len) (ftStrnew heap len) ∧
    Refines (Strings.ftStrdup s) (ftStrdup heap s) ∧
    Refines (Strings.ftStrndup s len) (ftStrndup heap s len) ∧
    Refines (Strings.ftStrjoin s t) (ftStrjoin heap s t) ∧
    Refines (Strings.ftStrsub s start len) (ftStrsub heap s start len) :=
  ⟨strnew_refines hlen, strdup_refines s, strndup_refines s hlen, strjoin_refines s t,
    strsub_refines s start hlen⟩

theorem strings_refined_suffix :
    Refines (Strings.ftStrnew 5) (ftStrnew (fun _ => 7) 5) ∧
    Refines (Strings.ftStrdup (some host)) (ftStrdup (fun _ => 7) (some host)) ∧
    Refines (Strings.ftStrndup (some host) 5) (ftStrndup (fun _ => 7) (some host) 5) ∧
    Refines (Strings.ftStrjoin (some host) (some suffix))
      (ftStrjoin (fun _ => 7) (some host) (some suffix)) ∧
    Refines (Strings.ftStrsub (some host) 1 5) (ftStrsub (fun _ => 7) (some host) 1 5) :=
  strings_refined (fun _ => 7) (some host) (some suffix) 1 (by decide)

end FtTraceroute.Blocks

import FtTraceroute.Itoa

namespace FtTraceroute.Concat

open Library.Loops Library.ByteBlock Libft Strings Itoa

def bump (i : Nat) : Except Fault Nat := .ok (i + 1)

def scanLoop (step : Nat → Except Fault Nat) : List UInt8 → Nat → Except Fault Nat
  | [], _ => .error .outOfBounds
  | c :: s, i => if c = 0 then .ok i else step i >>= scanLoop step s

/-- `while (src[j] && more)`: the characters are stored from `dest[i]` on. The first result
is the index behind the last one. -/
def copyLoop (step : Nat → Except Fault Nat) (more : Nat → Bool) :
    List UInt8 → Nat → Nat → List UInt8 → Except Fault (Nat × List UInt8)
  | c :: src, i, j, dest =>
    if more j then do
      let dest ← storeChar dest i c
      let i ← step i
      copyLoop step more src i (j + 1) dest
    else .ok (i, dest)
  | [], i, _, dest => .ok (i, dest)

def copyText (step : Nat → Except Fault Nat) (more : Nat → Bool) (src : CString) (i : Nat)
    (dest : List UInt8) : Except Fault (List UInt8) :=
  copyLoop step more src.bytes i 0 dest >>= fun r => storeChar r.2 r.1 0

/-- `while (i < len) dest[i] = '\0'`, with `left` such indices. -/
def padLoop : Nat → Nat → List UInt8 → Except Fault (List UInt8)
  | 0, _, dest => .ok dest
  | left + 1, i, dest => storeChar dest i 0 >>= padLoop left (i + 1)

def ftStrcpy (dest : List UInt8) (src : CString) : Except Fault (List UInt8) :=
  copyText next (fun _ => true) src 0 dest

def ftStrncpy (dest : List UInt8) (src : CString) (len : Nat) : Except Fault (List UInt8) :=
  copyLoop bump (fun i => i < len) src.bytes 0 0 dest >>= fun r => padLoop (len - r.1) r.1 r.2

def ftStrcat (s1 : List UInt8) (s2 : CString) : Except Fault (List UInt8) :=
  scanLoop next s1 0 >>= fun i => copyText next (fun _ => true) s2 i s1

/-- The counter `n` is 0 when `n` characters are copied. -/
def ftStrncat (s1 : List UInt8) (s2 : CString) (n : Nat) : Except Fault (List UInt8) :=
  scanLoop next s1 0 >>= fun i => copyText next (fun j => j < n) s2 i s1

def ftStrlcat (dest : List UInt8) (src : CString) (size : Nat) :
    Except Fault (Nat × List UInt8) := do
  let destN ← scanLoop bump dest 0
  if size < destN then pure (size + ftStrlen (some src), dest)
  else
    (ftStrlen (some src) + destN, ·) <$>
      copyText bump (fun i => destN + i + 1 < size) src destN dest

def buffer (s : CString) (slack : List UInt8) : List UInt8 := s.bytes ++ 0 :: slack

variable {step : Nat → Except Fault Nat} {more : Nat → Bool} {xs ys zs rest slack : List UInt8}
  {s t : CString} {i j limit n size : Nat}

theorem storeChar_end (xs : List UInt8) (c : UInt8) :
    storeChar xs xs.length c = .error .outOfBounds := by
  rw [storeChar, poke, if_neg (by simp)]
  rfl

theorem copyLoop_eq (hmore : ∀ k < ys.length, more (j + k) = true)
    (hstop : zs = [] ∨ more (j + ys.length) = false) (hxs : xs.length < limit)
    (hstep : ∀ k < xs.length + rest.length, step k =
      if k + 1 < limit then .ok (k + 1) else .error .outOfBounds) :
    copyLoop step more (ys ++ zs) xs.length j (xs ++ rest) =
      if ys.length ≤ rest.length ∧ xs.length + ys.length < limit then
        .ok (xs.length + ys.length, xs ++ ys ++ rest.drop ys.length)
      else .error .outOfBounds := by
  induction ys generalizing xs rest j with
  | nil =>
    have hend : copyLoop step more ([] ++ zs) xs.length j (xs ++ rest) =
        .ok (xs.length, xs ++ rest) := by
      cases zs with
      | nil => rfl
      | cons z zs => exact if_neg (by simpa using hstop)
    rw [hend, if_pos ⟨Nat.zero_le _, hxs⟩]
    simp
  | cons c ys ih =>
    have hfirst : more j = true := hmore 0 (Nat.succ_pos _)
    rw [List.cons_append, copyLoop, if_pos hfirst]
    cases rest with
    | nil =>
      rw [List.append_nil, storeChar_end, if_neg (by simp)]
      rfl
    | cons d rest =>
      rw [storeChar_middle, ok_bind, hstep _ (by simp)]
      simp only [List.length_cons] at hmore hstop hstep ⊢
      by_cases hnext : xs.length + 1 < limit
      · have hlength : (xs ++ [c]).length = xs.length + 1 := List.length_append
        have hrest := @ih (xs ++ [c]) rest (j + 1)
          (fun k hk => by
            rw [Nat.add_assoc, Nat.add_comm 1]
            exact hmore (k + 1) (Nat.succ_lt_succ hk))
          (by rwa [Nat.add_assoc, Nat.add_comm 1])
          (by rwa [hlength])
          fun k hk => hstep k (by omega)
        rw [hlength, List.append_assoc, List.singleton_append] at hrest
        rw [if_pos hnext, ok_bind, hrest, Nat.add_assoc, Nat.add_comm 1]
        simp
      · rw [if_neg hnext, if_neg (by omega)]
        rfl

theorem copyLoop_storeChar (hmore : ∀ k < ys.length, more (j + k) = true)
    (hstop : zs = [] ∨ more (j + ys.length) = false) (hxs : xs.length < limit)
    (hstep : ∀ k < xs.length + rest.length, step k =
      if k + 1 < limit then .ok (k + 1) else .error .outOfBounds) :
    (copyLoop step more (ys ++ zs) xs.length j (xs ++ rest) >>= fun r => storeChar r.2 r.1 0) =
      if ys.length < rest.length ∧ xs.length + ys.length < limit then
        .ok (xs ++ ys ++ 0 :: rest.drop (ys.length + 1))
      else .error .outOfBounds := by
  rw [copyLoop_eq hmore hstop hxs hstep]
  split
  · next hin =>
    rw [ok_bind]
    by_cases hfits : ys.length < rest.length
    · rw [if_pos ⟨hfits, hin.2⟩, ← List.length_append, List.drop_eq_getElem_cons hfits,
        storeChar_middle]
    · rw [if_neg fun h => hfits h.1, List.drop_eq_nil_of_le (not_lt.mp hfits), List.append_nil,
        ← List.length_append, storeChar_end]
  · rw [if_neg (by omega)]
    rfl

theorem next_eq (i : Nat) :
    next i = if i + 1 < 2 ^ 31 then .ok (i + 1) else .error .outOfBounds := rfl

theorem bump_eq {m : Nat} (h : i < m) :
    bump i = if i + 1 < m + 1 then .ok (i + 1) else .error .outOfBounds :=
  (if_pos (Nat.succ_lt_succ h)).symm

theorem counted (hmore : ∀ j, more j = decide (j < n)) (t : CString) :
    (∀ k < (take n t).bytes.length, more (0 + k) = true) ∧
      (t.bytes.drop n = [] ∨ more (0 + (take n t).bytes.length) = false) := by
  have hlength : (take n t).bytes.length = min n t.bytes.length := List.length_take
  constructor
  · intro k hk
    rw [hmore, decide_eq_true_iff]
    omega
  · rw [List.drop_eq_nil_iff, hmore, decide_eq_false_iff_not]
    omega

theorem copyText_all (hmore : ∀ j, more j = true) (hxs : xs.length < 2 ^ 31) :
    copyText next more t xs.length (xs ++ rest) =
      if t.bytes.length < rest.length ∧ xs.length + t.bytes.length < 2 ^ 31 then
        .ok (xs ++ t.bytes ++ 0 :: rest.drop (t.bytes.length + 1))
      else .error .outOfBounds := by
  have hall : ∀ k < t.bytes.length, more (0 + k) = true := fun k _ => hmore (0 + k)
  have h := copyLoop_storeChar hall (.inl rfl) hxs
    fun k (_ : k < xs.length + rest.length) => next_eq k
  rwa [List.append_nil] at h

theorem copyText_counted (hmore : ∀ j, more j = decide (j < n)) (hxs : xs.length < limit)
    (hstep : ∀ k < xs.length + rest.length, step k =
      if k + 1 < limit then .ok (k + 1) else .error .outOfBounds) :
    copyText step more t xs.length (xs ++ rest) =
      if (take n t).bytes.length < rest.length ∧ xs.length + (take n t).bytes.length < limit then
        .ok (xs ++ (take n t).bytes ++ 0 :: rest.drop ((take n t).bytes.length + 1))
      else .error .outOfBounds := by
  obtain ⟨hcounted, hstop⟩ := counted hmore t
  rw [copyText, ← List.take_append_drop n t.bytes]
  exact copyLoop_storeChar hcounted hstop hxs hstep

theorem scanLoop_buffer (hs : (0 : UInt8) ∉ ys)
    (hstep : ∀ k < i + ys.length, step k = .ok (k + 1)) :
    scanLoop step (ys ++ 0 :: slack) i = .ok (i + ys.length) := by
  induction ys generalizing i with
  | nil => rfl
  | cons c ys ih =>
    obtain ⟨hc, hys⟩ := not_or.mp (mt List.mem_cons.mpr hs)
    rw [List.length_cons] at hstep ⊢
    rw [List.cons_append, scanLoop, if_neg (Ne.symm hc), hstep i (by omega), ok_bind,
      ih hys fun k hk => hstep k (by omega)]
    congr 1
    omega

theorem scanLoop_bump (s : CString) (slack : List UInt8) :
    scanLoop bump (buffer s slack) 0 = .ok s.bytes.length := by
  have h : scanLoop bump (buffer s slack) 0 = .ok (0 + s.bytes.length) :=
    scanLoop_buffer s.nulFree fun _ _ => rfl
  rwa [Nat.zero_add] at h

theorem scanLoop_next (s : CString) (slack : List UInt8) :
    scanLoop next (buffer s slack) 0 = within s.bytes.length s.bytes.length := by
  suffices hgo : ∀ ys i, (0 : UInt8) ∉ ys → i < 2 ^ 31 → scanLoop next (ys ++ 0 :: slack) i =
      within (i + ys.length) (i + ys.length) by
    have h := hgo s.bytes 0 s.nulFree (by decide)
    rwa [Nat.zero_add] at h
  intro ys
  induction ys with
  | nil =>
    intro i _ hi
    exact (within_of_lt hi).symm
  | cons c ys ih =>
    intro i hys hi
    obtain ⟨hc, hys⟩ := not_or.mp (mt List.mem_cons.mpr hys)
    rw [List.cons_append, scanLoop, if_neg (Ne.symm hc), next, List.length_cons]
    refine within_bind (by omega) fun hnext => ?_
    rw [ih (i + 1) hys hnext, Nat.add_assoc, Nat.add_comm 1]

theorem length_buffer (s : CString) (slack : List UInt8) :
    (buffer s slack).length = s.bytes.length + slack.length + 1 := by
  rw [buffer, List.length_append, List.length_cons, Nat.add_assoc]

theorem ftStrcpy_eq (dest : List UInt8) (src : CString) : ftStrcpy dest src =
    if src.bytes.length < dest.length ∧ src.bytes.length < 2 ^ 31 then
      .ok (buffer src (dest.drop (src.bytes.length + 1)))
    else .error .outOfBounds := by
  have h : copyText next (fun _ => true) src ([] : List UInt8).length ([] ++ dest) = _ :=
    copyText_all (fun _ => rfl) (by decide)
  rwa [List.length_nil, Nat.zero_add] at h

theorem ftStrcat_eq (s t : CString) (slack : List UInt8) : ftStrcat (buffer s slack) t =
    if t.bytes.length < slack.length + 1 ∧ (append s t).bytes.length < 2 ^ 31 then
      .ok (buffer (append s t) (slack.drop t.bytes.length))
    else .error .outOfBounds := by
  have hlength : (append s t).bytes.length = s.bytes.length + t.bytes.length :=
    List.length_append
  rw [ftStrcat, scanLoop_next, within, hlength]
  split
  · next hs =>
    rw [ok_bind, buffer, copyText_all (fun _ => rfl) hs, List.drop_succ_cons]
    rfl
  · next hs =>
    rw [if_neg (by omega)]
    rfl

theorem ftStrncat_eq (s t : CString) (slack : List UInt8) (n : Nat) :
    ftStrncat (buffer s slack) t n =
      if (take n t).bytes.length < slack.length + 1 ∧
          (append s (take n t)).bytes.length < 2 ^ 31 then
        .ok (buffer (append s (take n t)) (slack.drop (take n t).bytes.length))
      else .error .outOfBounds := by
  have hlength : (append s (take n t)).bytes.length = s.bytes.length + (take n t).bytes.length :=
    List.length_append
  rw [ftStrncat, scanLoop_next, within, hlength]
  split
  · next hs =>
    rw [ok_bind, buffer, copyText_counted (fun _ => rfl) hs fun k _ => next_eq k,
      List.drop_succ_cons]
    rfl
  · next hs =>
    rw [if_neg (by omega)]
    rfl

/-- What `ft_strlcat` keeps of the string it appends. -/
def kept (size : Nat) (s t : CString) : CString := take (size - 1 - s.bytes.length) t

theorem length_kept (size : Nat) (s t : CString) :
    (kept size s t).bytes.length = min (size - 1 - s.bytes.length) t.bytes.length :=
  List.length_take

theorem kept_eq_empty (h : size ≤ s.bytes.length) (t : CString) : kept size s t = emptyString := by
  rw [kept, Nat.sub_eq_zero_of_le (by omega)]
  rfl

theorem ftStrlcat_eq (hsize : size ≤ (buffer s slack).length) :
    ftStrlcat (buffer s slack) t size = .ok (min size s.bytes.length + t.bytes.length,
      buffer (append s (kept size s t)) (slack.drop (kept size s t).bytes.length)) := by
  have hkept := length_kept size s t
  have hlength := length_buffer s slack
  rw [ftStrlcat, scanLoop_bump, ok_bind, ftStrlen]
  split
  · next hlt =>
    rw [kept_eq_empty hlt.le, min_eq_left hlt.le]
    simp [append, emptyString, pure, Except.pure]
  · next hge =>
    have hmore : ∀ j, decide (s.bytes.length + j + 1 < size) =
        decide (j < size - 1 - s.bytes.length) := fun j => by
      rw [decide_eq_decide]
      omega
    have hstart : s.bytes.length < s.bytes.length + (0 :: slack).length + 1 := by omega
    rw [buffer, copyText_counted hmore hstart fun k hk => bump_eq hk, ← kept,
      if_pos (by rw [List.length_cons]; omega), List.drop_succ_cons, min_eq_right (by omega),
      Nat.add_comm]
    rfl

theorem drop_buffer (h : s.bytes.length < size) :
    (buffer s slack).drop size = slack.drop (size - s.bytes.length - 1) := by
  obtain ⟨k, rfl⟩ := Nat.exists_eq_add_of_le (Nat.succ_le_of_lt h)
  rw [buffer, show s.bytes.length.succ + k = s.bytes.length + (k + 1) by omega,
    ← List.drop_drop, List.drop_left, List.drop_succ_cons]
  congr 1
  omega

theorem drop_kept (size : Nat) (s t : CString) (slack : List UInt8) :
    (buffer (append s (kept size s t)) (slack.drop (kept size s t).bytes.length)).drop size =
      (buffer s slack).drop size := by
  have hkept := length_kept size s t
  have hlength : (append s (kept size s t)).bytes.length =
      s.bytes.length + (kept size s t).bytes.length := List.length_append
  obtain hlt | hge := Nat.lt_or_ge s.bytes.length size
  · rw [drop_buffer hlt, drop_buffer (by omega), List.drop_drop]
    congr 1
    omega
  · rw [kept_eq_empty hge]
    simp [append, emptyString]

theorem kept_eq_self (h : s.bytes.length + t.bytes.length < size) : kept size s t = t := by
  obtain ⟨bytes, hnul⟩ := t
  change s.bytes.length + bytes.length < size at h
  rw [kept, take, CString.mk.injEq]
  exact List.take_of_length_le (show bytes.length ≤ size - 1 - s.bytes.length by omega)

theorem room_eq_within {α : Type} {a : α} {k m : Nat} (h : k < m) :
    (if k < m ∧ n < 2 ^ 31 then .ok a else .error .outOfBounds) = within n a := by
  rw [within]
  congr 1
  rw [eq_iff_iff, and_iff_right h]

/-- Given the number of bytes that are really there, or less, `ft_strlcat` never leaves the
block. It appends what fits before `size` with a NUL behind it, leaves the bytes from `size`
on as they are, and returns the length that all of the string would have needed. What it
leaves is what `ft_strncat` leaves, told how much to append, and what `ft_strcat` leaves if
nothing is cut off, as far as the `int` of these two counts. -/
theorem strlcat_truncates (hsize : size ≤ (buffer s slack).length) (t : CString) :
    ∃ dest, ftStrlcat (buffer s slack) t size =
        .ok (min size s.bytes.length + t.bytes.length, dest) ∧
      (∃ slack', dest = buffer (append s (kept size s t)) slack') ∧
      dest.length = (buffer s slack).length ∧ dest.drop size = (buffer s slack).drop size ∧
      (s.bytes.length < size → ftStrncat (buffer s slack) t (size - 1 - s.bytes.length) =
        within (append s (kept size s t)).bytes.length dest) ∧
      (s.bytes.length + t.bytes.length < size → ftStrcat (buffer s slack) t =
        within (append s t).bytes.length dest) := by
  have hkept := length_kept size s t
  have hlength := length_buffer s slack
  have happend : (append s (kept size s t)).bytes.length =
      s.bytes.length + (kept size s t).bytes.length := List.length_append
  refine ⟨_, ftStrlcat_eq hsize, ⟨_, rfl⟩, ?_, drop_kept size s t slack, fun hlt => ?_,
    fun hfits => ?_⟩
  · obtain hlt | hge := Nat.lt_or_ge s.bytes.length size
    · rw [length_buffer, List.length_drop, happend]
      omega
    · rw [kept_eq_empty hge]
      simp [append, emptyString]
  · rw [ftStrncat_eq, ← kept, room_eq_within (by omega)]
  · rw [kept_eq_self hfits, ftStrcat_eq, room_eq_within (by omega)]

def host : CString := ⟨ascii "ft", by decide⟩

def suffix : CString := ⟨ascii "_traceroute", by decide⟩

/-- A block of eight bytes with room for five characters more. -/
theorem strlcat_truncates_host :
    ∃ dest, ftStrlcat (buffer host [1, 2, 3, 4, 5]) suffix 8 =
        .ok (min 8 host.bytes.length + suffix.bytes.length, dest) ∧
      (∃ slack', dest = buffer (append host (kept 8 host suffix)) slack') ∧
      dest.length = (buffer host [1, 2, 3, 4, 5]).length ∧
      dest.drop 8 = (buffer host [1, 2, 3, 4, 5]).drop 8 ∧
      (host.bytes.length < 8 →
        ftStrncat (buffer host [1, 2, 3, 4, 5]) suffix (8 - 1 - host.bytes.length) =
          within (append host (kept 8 host suffix)).bytes.length dest) ∧
      (host.bytes.length + suffix.bytes.length < 8 →
        ftStrcat (buffer host [1, 2, 3, 4, 5]) suffix =
          within (append host suffix).bytes.length dest) :=
  strlcat_truncates (by decide) suffix

/-- What two copies leave is what one copy of the whole leaves, and they fault where it
does. -/
theorem strcpy_strcat (dest : List UInt8) (s t : CString) :
    (ftStrcpy dest s >>= fun dest => ftStrcat dest t) = ftStrcpy dest (append s t) := by
  have hlength : (append s t).bytes.length = s.bytes.length + t.bytes.length :=
    List.length_append
  rw [ftStrcpy_eq, ftStrcpy_eq, hlength]
  by_cases hs : s.bytes.length < dest.length ∧ s.bytes.length < 2 ^ 31
  · rw [if_pos hs, ok_bind, ftStrcat_eq, hlength, List.length_drop, List.drop_drop]
    congr 1
    · rw [eq_iff_iff]
      omega
    · congr 3
      omega
  · rw [if_neg hs, if_neg (by omega)]
    rfl

theorem padLoop_eq (left : Nat) (xs ys zs : List UInt8) (h : ys.length = left) :
    padLoop left xs.length (xs ++ ys ++ zs) = .ok (xs ++ List.replicate left 0 ++ zs) := by
  induction left generalizing xs ys with
  | zero => rw [padLoop, List.length_eq_zero_iff.mp h, List.replicate_zero]
  | succ left ih =>
    obtain ⟨y, ys, rfl⟩ := List.exists_cons_of_length_eq_add_one h
    have hrest := ih (xs ++ [0]) ys (Nat.succ.inj h)
    rw [List.length_append, List.length_singleton] at hrest
    rw [padLoop, List.append_assoc, List.cons_append, storeChar_middle, ok_bind,
      List.replicate_succ]
    simpa using hrest

theorem copyLoop_counted (hmore : ∀ j, more j = decide (j < n)) (t : CString)
    (dest : List UInt8) (hlimit : 0 < limit) (hstep : ∀ k < dest.length, step k =
      if k + 1 < limit then .ok (k + 1) else .error .outOfBounds) :
    copyLoop step more t.bytes 0 0 dest =
      if (take n t).bytes.length ≤ dest.length ∧ (take n t).bytes.length < limit then
        .ok ((take n t).bytes.length,
          (take n t).bytes ++ dest.drop (take n t).bytes.length)
      else .error .outOfBounds := by
  have hsplit : (take n t).bytes ++ t.bytes.drop n = t.bytes := List.take_append_drop _ _
  obtain ⟨hcounted, hstop⟩ := counted hmore t
  have hloop : copyLoop step more ((take n t).bytes ++ t.bytes.drop n) ([] : List UInt8).length 0
      ([] ++ dest) = _ := copyLoop_eq hcounted hstop hlimit (by simpa using hstep)
  rwa [hsplit, List.length_nil, Nat.zero_add, List.nil_append, List.nil_append] at hloop

/-- `ft_strncpy` fills `len` bytes, with NULs if the string is shorter. A string that is not
shorter gets no NUL. -/
theorem ftStrncpy_eq {len : Nat} (dest : List UInt8) (src : CString) (h : len ≤ dest.length) :
    ftStrncpy dest src len = .ok ((take len src).bytes ++
      List.replicate (len - (take len src).bytes.length) 0 ++ dest.drop len) := by
  have hlength : (take len src).bytes.length = min len src.bytes.length := List.length_take
  have hpad := padLoop_eq (len - (take len src).bytes.length) (take len src).bytes
    ((dest.drop (take len src).bytes.length).take (len - (take len src).bytes.length))
    (dest.drop len) (by rw [List.length_take, List.length_drop]; omega)
  have hdrop : dest.drop len =
      (dest.drop (take len src).bytes.length).drop (len - (take len src).bytes.length) := by
    rw [List.drop_drop]
    congr 1
    omega
  have hfits : (take len src).bytes.length ≤ dest.length ∧
      (take len src).bytes.length < dest.length + 1 := by omega
  rw [ftStrncpy, copyLoop_counted (fun _ => rfl) src dest (Nat.succ_pos _) fun k hk => bump_eq hk,
    if_pos hfits, ok_bind, ← hpad, hdrop, List.append_assoc, List.take_append_drop]

/-- What `ft_strsub` returns is what `ft_strncpy` and the store of a NUL leave in any block of
the size it asks for. -/
theorem strsub_copies {start len : Nat} {block : List UInt8}
    (h : ftStrsub (some s) start len = .ok (some t)) (hblock : block.length = len + 1) :
    (ftStrncpy block (drop start s) len >>= fun ret => storeChar ret len 0) =
      .ok (buffer t (List.replicate (len - t.bytes.length) 0)) := by
  rw [ftStrsub] at h
  split at h
  · cases h
  · obtain ⟨rfl, -, -⟩ := allocString_some h
    have hlength : (take len (drop start s)).bytes.length ≤ len := List.length_take_le _ _
    obtain ⟨last, hlast⟩ := List.length_eq_one_iff.mp
      (show (block.drop len).length = 1 by rw [List.length_drop]; omega)
    have hfilled : ((take len (drop start s)).bytes ++
        List.replicate (len - (take len (drop start s)).bytes.length) 0).length = len := by
      rw [List.length_append, List.length_replicate]
      omega
    have hstore := storeChar_middle ((take len (drop start s)).bytes ++
      List.replicate (len - (take len (drop start s)).bytes.length) 0) [] last 0
    rw [hfilled] at hstore
    rw [ftStrncpy_eq _ _ (by omega), hlast, ok_bind, hstore, List.append_assoc,
      ← List.replicate_succ', List.replicate_succ, buffer]

end FtTraceroute.Concat

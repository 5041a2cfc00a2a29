import FtTraceroute.Packet
import FtTraceroute.Library.Ram

namespace FtTraceroute.Memory

open Library.ByteBlock Library.Ram Library.Loops Header Send Packet

/-- The bytes a program can reach. A result `none` is an access to any other. -/
abbrev Mem := Cells UInt8

def ftMemcpy (dst src n : Nat) (m : Mem) : Option (Nat × Mem) :=
  (copyUp n dst src m).map fun m => (dst, m)

/-- `while (--len) d[len] = s[len]`, for a `len` that is not 0. -/
def moveLoop (d s : Nat) : Nat → Mem → Option Mem
  | 0, m => some m
  | len + 1, m => if len = 0 then some m else copyCell (d + len) (s + len) m >>= moveLoop d s len

def ftMemmove (dst src len : Nat) (m : Mem) : Option (Nat × Mem) :=
  if dst < src then ftMemcpy dst src len m
  else if len ≠ 0 then do
    let m ← moveLoop dst src len m
    let m ← copyCell dst src m
    pure (dst, m)
  else some (dst, m)

/-- A result `none` inside stands for `NULL`. -/
def ftMemccpy (c : Int) : Nat → Nat → Nat → Mem → Option (Option Nat × Mem)
  | _, _, 0, m => some (none, m)
  | dst, src, n + 1, m => do
    let x ← m src
    let m ← store dst x m
    if x = UInt8.ofInt c then pure (some (dst + 1), m) else ftMemccpy c (dst + 1) (src + 1) n m

def ftMemset (b : Nat) (c : Int) (len : Nat) (m : Mem) : Option (Nat × Mem) :=
  (fill (UInt8.ofInt c) len b m).map fun m => (b, m)

def ftBzero (s n : Nat) (m : Mem) : Option Mem := (ftMemset s 0 n m).map Prod.snd

def ftMemchr (c : Int) : Nat → Nat → Mem → Option (Option Nat)
  | _, 0, _ => some none
  | s, n + 1, m => do
    let x ← m s
    if x = UInt8.ofInt c then pure (some s) else ftMemchr c (s + 1) n m

def ftMemcmp : Nat → Nat → Nat → Mem → Option Int
  | _, _, 0, _ => some 0
  | s1, s2, n + 1, m => do
    let x ← m s1
    let y ← m s2
    if x ≠ y then pure ((x.toNat : Int) - y.toNat) else ftMemcmp (s1 + 1) (s2 + 1) n m

variable {m : Mem} {a dst src n : Nat} {x : UInt8} {xs ys : List UInt8}

theorem ftMemcpy_eq (hsrc : Mapped m src n) (hdst : Mapped m dst n) :
    ftMemcpy dst src n m = some (dst, smeared dst src n m) := by
  rw [ftMemcpy, copyUp_eq hsrc hdst]
  rfl

theorem moveLoop_eq (d s len : Nat) (m : Mem) :
    moveLoop d s (len + 1) m >>= copyCell d s = copyDown (len + 1) d s m := by
  induction len generalizing m with
  | zero =>
    change copyCell d s m = copyCell d s m >>= some
    cases copyCell d s m <;> rfl
  | succ len ih =>
    rw [moveLoop, if_neg (Nat.succ_ne_zero len), bind_assoc, copyDown]
    congr 1
    funext m'
    exact ih m'

theorem ftMemmove_eq (hsrc : Mapped m src n) (hdst : Mapped m dst n) :
    ftMemmove dst src n m = some (dst, moved dst src n m) := by
  rw [ftMemmove]
  by_cases hlt : dst < src
  · rw [if_pos hlt, ftMemcpy_eq hsrc hdst, smeared_eq_moved (.inl hlt.le)]
  · rw [if_neg hlt]
    cases n with
    | zero =>
      rw [if_neg (not_not.mpr rfl)]
      congr 2
      funext a
      rw [moved, if_neg (by omega)]
    | succ n =>
      rw [if_pos (Nat.succ_ne_zero n), ← bind_assoc, moveLoop_eq,
        copyDown_eq (not_lt.mp hlt) hsrc hdst]
      rfl

/-- For any two regions `ft_memmove` moves the bytes and touches nothing else. `ft_memcpy`
does the same exactly if the bytes it is to copy repeat with the distance by which the
destination lies behind the source; it copies right if it does not lie behind. -/
theorem memmove_overlap (hsrc : Mapped m src n) (hdst : Mapped m dst n) :
    ∃ m', ftMemmove dst src n m = some (dst, m') ∧ (∀ k < n, m' (dst + k) = m (src + k)) ∧
      (∀ a, a < dst ∨ dst + n ≤ a → m' a = m a) ∧
      (ftMemcpy dst src n m = some (dst, m') ↔
        ∀ k < n, m (src + k % (dst - src)) = m (src + k)) := by
  refine ⟨_, ftMemmove_eq hsrc hdst, ?_, ?_, ?_⟩
  · intro k hk
    rw [moved, if_pos (by omega), Nat.add_sub_cancel_left]
  · intro a ha
    rw [moved, if_neg (by omega)]
  · rw [ftMemcpy_eq hsrc hdst, Option.some_inj, Prod.mk.injEq]
    constructor
    · rintro ⟨-, hsame⟩ k hk
      have hcell := congrFun hsame (dst + k)
      rwa [smeared, moved, if_pos (by omega), if_pos (by omega), Nat.add_sub_cancel_left] at hcell
    · intro hperiod
      refine ⟨rfl, funext fun a => ?_⟩
      rw [smeared, moved]
      split
      · next hin => exact hperiod (a - dst) (by omega)
      · rfl

def region : Mem := fun a => [1, 2, 3, 4][a]?

theorem memmove_overlap_region :
    ∃ m', ftMemmove 1 0 3 region = some (1, m') ∧ (∀ k < 3, m' (1 + k) = region (0 + k)) ∧
      (∀ a, a < 1 ∨ 1 + 3 ≤ a → m' a = region a) ∧
      (ftMemcpy 1 0 3 region = some (1, m') ↔
        ∀ k < 3, region (0 + k % (1 - 0)) = region (0 + k)) :=
  memmove_overlap (fun k hk => by interval_cases k <;> rfl) fun k hk => by interval_cases k <;> rfl

theorem ftMemset_eq (c : Int) (h : Mapped m a n) :
    ftMemset a c n m = some (a, filled (UInt8.ofInt c) n a m) := by
  rw [ftMemset, fill_eq h]
  rfl

theorem ftMemset_one (c : Int) :
    ftMemset a c 1 m = (store a (UInt8.ofInt c) m).map fun m => (a, m) := by
  rw [ftMemset, fill]
  cases store a (UInt8.ofInt c) m <;> rfl

theorem ftBzero_eq (h : Mapped m a n) : ftBzero a n m = some (filled 0 n a m) := by
  rw [ftBzero, ftMemset_eq 0 h]
  rfl

theorem holds_filled {off : Nat} (h : Holds m a xs) (hfits : off + n ≤ xs.length) :
    Holds (filled x n (a + off) m) a
      (xs.take off ++ List.replicate n x ++ xs.drop (off + n)) := by
  intro k y hk
  rw [List.append_assoc, List.getElem?_append, List.length_take, Nat.min_eq_left (by omega)] at hk
  rw [filled]
  split at hk
  · next hhead =>
    rw [if_neg (by omega)]
    rw [List.getElem?_take_of_lt hhead] at hk
    exact h k y hk
  · rw [List.getElem?_append, List.length_replicate] at hk
    split at hk
    · next hin =>
      rw [if_pos (by omega)]
      rwa [List.getElem?_replicate, if_pos hin] at hk
    · rw [if_neg (by omega)]
      rw [List.getElem?_drop] at hk
      apply h k y
      rw [← hk]
      congr 1
      omega

theorem ftMemset_poke (off n : Nat) (c : Int) (h : Holds m a xs)
    (hfits : off + n ≤ xs.length) :
    ∃ m' b, ftMemset (a + off) c n m = some (a + off, m') ∧
      poke off (List.replicate n (UInt8.ofInt c)) xs = some b ∧ b.length = xs.length ∧
      Holds m' a b := by
  have hmapped : Mapped m (a + off) n := fun k hk => by
    have hlt : off + k < xs.length := by omega
    rw [Nat.add_assoc, h (off + k) _ (List.getElem?_eq_getElem hlt)]
    rfl
  have hlength : off + (List.replicate n (UInt8.ofInt c)).length ≤ xs.length := by
    rwa [List.length_replicate]
  obtain ⟨b, hb, hkeep⟩ := poke_fits off _ xs hlength
  refine ⟨_, b, ftMemset_eq c hmapped, hb, hkeep, ?_⟩
  rw [poke_eq off _ xs hlength, List.length_replicate, Option.some_inj] at hb
  rw [← hb]
  exact holds_filled h hfits

/-- The two loops and the store of the NUL with which `construct_packet` prepares a new block
leave the bytes that its model builds the headers on. -/
theorem packet_prepared {d : Data} {ip : SockaddrIn} (hip : d.networkIp = some ip)
    (hpos : 0 < d.totalSize) (hle : d.payloadSize ≤ d.totalSize) (h : Mapped m a d.totalSize)
    (i : Probe) :
    ∃ m₁ m₂ m₃ packet, ftBzero a d.totalSize m = some m₁ ∧
      ftMemset (a + (d.totalSize - d.payloadSize)) 65 d.payloadSize m₁ =
        some (a + (d.totalSize - d.payloadSize), m₂) ∧
      store (a + (d.totalSize - 1)) 0 m₂ = some m₃ ∧ Holds m₃ a packet ∧
      constructPacket d i = inBounds (buildHeaders d ip.sinAddr i packet) := by
  have hclear : Holds (filled 0 d.totalSize a m) a (List.replicate d.totalSize 0) := by
    intro k x hk
    rw [List.getElem?_replicate] at hk
    split at hk
    · rwa [filled, if_pos (by omega)]
    · cases hk
  have hlength : (List.replicate d.totalSize (0 : UInt8)).length = d.totalSize :=
    List.length_replicate
  obtain ⟨m₂, b₂, hset₂, hpoke₂, hkeep₂, hholds₂⟩ :=
    ftMemset_poke (d.totalSize - d.payloadSize) d.payloadSize 65 hclear (by omega)
  obtain ⟨m₃, b₃, hset₃, hpoke₃, -, hholds₃⟩ :=
    ftMemset_poke (d.totalSize - 1) 1 0 hholds₂ (by omega)
  rw [ftMemset_one] at hset₃
  obtain ⟨m', hstore, hm'⟩ := Option.map_eq_some_iff.mp hset₃
  obtain rfl : m' = m₃ := congrArg Prod.snd hm'
  change poke _ (List.replicate _ 65) _ = _ at hpoke₂
  change poke _ [0] _ = _ at hpoke₃
  refine ⟨_, m₂, m', b₃, ftBzero_eq h, hset₂, hstore, hholds₃, ?_⟩
  rw [constructPacket_eq hip, hpoke₂, inBounds_some, ok_bind, hpoke₃, inBounds_some, ok_bind]

theorem bind_store {f : Mem → Option (Option Nat × Mem)} (h : (m a).isSome) :
    (store a x m >>= f) = f (Function.update m a (some x)) := by
  rw [store_mapped h]
  rfl

theorem ftMemchr_eq (c : Int) (h : Holds m src xs) :
    ftMemchr c src xs.length m = some ((xs.findIdx? (· = UInt8.ofInt c)).map (src + ·)) := by
  induction xs generalizing src with
  | nil => rfl
  | cons x xs ih =>
    obtain ⟨hx, hxs⟩ := holds_cons.mp h
    rw [List.length_cons, ftMemchr, hx, Option.bind_eq_bind, Option.bind_some, List.findIdx?_cons]
    by_cases hc : x = UInt8.ofInt c
    · simp [hc]
    · rw [if_neg hc, ih hxs, if_neg (by simpa using hc), Option.map_map]
      congr 2
      funext k
      simp only [Function.comp_apply]
      omega

theorem moved_succ {k : Nat} (hx : m src = some x) (h : dst ≤ src ∨ src + k < dst) :
    moved (dst + 1) (src + 1) k (Function.update m dst (some x)) = moved dst src (k + 1) m := by
  funext a
  rw [moved, moved, Function.update_apply, Function.update_apply]
  by_cases hin : dst + 1 ≤ a ∧ a < dst + 1 + k
  · rw [if_pos hin, if_neg (by omega), if_pos (by omega)]
    congr 1
    omega
  · rw [if_neg hin]
    by_cases heq : a = dst
    · rw [if_pos heq, if_pos (by omega), heq, Nat.sub_self, Nat.add_zero, hx]
    · rw [if_neg heq, if_neg (by omega)]

theorem moved_zero : moved dst src 0 m = m := by
  funext a
  rw [moved, if_neg (by omega)]

def copiedUntil (dst src n : Nat) (m : Mem) : Option Nat → Option Nat × Mem
  | none => (none, moved dst src n m)
  | some found => (some (dst + found + 1), moved dst src (found + 1) m)

theorem ftMemccpy_eq (c : Int) (hsrc : Holds m src xs) (hdst : Mapped m dst xs.length)
    (h : dst ≤ src ∨ src + xs.length ≤ dst) : ftMemccpy c dst src xs.length m =
      some (copiedUntil dst src xs.length m (xs.findIdx? (· = UInt8.ofInt c))) := by
  induction xs generalizing dst src m with
  | nil =>
    rw [List.length_nil, ftMemccpy, List.findIdx?_nil, copiedUntil, moved_zero]
  | cons x xs ih =>
    rw [List.length_cons] at h hdst
    obtain ⟨hx, hxs⟩ := holds_cons.mp hsrc
    have hfirst : (m dst).isSome := hdst 0 (Nat.succ_pos _)
    have hsrc' : Holds (Function.update m dst (some x)) (src + 1) xs := by
      intro k y hk
      obtain ⟨hlt, -⟩ := List.getElem?_eq_some_iff.mp hk
      rw [Function.update_apply, if_neg (by omega)]
      exact hxs k y hk
    have hdst' := update_mapped (b := dst) (o := some x) (mapped_succ hdst) rfl
    rw [List.length_cons, ftMemccpy, hx, Option.bind_eq_bind, Option.bind_some,
      bind_store hfirst, List.findIdx?_cons]
    by_cases hc : x = UInt8.ofInt c
    · have hmoved : _ = moved dst src 1 m := moved_succ hx (by omega)
      rw [if_pos hc, if_pos (by simpa using hc), copiedUntil, ← hmoved, moved_zero]
      rfl
    · rw [if_neg hc, if_neg (by simpa using hc), ih hsrc' hdst' (by omega)]
      cases hfind : xs.findIdx? (· = UInt8.ofInt c) with
      | none => rw [Option.map_none, copiedUntil, copiedUntil, moved_succ hx (by omega)]
      | some k =>
        have hlt := (List.findIdx?_eq_some_iff_getElem.mp hfind).1
        rw [Option.map_some, copiedUntil, copiedUntil, moved_succ hx (by omega)]
        congr 3
        omega

/-- `ft_memccpy` copies up to the first byte that `ft_memchr` finds, that byte included,
and returns the place behind it. Without one it copies all. -/
theorem memccpy_until (c : Int) (hsrc : Holds m src xs) (hdst : Mapped m dst xs.length)
    (h : dst ≤ src ∨ src + xs.length ≤ dst) :
    ∃ found, ftMemchr c src xs.length m = some (found.map (src + ·)) ∧
      ftMemccpy c dst src xs.length m = some (copiedUntil dst src xs.length m found) ∧
      (∀ k, found = some k ↔
        xs[k]? = some (UInt8.ofInt c) ∧ ∀ j < k, xs[j]? ≠ some (UInt8.ofInt c)) := by
  refine ⟨_, ftMemchr_eq c hsrc, ftMemccpy_eq c hsrc hdst h, fun k => ?_⟩
  rw [List.findIdx?_eq_some_iff_getElem]
  constructor
  · rintro ⟨hlt, hc, hbefore⟩
    refine ⟨?_, fun j hj hat => ?_⟩
    · rw [List.getElem?_eq_getElem hlt]
      simpa using hc
    · obtain ⟨hlen, heq⟩ := List.getElem?_eq_some_iff.mp hat
      exact hbefore j hj (by simpa using heq)
  · rintro ⟨hat, hbefore⟩
    obtain ⟨hlt, heq⟩ := List.getElem?_eq_some_iff.mp hat
    refine ⟨hlt, by simpa using heq, fun j hj hc => ?_⟩
    apply hbefore j hj
    rw [List.getElem?_eq_getElem (lt_trans hj hlt)]
    simpa using hc

theorem memccpy_until_region :
    ∃ found, ftMemchr 2 0 2 region = some (found.map (0 + ·)) ∧
      ftMemccpy 2 2 0 2 region = some (copiedUntil 2 0 2 region found) ∧
      (∀ k, found = some k ↔
        [1, 2][k]? = some (UInt8.ofInt 2) ∧ ∀ j < k, [1, 2][j]? ≠ some (UInt8.ofInt 2)) := by
  have hsrc : Holds region 0 [1, 2] := holds_cons.mpr ⟨rfl, holds_cons.mpr ⟨rfl, holds_nil⟩⟩
  have hdst : Mapped region 2 2 := fun k hk => by interval_cases k <;> rfl
  exact memccpy_until 2 hsrc hdst (.inr (by decide))

end FtTraceroute.Memory

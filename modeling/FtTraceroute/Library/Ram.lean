import Mathlib

namespace FtTraceroute.Library.Ram

variable {α : Type*}

/-- What each address holds, if it is mapped. -/
abbrev Cells (α : Type*) := Nat → Option α

def store (a : Nat) (x : α) (m : Cells α) : Option (Cells α) :=
  if (m a).isSome then some (Function.update m a (some x)) else none

def copyCell (dst src : Nat) (m : Cells α) : Option (Cells α) :=
  (m src).bind fun x => store dst x m

/-- Copies `n` cells, the lowest first. -/
def copyUp : Nat → Nat → Nat → Cells α → Option (Cells α)
  | 0, _, _, m => some m
  | n + 1, dst, src, m => copyCell dst src m >>= copyUp n (dst + 1) (src + 1)

/-- Copies `n` cells, the highest first. -/
def copyDown : Nat → Nat → Nat → Cells α → Option (Cells α)
  | 0, _, _, m => some m
  | n + 1, dst, src, m => copyCell (dst + n) (src + n) m >>= copyDown n dst src

def fill (x : α) : Nat → Nat → Cells α → Option (Cells α)
  | 0, _, m => some m
  | n + 1, a, m => store a x m >>= fill x n (a + 1)

def Mapped (m : Cells α) (a n : Nat) : Prop := ∀ k < n, (m (a + k)).isSome

/-- The cells from `dst` on hold what those from `src` on held, all others what they held. -/
def moved (dst src n : Nat) (m : Cells α) : Cells α := fun a =>
  if dst ≤ a ∧ a < dst + n then m (src + (a - dst)) else m a

/-- The cells from `dst` on repeat what lay between `src` and `dst`. With `dst` at or
before `src` nothing is repeated. -/
def smeared (dst src n : Nat) (m : Cells α) : Cells α := fun a =>
  if dst ≤ a ∧ a < dst + n then m (src + (a - dst) % (dst - src)) else m a

def filled (x : α) (n a : Nat) (m : Cells α) : Cells α := fun b =>
  if a ≤ b ∧ b < a + n then some x else m b

variable {m : Cells α} {a dst src n : Nat} {x : α}

theorem mapped_of_le {k : Nat} (h : Mapped m a n) (hk : k ≤ n) : Mapped m a k := fun j hj =>
  h j (lt_of_lt_of_le hj hk)

theorem mapped_succ (h : Mapped m a (n + 1)) : Mapped m (a + 1) n := fun k hk => by
  rw [Nat.add_assoc, Nat.add_comm 1 k]
  exact h (k + 1) (Nat.succ_lt_succ hk)

theorem store_mapped (h : (m a).isSome) : store a x m = some (Function.update m a (some x)) :=
  if_pos h

theorem copyCell_mapped (hsrc : (m src).isSome) (hdst : (m dst).isSome) :
    copyCell dst src m = some (Function.update m dst (m src)) := by
  obtain ⟨x, hx⟩ := Option.isSome_iff_exists.mp hsrc
  rw [copyCell, hx, Option.bind_some, store_mapped hdst]

theorem bind_copyCell {f : Cells α → Option (Cells α)} (hsrc : (m src).isSome)
    (hdst : (m dst).isSome) : copyCell dst src m >>= f = f (Function.update m dst (m src)) := by
  rw [copyCell_mapped hsrc hdst]
  rfl

theorem update_mapped {b : Nat} (h : Mapped m a n) {o : Option α} (ho : o.isSome) :
    Mapped (Function.update m b o) a n := fun k hk => by
  rw [Function.update_apply]
  split
  · exact ho
  · exact h k hk

theorem copyUp_last (n dst src : Nat) (m : Cells α) :
    copyUp (n + 1) dst src m = copyUp n dst src m >>= copyCell (dst + n) (src + n) := by
  induction n generalizing dst src m with
  | zero =>
    change copyCell dst src m >>= some = copyCell dst src m
    cases copyCell dst src m <;> rfl
  | succ n ih =>
    rw [copyUp, copyUp, bind_assoc]
    congr 1
    funext m'
    rw [ih, Nat.add_assoc dst, Nat.add_assoc src, Nat.add_comm 1 n]

theorem smeared_mapped (hsrc : Mapped m src n) (hdst : Mapped m a n) {k : Nat} (hk : k ≤ n) :
    Mapped (smeared dst src k m) a n := by
  intro j hj
  rw [smeared]
  split
  · next hin =>
    have hle := Nat.mod_le (a + j - dst) (dst - src)
    exact hsrc _ (by omega)
  · exact hdst j hj

theorem copyUp_eq (hsrc : Mapped m src n) (hdst : Mapped m dst n) :
    copyUp n dst src m = some (smeared dst src n m) := by
  induction n with
  | zero =>
    rw [copyUp]
    congr 1
    funext a
    rw [smeared, if_neg (by omega)]
  | succ n ih =>
    have hread : smeared dst src n m (src + n) = m (src + n % (dst - src)) := by
      rw [smeared]
      split
      · next hin =>
        rw [Nat.mod_eq_sub_mod (show dst - src ≤ n by omega)]
        congr 3
        omega
      · next hout =>
        obtain hfar | hbehind := Nat.lt_or_ge (src + n) dst
        · rw [Nat.mod_eq_of_lt (by omega)]
        · rw [show dst - src = 0 by omega, Nat.mod_zero]
    have hsrc' : (smeared dst src n m (src + n)).isSome :=
      smeared_mapped hsrc hsrc (Nat.le_succ n) n (Nat.lt_succ_self n)
    have hdst' : (smeared dst src n m (dst + n)).isSome :=
      smeared_mapped hsrc hdst (Nat.le_succ n) n (Nat.lt_succ_self n)
    rw [copyUp_last, ih (mapped_of_le hsrc (Nat.le_succ n)) (mapped_of_le hdst (Nat.le_succ n)),
      Option.bind_eq_bind, Option.bind_some, copyCell_mapped hsrc' hdst', hread]
    congr 1
    funext a
    rw [Function.update_apply]
    split
    · next heq =>
      rw [heq, smeared, if_pos (by omega), Nat.add_sub_cancel_left]
    · next hne =>
      rw [smeared, smeared]
      congr 1
      rw [eq_iff_iff]
      omega

/-- Nothing is repeated unless the cells copied last are among those written first. -/
theorem smeared_eq_moved (h : dst ≤ src ∨ src + n ≤ dst) :
    smeared dst src n m = moved dst src n m := by
  funext a
  rw [smeared, moved]
  split
  · next hin =>
    obtain hle | hle := h
    · rw [Nat.sub_eq_zero_of_le hle, Nat.mod_zero]
    · rw [Nat.mod_eq_of_lt (by omega)]
  · rfl

theorem copyDown_eq (hle : src ≤ dst) (hsrc : Mapped m src n) (hdst : Mapped m dst n) :
    copyDown n dst src m = some (moved dst src n m) := by
  induction n generalizing m with
  | zero =>
    rw [copyDown]
    congr 1
    funext a
    rw [moved, if_neg (by omega)]
  | succ n ih =>
    have hlast := hsrc n (Nat.lt_succ_self n)
    have hsrc' := update_mapped (b := dst + n) (mapped_of_le hsrc (Nat.le_succ n)) hlast
    have hdst' := update_mapped (b := dst + n) (mapped_of_le hdst (Nat.le_succ n)) hlast
    rw [copyDown, bind_copyCell hlast (hdst n (Nat.lt_succ_self n)), ih hsrc' hdst']
    congr 1
    funext a
    rw [moved, moved, Function.update_apply, Function.update_apply]
    by_cases hin : dst ≤ a ∧ a < dst + n
    · rw [if_pos hin, if_neg (by omega), if_pos (by omega)]
    · rw [if_neg hin]
      by_cases heq : a = dst + n
      · rw [if_pos heq, if_pos (by omega), heq, Nat.add_sub_cancel_left]
      · rw [if_neg heq, if_neg (by omega)]

theorem fill_eq (h : Mapped m a n) : fill x n a m = some (filled x n a m) := by
  induction n generalizing a m with
  | zero =>
    rw [fill]
    congr 1
    funext b
    rw [filled, if_neg (by omega)]
  | succ n ih =>
    have hfirst : (m a).isSome := h 0 (Nat.succ_pos n)
    have hrest := update_mapped (b := a) (o := some x) (mapped_succ h) rfl
    rw [fill, store_mapped hfirst, Option.bind_eq_bind, Option.bind_some, ih hrest]
    congr 1
    funext b
    rw [filled, filled, Function.update_apply]
    by_cases heq : b = a
    · rw [if_neg (by omega), if_pos heq, if_pos (by omega)]
    · rw [if_neg heq]
      congr 1
      rw [eq_iff_iff]
      omega

def Holds (m : Cells α) (a : Nat) (xs : List α) : Prop :=
  ∀ k x, xs[k]? = some x → m (a + k) = some x

theorem holds_nil : Holds m a [] := fun k x h => by simp at h

theorem holds_cons {y : α} {xs : List α} :
    Holds m a (y :: xs) ↔ m a = some y ∧ Holds m (a + 1) xs := by
  constructor
  · intro h
    refine ⟨h 0 y rfl, fun k x hk => ?_⟩
    rw [Nat.add_assoc, Nat.add_comm 1 k]
    exact h (k + 1) x hk
  · rintro ⟨hy, hxs⟩ k x hk
    cases k with
    | zero =>
      cases hk
      exact hy
    | succ k =>
      have hx := hxs k x hk
      rwa [Nat.add_assoc, Nat.add_comm 1 k] at hx

end FtTraceroute.Library.Ram

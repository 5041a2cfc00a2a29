import FtTraceroute.Library.Ram

namespace FtTraceroute.Library.Linked

open Library.Ram

variable {Node : Type*}

/-- The nodes `xs` with their addresses, each linked to the next one and the last one to
nothing, from the pointer `p` on. -/
def Chain (next : Node → Option Nat) (m : Cells Node) : Option Nat → List (Nat × Node) → Prop
  | p, [] => p = none
  | p, (a, x) :: xs => p = some a ∧ m a = some x ∧ Chain next m (next x) xs

def addresses (xs : List (Nat × Node)) : List Nat := xs.map Prod.fst

def release (as : List Nat) (m : Cells Node) : Cells Node := fun a => if a ∈ as then none else m a

variable {next : Node → Option Nat} {m m' : Cells Node} {p : Option Nat} {a : Nat} {x : Node}
  {xs ys : List (Nat × Node)}

@[simp] theorem addresses_cons (x : Nat × Node) (xs : List (Nat × Node)) :
    addresses (x :: xs) = x.1 :: addresses xs := rfl

theorem chain_unique (h : Chain next m p xs) (h' : Chain next m p ys) : xs = ys := by
  induction xs generalizing p ys with
  | nil =>
    cases ys with
    | nil => rfl
    | cons y ys => exact absurd (h.symm.trans h'.1) (by simp)
  | cons x xs ih =>
    obtain ⟨hp, hx, hxs⟩ := h
    cases ys with
    | nil => exact absurd (hp.symm.trans h') (by simp)
    | cons y ys =>
      obtain ⟨hp', hy, hys⟩ := h'
      have haddress : x.1 = y.1 := Option.some_inj.mp (hp.symm.trans hp')
      rw [haddress, hy, Option.some_inj] at hx
      rw [← hx] at hxs
      rw [ih hxs hys]
      exact congrArg (· :: ys) (Prod.ext haddress hx.symm)

theorem chain_frame (h : Chain next m p xs) (hsame : ∀ a ∈ addresses xs, m' a = m a) :
    Chain next m' p xs := by
  induction xs generalizing p with
  | nil => exact h
  | cons x xs ih =>
    obtain ⟨hp, hx, hxs⟩ := h
    exact ⟨hp, (hsame _ List.mem_cons_self).trans hx,
      ih hxs fun a ha => hsame a (List.mem_cons_of_mem _ ha)⟩

theorem chain_mapped (h : Chain next m p xs) (ha : a ∈ addresses xs) : (m a).isSome := by
  induction xs generalizing p with
  | nil => cases ha
  | cons x xs ih =>
    obtain ⟨hp, hx, hxs⟩ := h
    obtain rfl | ha := List.mem_cons.mp ha
    · rw [hx]
      rfl
    · exact ih hxs ha

theorem chain_suffix (h : Chain next m p xs) (ha : a ∈ addresses xs) :
    ∃ ys, ys <:+ xs ∧ Chain next m (some a) ys := by
  induction xs generalizing p with
  | nil => cases ha
  | cons x xs ih =>
    obtain ⟨hp, hx, hxs⟩ := h
    obtain rfl | ha := List.mem_cons.mp ha
    · exact ⟨x :: xs, List.suffix_rfl, rfl, hx, hxs⟩
    · obtain ⟨ys, hys, hchain⟩ := ih hxs ha
      exact ⟨ys, hys.trans (List.suffix_cons _ _), hchain⟩

/-- A chain that ends does not come back to a node. -/
theorem chain_nodup (h : Chain next m p xs) : (addresses xs).Nodup := by
  induction xs generalizing p with
  | nil => exact List.nodup_nil
  | cons x xs ih =>
    obtain ⟨hp, hx, hxs⟩ := h
    refine List.nodup_cons.mpr ⟨fun hback => ?_, ih hxs⟩
    obtain ⟨ys, hys, hchain⟩ := chain_suffix hxs hback
    have hwhole : Chain next m (some x.1) (x :: xs) := ⟨rfl, hx, hxs⟩
    have hsame := chain_unique hchain hwhole
    have hlength := hys.length_le
    rw [hsame, List.length_cons] at hlength
    omega

end FtTraceroute.Library.Linked

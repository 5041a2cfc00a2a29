import Mathlib.Data.List.Basic

namespace FtTraceroute.Library.Occurs

variable {α : Type*} [DecidableEq α]

/-- The first index of `xs` from which `ys` stands there. -/
def find (ys : List α) : List α → Option Nat
  | [] => if ys = [] then some 0 else none
  | x :: xs => if ys.isPrefixOf (x :: xs) then some 0 else (find ys xs).map (· + 1)

def First (ys xs : List α) (i : Nat) : Prop :=
  i ≤ xs.length ∧ ys <+: xs.drop i ∧ ∀ j < i, ¬ ys <+: xs.drop j

variable {x : α} {xs ys : List α} {i : Nat}

omit [DecidableEq α] in
theorem first_zero : First ys xs 0 ↔ ys <+: xs := by
  simp [First]

omit [DecidableEq α] in
theorem first_succ : First ys (x :: xs) (i + 1) ↔ ¬ ys <+: x :: xs ∧ First ys xs i := by
  unfold First
  rw [List.length_cons, Nat.add_le_add_iff_right, List.drop_succ_cons]
  constructor
  · rintro ⟨hle, hat, hbefore⟩
    exact ⟨hbefore 0 (Nat.succ_pos i), hle, hat, fun j hj => hbefore (j + 1) (Nat.succ_lt_succ hj)⟩
  · rintro ⟨hzero, hle, hat, hbefore⟩
    refine ⟨hle, hat, fun j hj => ?_⟩
    cases j with
    | zero => exact hzero
    | succ j => exact hbefore j (Nat.lt_of_succ_lt_succ hj)

theorem find_eq_some_iff : find ys xs = some i ↔ First ys xs i := by
  induction xs generalizing i with
  | nil =>
    by_cases hys : ys = []
    · cases i <;> simp [find, First, hys]
    · simp [find, First, hys]
  | cons x xs ih =>
    rw [find]
    by_cases hstarts : ys <+: x :: xs
    · rw [if_pos (List.isPrefixOf_iff_prefix.mpr hstarts)]
      cases i with
      | zero => simp [first_zero, hstarts]
      | succ i => simp [first_succ, hstarts]
    · rw [if_neg fun h => hstarts (List.isPrefixOf_iff_prefix.mp h)]
      cases i with
      | zero => simp [first_zero, hstarts]
      | succ i =>
        rw [first_succ, ← ih, Option.map_eq_some_iff]
        simp [hstarts]

theorem find_eq_none_iff : find ys xs = none ↔ ¬ ys <:+: xs := by
  induction xs with
  | nil =>
    rw [find, List.infix_nil]
    split <;> simp_all
  | cons x xs ih =>
    rw [find, List.infix_cons_iff, not_or, ← ih]
    split
    · next hstarts => simp [List.isPrefixOf_iff_prefix.mp hstarts]
    · next hstarts =>
      rw [List.isPrefixOf_iff_prefix] at hstarts
      simp [hstarts]

end FtTraceroute.Library.Occurs

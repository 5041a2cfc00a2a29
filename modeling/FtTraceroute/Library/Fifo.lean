import Mathlib

namespace FtTraceroute.Library.Fifo

variable {α : Type*}

/-- What waits when the `k`-th receive looks: the items left over by the earlier
receives, then those that came in since the last one. -/
def queue (arrivals : Nat → List α) : Nat → List α
  | 0 => arrivals 0
  | k + 1 => (queue arrivals k).tail ++ arrivals (k + 1)

/-- The outcome of the `k`-th receive; `none` is a timeout. -/
def served (arrivals : Nat → List α) (k : Nat) : Option α := (queue arrivals k).head?

/-- Receives neither skip, repeat nor reorder: what they returned, followed by
what still waits, is what came in. -/
theorem served_append_waiting (arrivals : Nat → List α) (k : Nat) :
    (List.range (k + 1)).filterMap (served arrivals) ++ (queue arrivals k).tail =
      (List.range (k + 1)).flatMap arrivals := by
  induction k with
  | zero =>
    cases h : arrivals 0 <;> simp [served, queue, h, List.range_succ]
  | succ k ih =>
    rw [List.range_succ, List.filterMap_append, List.flatMap_append, ← ih]
    cases h : queue arrivals (k + 1) with
    | nil =>
      have hnil : (queue arrivals k).tail ++ arrivals (k + 1) = [] := h
      simp_all [served]
    | cons a rest =>
      have hcons : (queue arrivals k).tail ++ arrivals (k + 1) = a :: rest := h
      simp [served, h, hcons]

theorem served_isPrefix (arrivals : Nat → List α) (k : Nat) :
    (List.range k).filterMap (served arrivals) <+: (List.range k).flatMap arrivals := by
  cases k with
  | zero => simp
  | succ k => exact ⟨_, served_append_waiting arrivals k⟩

end FtTraceroute.Library.Fifo

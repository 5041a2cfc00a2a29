import Mathlib.Data.List.DropRight
import Mathlib.Data.List.TakeWhile

namespace FtTraceroute.Library.Scan

variable {α : Type*} {p : α → Bool} {x : α} {xs ys : List α}

theorem take_length_takeWhile (p : α → Bool) (xs : List α) :
    xs.take (xs.takeWhile p).length = xs.takeWhile p := by
  have h : (xs.takeWhile p ++ xs.dropWhile p).take (xs.takeWhile p).length = xs.takeWhile p :=
    List.take_left
  rwa [List.takeWhile_append_dropWhile] at h

theorem drop_length_takeWhile (p : α → Bool) (xs : List α) :
    xs.drop (xs.takeWhile p).length = xs.dropWhile p := by
  have h : (xs.takeWhile p ++ xs.dropWhile p).drop (xs.takeWhile p).length = xs.dropWhile p :=
    List.drop_left
  rwa [List.takeWhile_append_dropWhile] at h

theorem add_length_cons (i : Nat) (x : α) (xs : List α) :
    i + (x :: xs).length = i + 1 + xs.length := by
  rw [List.length_cons]
  omega

theorem add_length_takeWhile (hx : p x = true) (i : Nat) (xs : List α) :
    i + ((x :: xs).takeWhile p).length = i + 1 + (xs.takeWhile p).length := by
  rw [List.takeWhile_cons_of_pos hx, add_length_cons]

theorem exists_rest (hx : p x = true) (h : ∃ y ∈ x :: xs, p y = false) :
    ∃ y ∈ xs, p y = false := by
  obtain ⟨y, hy, hpy⟩ := h
  obtain rfl | hy := List.mem_cons.mp hy
  · rw [hx] at hpy
    cases hpy
  · exact ⟨y, hy, hpy⟩

/-- `xs` without what satisfies `p` at both ends. -/
def trim (p : α → Bool) (xs : List α) : List α := (xs.dropWhile p).rdropWhile p

theorem rtakeWhile_cons (h : ∃ y ∈ x :: xs, p y = false) :
    (x :: xs).rtakeWhile p = xs.rtakeWhile p := by
  have hlast : xs.rtakeWhile p = xs → p x = false := by
    intro hall
    obtain ⟨y, hy, hpy⟩ := h
    obtain rfl | hy := List.mem_cons.mp hy
    · exact hpy
    · have hp := List.rtakeWhile_eq_self_iff.mp hall y hy
      rw [hpy] at hp
      cases hp
  rw [List.rtakeWhile, List.rtakeWhile, List.reverse_cons, List.takeWhile_append]
  split
  · next hlength =>
    have hall := (List.takeWhile_sublist p).eq_of_length hlength
    have hx := hlast (by rw [List.rtakeWhile, hall, List.reverse_reverse])
    rw [List.takeWhile_cons_of_neg (by simp [hx]), List.append_nil, hall]
  · rfl

theorem rtakeWhile_append (h : ∃ y ∈ ys, p y = false) :
    (xs ++ ys).rtakeWhile p = ys.rtakeWhile p := by
  induction xs with
  | nil => rfl
  | cons x xs ih =>
    obtain ⟨y, hy, hpy⟩ := h
    rw [List.cons_append, rtakeWhile_cons ⟨y, by simp [hy], hpy⟩, ih]

theorem rdropWhile_eq_take (p : α → Bool) (xs : List α) :
    xs.rdropWhile p = xs.take (xs.length - (xs.rtakeWhile p).length) := by
  have hsplit := List.rdropWhile_append_rtakeWhile (p := p) (l := xs)
  have htake : (xs.rdropWhile p ++ xs.rtakeWhile p).take (xs.rdropWhile p).length =
      xs.rdropWhile p := List.take_left
  have hlength := congrArg List.length hsplit
  rw [List.length_append] at hlength
  rw [hsplit] at htake
  rw [← hlength, Nat.add_sub_cancel, htake]

theorem rtakeWhile_dropWhile (h : ∃ x ∈ xs, p x = false) :
    (xs.dropWhile p).rtakeWhile p = xs.rtakeWhile p := by
  have hsplit := List.takeWhile_append_dropWhile (p := p) (l := xs)
  have hrest : ∃ x ∈ xs.dropWhile p, p x = false := by
    obtain ⟨x, hx, hpx⟩ := h
    rw [← hsplit] at hx
    obtain hx | hx := List.mem_append.mp hx
    · have hp := List.mem_takeWhile_imp hx
      rw [hpx] at hp
      cases hp
    · exact ⟨x, hx, hpx⟩
  rw [← rtakeWhile_append hrest, hsplit]

theorem length_ends_le (h : ∃ x ∈ xs, p x = false) :
    (xs.takeWhile p).length + (xs.rtakeWhile p).length ≤ xs.length := by
  have hend := (List.rtakeWhile_suffix p (xs.dropWhile p)).length_le
  have hlength := congrArg List.length (List.takeWhile_append_dropWhile (p := p) (l := xs))
  rw [List.length_append] at hlength
  rw [rtakeWhile_dropWhile h] at hend
  omega

theorem trim_eq (h : ∃ x ∈ xs, p x = false) : trim p xs =
    (xs.drop (xs.takeWhile p).length).take
      (xs.length - (xs.takeWhile p).length - (xs.rtakeWhile p).length) := by
  rw [trim, rdropWhile_eq_take, rtakeWhile_dropWhile h, ← drop_length_takeWhile, List.length_drop]

end FtTraceroute.Library.Scan

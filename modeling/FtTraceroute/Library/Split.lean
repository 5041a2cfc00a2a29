import Mathlib.Data.List.Basic
import Mathlib.Data.List.TakeWhile

namespace FtTraceroute.Library.Split

variable {α : Type*} [DecidableEq α] {sep : α} {xs ys part rest : List α} {parts : List (List α)}

theorem splitOn_words {ws : List (List α)} (hws : ∀ w ∈ ws, sep ∉ w) :
    (ws.flatMap (· ++ [sep]) ++ rest).splitOn sep = ws ++ rest.splitOn sep := by
  induction ws with
  | nil => rfl
  | cons w ws ih =>
    have hsplit : (w :: ws).flatMap (· ++ [sep]) ++ rest =
        w ++ sep :: (ws.flatMap (· ++ [sep]) ++ rest) := by simp
    rw [hsplit, List.splitOn_append_cons_self_of_not_mem (hws w (by simp)),
      ih fun v hv => hws v (List.mem_cons_of_mem w hv), List.cons_append]

/-- The parts that end in the separator, and the last one unless nothing follows the
last separator. -/
def lines (sep : α) (xs : List α) : List (List α) :=
  let parts := xs.splitOn sep
  if parts.getLast? = some [] then parts.dropLast else parts

@[simp] theorem lines_nil : lines sep [] = [] := rfl

theorem lines_append_cons (h : sep ∉ xs) (rest : List α) :
    lines sep (xs ++ sep :: rest) = xs :: lines sep rest := by
  have hsplit := List.splitOn_append_cons_self_of_not_mem h rest
  obtain ⟨part, parts, hparts⟩ := List.exists_cons_of_ne_nil (List.splitOn_ne_nil sep rest)
  simp only [lines, hsplit, hparts, List.getLast?_cons_cons, List.dropLast_cons_cons]
  split <;> rfl

theorem lines_flatMap {ls : List (List α)} (hls : ∀ l ∈ ls, sep ∉ l) :
    lines sep (ls.flatMap (· ++ [sep])) = ls := by
  induction ls with
  | nil => rfl
  | cons l ls ih =>
    have hcons : (l :: ls).flatMap (· ++ [sep]) = l ++ sep :: ls.flatMap (· ++ [sep]) := by simp
    rw [hcons, lines_append_cons (hls l (by simp)), ih fun m hm => hls m (List.mem_cons_of_mem l hm)]

theorem lines_of_notMem (h : sep ∉ xs) (hne : xs ≠ []) : lines sep xs = [xs] := by
  simp [lines, List.splitOn_eq_singleton h, hne]

theorem lines_eq_nil : lines sep xs = [] ↔ xs = [] := by
  refine ⟨fun h => ?_, fun h => h ▸ lines_nil⟩
  by_cases hsep : sep ∈ xs
  · obtain ⟨before, after, rfl, hbefore⟩ := List.eq_append_cons_of_mem hsep
    rw [lines_append_cons hbefore] at h
    cases h
  · by_contra hne
    rw [lines_of_notMem hsep hne] at h
    cases h

theorem lines_eq_cons (h : lines sep xs = part :: parts) : sep ∉ part ∧
    ((∃ rest, xs = part ++ sep :: rest ∧ lines sep rest = parts) ∨
      xs = part ∧ part ≠ [] ∧ parts = []) := by
  by_cases hsep : sep ∈ xs
  · obtain ⟨before, after, rfl, hbefore⟩ := List.eq_append_cons_of_mem hsep
    rw [lines_append_cons hbefore] at h
    cases h
    exact ⟨hbefore, .inl ⟨after, rfl, rfl⟩⟩
  · have hne : xs ≠ [] := fun hnil => by simp [hnil] at h
    rw [lines_of_notMem hsep hne] at h
    cases h
    exact ⟨hsep, .inr ⟨rfl, hne, rfl⟩⟩

/-- The longest parts without the separator that are not empty, in order. -/
def segments (sep : α) (xs : List α) : List (List α) := (xs.splitOn sep).filter (· ≠ [])

@[simp] theorem segments_nil : segments sep [] = [] := rfl

@[simp] theorem segments_cons_self : segments sep (sep :: xs) = segments sep xs := by
  have hsplit : (sep :: xs).splitOn sep = [] :: xs.splitOn sep :=
    List.splitOn_append_cons_self_of_not_mem List.not_mem_nil xs
  simp [segments, hsplit]

theorem segments_dropWhile (sep : α) (xs : List α) :
    segments sep (xs.dropWhile (· = sep)) = segments sep xs := by
  induction xs with
  | nil => rfl
  | cons x xs ih =>
    by_cases hx : x = sep
    · rw [hx, segments_cons_self, ← ih]
      simp
    · simp [hx]

theorem segments_cons {x : α} (h : x ≠ sep) : segments sep (x :: xs) =
    (x :: xs).takeWhile (· ≠ sep) :: segments sep ((x :: xs).dropWhile (· ≠ sep)) := by
  have hsplit := List.takeWhile_append_dropWhile (p := (· ≠ sep)) (l := x :: xs)
  have hword : sep ∉ (x :: xs).takeWhile (· ≠ sep) := fun hsep => by
    simpa using List.mem_takeWhile_imp hsep
  have hne : (x :: xs).takeWhile (· ≠ sep) ≠ [] := by simp [h]
  have hhead := List.head?_dropWhile_not (· ≠ sep) (x :: xs)
  generalize (x :: xs).takeWhile (· ≠ sep) = word at hsplit hword hne ⊢
  generalize (x :: xs).dropWhile (· ≠ sep) = rest at hsplit hhead ⊢
  cases rest with
  | nil =>
    rw [← hsplit, List.append_nil, segments, List.splitOn_eq_singleton hword]
    simp [hne]
  | cons y rest =>
    obtain rfl : y = sep := by simpa using hhead
    rw [← hsplit, segments, List.splitOn_append_cons_self_of_not_mem hword, segments_cons_self]
    simp [hne, segments]

omit [DecidableEq α] in
theorem append_eq_line (hsep : sep ∉ xs) (h : xs ++ ys = part ++ sep :: rest) :
    ∃ middle, part = xs ++ middle ∧ ys = middle ++ sep :: rest := by
  obtain ⟨middle, hpart, hys⟩ | ⟨middle, hxs, hrest⟩ := List.append_eq_append_iff.mp h
  · exact ⟨middle, hpart, hys⟩
  · cases middle with
    | nil => exact ⟨[], by simpa using hxs.symm, hrest.symm⟩
    | cons c middle =>
      cases hrest
      exact absurd (hxs ▸ by simp) hsep

omit [DecidableEq α] in
theorem line_unique {part' rest' : List α} (hpart : sep ∉ part) (hpart' : sep ∉ part')
    (h : part ++ sep :: rest = part' ++ sep :: rest') : part = part' ∧ rest = rest' := by
  obtain ⟨middle, rfl, hmiddle⟩ := append_eq_line hpart h
  cases middle with
  | nil =>
    cases hmiddle
    exact ⟨by simp, rfl⟩
  | cons c middle =>
    cases hmiddle
    exact absurd (by simp) hpart'

end FtTraceroute.Library.Split

import Mathlib

namespace FtTraceroute.Library.ByteBlock

variable {α : Type*}

/-- Store `vs` at offset `off` of an allocated block; `none` is a store that
leaves the block. -/
def poke (off : Nat) (vs b : List α) : Option (List α) :=
  if off + vs.length ≤ b.length then some (b.take off ++ vs ++ b.drop (off + vs.length)) else none

def peek (off len : Nat) (b : List α) : Option (List α) :=
  if off + len ≤ b.length then some ((b.drop off).take len) else none

theorem poke_eq (off : Nat) (vs b : List α) (h : off + vs.length ≤ b.length) :
    poke off vs b = some (b.take off ++ vs ++ b.drop (off + vs.length)) := if_pos h

theorem poke_fits (off : Nat) (vs b : List α) (h : off + vs.length ≤ b.length) :
    ∃ b', poke off vs b = some b' ∧ b'.length = b.length := by
  refine ⟨_, poke_eq off vs b h, ?_⟩
  simp
  omega

theorem poke_append_right (xs vs ys : List α) (h : vs.length = ys.length) :
    poke xs.length vs (xs ++ ys) = some (xs ++ vs) := by
  rw [poke_eq _ _ _ (by simp [h]), h, ← List.length_append, List.drop_length]
  simp

theorem peek_append_right (xs ys : List α) : peek xs.length ys.length (xs ++ ys) = some ys := by
  simp [peek]

end FtTraceroute.Library.ByteBlock

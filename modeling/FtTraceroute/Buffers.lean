import FtTraceroute.Run

namespace FtTraceroute.Buffers

open Library.OwnedSlots
open Libft Header Parsing Main Accept Run

/-- The buffers of a whole run: when `main` returns, the twelve slots are null, each
buffer stored was released exactly once, and every store, access and release was
allowed by what had happened before. A run that exits early, or that cannot count the
characters of an argument, has stored none. -/
theorem buffers_released_once (e : Env) (argv : List CString) :
    (∃ w, main e argv = .ok w ∧ (∀ x, val w.mem x = none) ∧
      (∀ x old id, .store x old (some id) ∈ w.mem.trace → w.mem.trace.count (.release id) = 1) ∧
      ∀ later ev past, w.mem.trace = later ++ ev :: past → Allowed past ev) ∨
    (∃ code w, main e argv = .error (.exit code w) ∧ w.mem.trace = []) ∨
    ∃ w, main e argv = .error (.overrun w) ∧ w.mem.trace = [] ∧
      ∃ plen ∈ argv, 2 ^ 31 ≤ plen.bytes.length := by
  cases hp : parseDest e argv init with
  | error x =>
    rw [main_refused hp]
    cases parseDest_error hp with
    | exit hmem => exact .inr (.inl ⟨_, _, rfl, by rw [hmem]; rfl⟩)
    | overrun hmem harg hlong => exact .inr (.inr ⟨_, rfl, by rw [hmem]; rfl, _, harg, hlong⟩)
  | ok w₀ =>
    obtain ⟨s, host, hs⟩ := parseDest_ok hp
    obtain hfd | hfd := lt_or_ge e.socket 0
    · obtain ⟨v, hmain, hmem, -⟩ := main_noSocket hp hs hfd
      exact .inr (.inl ⟨1, v, hmain, by rw [hmem]; rfl⟩)
    · obtain ⟨T, w, hmain, hend⟩ := main_ok hp hs hfd
      refine .inl ⟨w, hmain, hend.null, ?_, ?_⟩
      · exact fun x old id h => hend.sound.released_once hend.null h
      · intro later ev past htrace
        have horderly := hend.sound.orderly
        rw [htrace] at horderly
        exact orderly_split horderly

end FtTraceroute.Buffers

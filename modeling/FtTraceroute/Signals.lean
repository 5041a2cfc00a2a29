import FtTraceroute.Stop

namespace FtTraceroute.Signals

open Library.Loops
open Libft Header Inet Packet Parsing Main Script Accept Hops Run Events Stop

/-- No hop starts once a handler has run: the log of a state in which the loop test
lets a hop start shows no handler. -/
def Obeyed (e : Env) (argv : List CString) : Prop :=
  ∀ v, AtLoop e argv v → running v = true → ∀ p, .handler p ∉ v.log

variable {s : Session} {e : Env} {host : CString} {argv : List CString} {t n : Nat} {p : Point}
  {ip : SockaddrIn} {w w₀ : World}

theorem handler_mem_hopEvents (h : .handler p ∈ hopEvents s e t ip) :
    ∃ q, p = .hop t q ∧ e.handler p = true := by
  simp only [hopEvents, headEvents, List.mem_append, mem_handled, mem_probesEvents_probes,
    List.mem_flatMap] at h
  obtain (((((⟨h, hp⟩ | ⟨h, hp⟩) | h) | ⟨i, h⟩) | ⟨i, -, h⟩) | ⟨h, hp⟩) | ⟨h, hp⟩ := h
  · cases hp
    exact ⟨_, rfl, h⟩
  · cases hp
    exact ⟨_, rfl, h⟩
  · simp at h
  · cases hs : e.sendto t i <;> simp [probeEvents, sendEvents, hs] at h <;>
      obtain ⟨h, rfl⟩ | ⟨h, rfl⟩ := h <;> exact ⟨_, rfl, h⟩
  · simp only [columnEvents, List.cons_append, List.mem_cons, List.mem_append, mem_handled] at h
    obtain h | h | ⟨h, hp⟩ := h
    · cases h
    · split at h <;> simp at h
    · cases hp
      exact ⟨_, rfl, h⟩
  · cases hp
    exact ⟨_, rfl, h⟩
  · cases hp
    exact ⟨_, rfl, h⟩

theorem handler_notMem_hopsEvents (halive : aliveAfter s e n = true) :
    .handler p ∉ hopsEvents s e n := by
  intro h
  obtain ⟨k, hk, hhop⟩ := mem_hopsEvents.mp h
  obtain ⟨q, rfl, hq⟩ := handler_mem_hopEvents hhop
  exact (aliveAfter_iff.mp halive).2 (k + 1) (by omega) (by omega) (.inr (.inr ⟨q, hq⟩))

theorem handler_mem_prologue : .handler p ∈ prologue s e host ↔
    e.handler p = true ∧ p ∈ [.armed, .opened, .headed, .raised, .built] := by
  simp only [prologue, List.cons_append, List.mem_cons, List.mem_append, mem_handled,
    List.not_mem_nil, Event.handler.injEq, reduceCtorEq, or_false, false_or]
  constructor
  · rintro ((((⟨h, rfl⟩ | ⟨h, rfl⟩) | ⟨h, rfl⟩) | ⟨h, rfl⟩) | ⟨h, rfl⟩) <;> simp [h]
  · rintro ⟨h, rfl | rfl | rfl | rfl | rfl⟩ <;> simp [h]

/-- A request that comes before `alive` is set does not stop the loop. -/
theorem quiet_of_obeyed (hp : parseDest e argv init = .ok w₀) (hs : Parsed e s host w₀)
    (hfd : 0 ≤ e.socket) (halive : aliveAfter s e 0 = true) (h : Obeyed e argv) :
    ∀ p ∈ [Point.armed, .opened, .headed], e.handler p = false := by
  have hnone : Performed s e 0 := ⟨Nat.zero_le _, by simp⟩
  obtain ⟨v, hv, hloop⟩ := exists_atLoop hp hs hfd hnone
  have hsilent := h v hv ((running_iff hloop).mpr ⟨by decide, halive⟩)
  intro p hmem
  refine Bool.eq_false_iff.mpr fun hrun => hsilent p ?_
  rw [hloop.log]
  refine List.mem_append_left _ (handler_mem_prologue.mpr ⟨hrun, ?_⟩)
  exact List.mem_append_left [.raised, .built] hmem

theorem obeyed_of_quiet (hp : parseDest e argv init = .ok w₀) (hs : Parsed e s host w₀)
    (h : aliveAfter s e 0 = true → ∀ p ∈ [Point.armed, .opened, .headed], e.handler p = false) :
    Obeyed e argv := by
  intro v hv hrun p hmem
  obtain ⟨n, -, hloop⟩ := atLoop_ok hp hs hv
  obtain ⟨-, halive⟩ := (running_iff hloop).mp hrun
  have hzero : aliveAfter s e 0 = true := aliveAfter_of_le s e (Nat.zero_le n) halive
  rw [hloop.log, List.mem_append] at hmem
  obtain hmem | hmem := hmem
  · obtain ⟨hp', hmem⟩ := handler_mem_prologue.mp hmem
    have hpoint : p ∈ [Point.armed, .opened, .headed] ++ [.raised, .built] := hmem
    obtain hmem | hmem := List.mem_append.mp hpoint
    · rw [h hzero p hmem] at hp'
      cases hp'
    · simp only [List.mem_cons, List.not_mem_nil, or_false] at hmem
      obtain rfl | rfl := hmem <;> simp [aliveAfter, hp'] at hzero
  · exact handler_notMem_hopsEvents halive hmem

/-- A request to stop is honoured unless it comes before `alive` is set: then the loop
starts all the same, if no later request prevents it. -/
theorem obeyed_iff (hp : parseDest e argv init = .ok w₀) : Obeyed e argv ↔
    e.socket < 0 ∨ e.handler .raised = true ∨ e.handler .built = true ∨
      e.handler .armed = false ∧ e.handler .opened = false ∧ e.handler .headed = false := by
  obtain ⟨s, host, hs⟩ := parseDest_ok hp
  have hzero : aliveAfter s e 0 = true ↔
      ¬ (e.handler .raised = true ∨ e.handler .built = true) := by
    simp [aliveAfter]
  obtain hfd | hfd := lt_or_ge e.socket 0
  · refine iff_of_true ?_ (.inl hfd)
    rintro v ⟨v₀, hstart, -⟩
    obtain ⟨-, -, hopen⟩ := start_inv hstart
    exact absurd hfd (not_lt.mpr hopen)
  · rw [or_iff_right (not_lt.mpr hfd), ← or_assoc]
    constructor
    · intro h
      by_cases hlater : e.handler .raised = true ∨ e.handler .built = true
      · exact .inl hlater
      · have hquiet := quiet_of_obeyed hp hs hfd (hzero.mpr hlater) h
        exact .inr ⟨hquiet _ (by simp), hquiet _ (by simp), hquiet _ (by simp)⟩
    · intro h
      apply obeyed_of_quiet hp hs
      intro halive p hmem
      obtain ⟨harmed, hopened, hheaded⟩ := h.resolve_left (hzero.mp halive)
      simp only [List.mem_cons, List.not_mem_nil, or_false] at hmem
      obtain rfl | rfl | rfl := hmem <;> assumption

def interrupted : Env := { silent target with handler := fun p => p = .armed }

theorem obeyed_iff_interrupted : Obeyed interrupted udpArgs ↔
    interrupted.socket < 0 ∨ interrupted.handler .raised = true ∨
      interrupted.handler .built = true ∨ interrupted.handler .armed = false ∧
        interrupted.handler .opened = false ∧ interrupted.handler .headed = false := by
  have hp : parseDest interrupted udpArgs init = .ok _ := rfl
  exact obeyed_iff hp

/-- The request is lost: the run goes on to its last hop. -/
theorem request_lost : ∃ v, AtLoop interrupted udpArgs v ∧ running v = true ∧
    v.data.ttl = maxHops ∧ .handler .armed ∈ v.log ∧ ¬ Obeyed interrupted udpArgs := by
  have hp : parseDest interrupted udpArgs init = .ok _ := rfl
  obtain ⟨s, host, hs⟩ := parseDest_ok hp
  have halive : ∀ n, aliveAfter s interrupted n = true := by
    intro n
    induction n with
    | zero => rfl
    | succ n ih =>
      have hquiet : quiet s interrupted (n + 1) = true := by
        simp [quiet, probeQuiet, columnQuiet, interrupted, silent]
      rw [aliveAfter, ih, hquiet]
      rfl
  have hperf : Performed s interrupted 29 := ⟨by decide, fun k _ => halive k⟩
  obtain ⟨v, hv, hloop⟩ := exists_atLoop hp hs (by decide) hperf
  have hrun : running v = true := (running_iff hloop).mpr ⟨by decide, halive 29⟩
  have hlost : .handler .armed ∈ v.log := by
    rw [hloop.log]
    exact List.mem_append_left _ (handler_mem_prologue.mpr ⟨rfl, by simp⟩)
  exact ⟨v, hv, hrun, hloop.ttl, hlost, fun h => h v hv hrun .armed hlost⟩

end FtTraceroute.Signals

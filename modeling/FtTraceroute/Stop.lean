import FtTraceroute.Events
import FtTraceroute.Replies

namespace FtTraceroute.Stop

open Libft Header Inet Packet Parsing Main Script Columns Accept Run Events Replies

inductive Mark
  | hop (t : Nat)
  | sent (t : Nat) (i : Probe)
  | recieved (t : Nat) (i : Probe)
  | column
  | newline
deriving DecidableEq

def mark : Event → Option Mark
  | .print (.ttl t) => some (.hop t)
  | .sendto t i _ _ _ => some (.sent t i)
  | .recvfrom t i _ => some (.recieved t i)
  | .print .star => some .column
  | .print (.again _) => some .column
  | .print (.route _ _ _) => some .column
  | .print .newline => some .newline
  | _ => none

def marks (log : List Event) : List Mark := log.filterMap mark

/-- A completed hop: three sends, each followed by its receive, three columns, a newline. -/
def hopMarks (t : Nat) : List Mark :=
  [.hop t, .sent t 0, .recieved t 0, .sent t 1, .recieved t 1, .sent t 2, .recieved t 2,
    .column, .column, .column, .newline]

/-- What ends a run after hop `t`. -/
def Stops (e : Env) (dest : InAddr) (icmp : Bool) (t : Nat) : Prop :=
  (∃ i d, e.recvfrom t i = some d ∧ d.saddr = dest) ∨
    (icmp = true ∧ ∃ i d, e.recvfrom t i = some d ∧ d.icmpType = 0) ∨
    ∃ p, e.handler (.hop t p) = true

/-- `T` is the first hop that ends the run, the last one allowed if none does, and 0
if a handler runs before the first test of the loop. -/
structure LastHop (e : Env) (dest : InAddr) (icmp : Bool) (T : Nat) : Prop where
  le : T ≤ maxHops
  zero : T = 0 ↔ e.handler .raised = true ∨ e.handler .built = true
  before : ∀ t, 1 ≤ t → t < T → ¬ Stops e dest icmp t
  last : 1 ≤ T → T = maxHops ∨ Stops e dest icmp T

variable {s : Session} {e : Env} {host : CString} {argv : List CString} {t n T : Nat} {i : Probe}
  {ip : SockaddrIn} {w w₀ : World}

theorem quiet_iff : quiet s e t = true ↔ ¬ Stops e s.dest.sinAddr s.icmp t := by
  have hall : ∀ i : Probe, i ∈ probes := by decide
  constructor
  · intro h hstop
    simp only [quiet, Bool.and_eq_true, List.all_eq_true, Bool.not_eq_true'] at h
    obtain ⟨⟨⟨⟨⟨hentered, hupdated⟩, hprobes⟩, hcolumns⟩, hfreed⟩, hcounted⟩ := h
    obtain ⟨i, d, hr, hd⟩ | ⟨hicmp, i, d, hr, hd⟩ | ⟨p, hp⟩ := hstop
    · simpa [columnQuiet, hr, fromDest, hd] using hcolumns i (hall i)
    · simpa [probeQuiet, hr, echoReply, hicmp, hd] using hprobes i (hall i)
    · cases p with
      | entered => simp [hp] at hentered
      | updated => simp [hp] at hupdated
      | sent i => simpa [probeQuiet, hp] using hprobes i (hall i)
      | recieved i => simpa [probeQuiet, hp] using hprobes i (hall i)
      | printed i => simpa [columnQuiet, hp] using hcolumns i (hall i)
      | freed => simp [hp] at hfreed
      | counted => simp [hp] at hcounted
  · intro h
    simp only [Stops, not_or, not_exists, not_and] at h
    obtain ⟨hdest, hreply, hhandler⟩ := h
    have hcolumn : ∀ i, (e.recvfrom t i).any (fromDest s) = false := fun i =>
      (Option.any_eq_false _ _).mpr fun d hr => by simpa [fromDest] using hdest i d hr
    have hprobe : ∀ i, (e.recvfrom t i).any (echoReply s) = false := fun i =>
      (Option.any_eq_false _ _).mpr fun d hr => by
        simpa [echoReply] using fun hicmp => hreply hicmp i d hr
    simp [quiet, probeQuiet, columnQuiet, hcolumn, hprobe, hhandler]

theorem mark_handler (p : Point) : mark (.handler p) = none := rfl

theorem mark_columnOut : mark (.print (columnOut e t i)) = some .column := by
  unfold columnOut
  cases e.recvfrom t i with
  | none => rfl
  | some d => cases hrep : repeats e t i <;> simp [mark]

theorem marks_hopEvents : (hopEvents s e t ip).filterMap mark = hopMarks t := by
  have hcolumn : ∀ i, (columnEvents e t i).filterMap mark =
      .column :: if i = 2 then [.newline] else [] := by
    intro i
    rw [filterMap_columnEvents mark_handler, mark_columnOut]
    rfl
  rw [filterMap_hopEvents mark_handler (fun _ _ => filterMap_probeEvents mark_handler rfl) hcolumn]
  rfl

theorem marks_log (hend : Ended s e (prologue s e host) T w) :
    marks w.log = (List.range T).flatMap fun k => hopMarks (k + 1) := by
  have hprologue : ∀ ev ∈ prologue s e host, mark ev = none := by
    intro ev hev
    obtain ⟨p, rfl⟩ | rfl | rfl | rfl := mem_prologue hev <;> rfl
  exact filterMap_log hend hprologue rfl fun _ _ => marks_hopEvents

theorem aliveAfter_iff : aliveAfter s e n = true ↔
    ¬ (e.handler .raised = true ∨ e.handler .built = true) ∧
      ∀ t, 1 ≤ t → t ≤ n → ¬ Stops e s.dest.sinAddr s.icmp t := by
  induction n with
  | zero =>
    have hnone : ∀ t, 1 ≤ t → t ≤ 0 → ¬ Stops e s.dest.sinAddr s.icmp t := fun t h h' => by omega
    simp only [aliveAfter, Bool.and_eq_true, Bool.not_eq_true', not_or, Bool.not_eq_true]
    exact ⟨fun h => ⟨h, hnone⟩, fun h => h.1⟩
  | succ n ih =>
    rw [aliveAfter, Bool.and_eq_true, ih, quiet_iff, and_assoc]
    apply and_congr_right
    intro _
    constructor
    · intro h t ht htn
      by_cases hlast : t = n + 1
      · exact hlast ▸ h.2
      · exact h.1 t ht (by omega)
    · intro h
      exact ⟨fun t ht htn => h t ht (Nat.le_succ_of_le htn), h (n + 1) (by omega) le_rfl⟩

theorem lastHop_of_ended (hend : Ended s e (prologue s e host) T w) :
    LastHop e s.dest.sinAddr s.icmp T where
  le := hend.le
  zero := hend.no_hop
  before t ht htT := by
    have halive := hend.alive t htT
    exact (aliveAfter_iff.mp halive).2 t ht le_rfl
  last hT := by
    apply hend.stop.imp id
    intro hdead
    obtain ⟨n, rfl⟩ := Nat.exists_eq_add_of_le' hT
    have halive := hend.alive n (Nat.lt_succ_self n)
    rw [aliveAfter, halive, Bool.true_and] at hdead
    by_contra hstop
    rw [quiet_iff.mpr hstop] at hdead
    cases hdead

/-- The loop performs the hops up to the last one the stop conditions allow, and
completes each of them. -/
theorem hops_performed (hp : parseDest e argv init = .ok w₀) (hfd : 0 ≤ e.socket) :
    ∃ w dest T, main e argv = .ok w ∧ w₀.data.networkIp = some dest ∧
      LastHop e dest.sinAddr w₀.data.icmpRoute T ∧
      marks w.log = (List.range T).flatMap fun k => hopMarks (k + 1) := by
  obtain ⟨s, host, hs⟩ := parseDest_ok hp
  obtain ⟨T, w, hmain, hend⟩ := main_ok hp hs hfd
  refine ⟨w, s.dest, T, hmain, hs.network, ?_, marks_log hend⟩
  rw [hs.held.icmp]
  exact lastHop_of_ended hend

theorem hops_performed_stray :
    ∃ w₀ w dest T, parseDest strayReply icmpArgs init = .ok w₀ ∧
      main strayReply icmpArgs = .ok w ∧ w₀.data.networkIp = some dest ∧
      LastHop strayReply dest.sinAddr w₀.data.icmpRoute T ∧
      marks w.log = (List.range T).flatMap fun k => hopMarks (k + 1) := by
  have hp : parseDest strayReply icmpArgs init = .ok _ := rfl
  obtain ⟨w, dest, T, h⟩ := hops_performed hp (by decide)
  exact ⟨_, w, dest, T, hp, h⟩

def Arrives (e : Env) (dest : InAddr) (t : Nat) : Prop :=
  ∃ i d, e.recvfrom t i = some d ∧ d.saddr = dest

def Answered (e : Env) (t : Nat) : Prop := ∃ i d, e.recvfrom t i = some d ∧ d.icmpType = 0

/-- Without signals, an ICMP run that stops early heard from the destination in its
last hop exactly if every echo reply came together with or after the destination. -/
theorem arrives_iff {dest : InAddr} (h : LastHop e dest true T)
    (hquiet : ∀ p, e.handler p = false) :
    (T < maxHops → Arrives e dest T) ↔
      ∀ t, 1 ≤ t → t < maxHops → Answered e t → ∃ t', 1 ≤ t' ∧ t' ≤ t ∧ Arrives e dest t' := by
  have hT : 1 ≤ T := by
    have hne : T ≠ 0 := fun hzero => by simpa [hquiet] using h.zero.mp hzero
    omega
  constructor
  · intro hearly t ht htmax hreply
    have hle : T ≤ t := by
      by_contra hlt
      exact h.before t ht (not_le.mp hlt) (.inr (.inl ⟨rfl, hreply⟩))
    exact ⟨T, hT, hle, hearly (lt_of_le_of_lt hle htmax)⟩
  · intro hreplies hearly
    obtain rfl | hdest | ⟨-, hreply⟩ | ⟨p, hp⟩ := h.last hT
    · exact absurd hearly (lt_irrefl _)
    · exact hdest
    · obtain ⟨t, ht, htT, harrives⟩ := hreplies T hT hearly hreply
      obtain rfl | hlt := Nat.eq_or_lt_of_le htT
      · exact harrives
      · exact absurd (.inl harrives) (h.before t ht hlt)
    · rw [hquiet] at hp
      cases hp

/-- A stop before the last hop is the destination's doing, exactly if no echo reply
comes in before the destination was heard from. -/
theorem early_stop_iff (hp : parseDest e argv init = .ok w₀) (hicmp : w₀.data.icmpRoute = true)
    (hfd : 0 ≤ e.socket) (hquiet : ∀ p, e.handler p = false) :
    ∃ w dest T, main e argv = .ok w ∧ w₀.data.networkIp = some dest ∧
      marks w.log = ((List.range T).flatMap fun k => hopMarks (k + 1)) ∧
      ((T < maxHops → ∃ i d, .recvfrom T i (some d) ∈ w.log ∧ d.saddr = dest.sinAddr) ↔
        ∀ t, 1 ≤ t → t < maxHops → Answered e t →
          ∃ t', 1 ≤ t' ∧ t' ≤ t ∧ Arrives e dest.sinAddr t') := by
  obtain ⟨s, host, hs⟩ := parseDest_ok hp
  obtain ⟨T, w, hmain, hend⟩ := main_ok hp hs hfd
  have hlast := lastHop_of_ended hend
  rw [← hs.held.icmp, hicmp] at hlast
  refine ⟨w, s.dest, T, hmain, hs.network, marks_log hend, ?_⟩
  rw [← arrives_iff hlast hquiet]
  refine imp_congr_right fun _ => exists_congr fun i => exists_congr fun d =>
    and_congr_left fun _ => ?_
  have hT := hend.hop_pos (by simp [hquiet])
  rw [recvfrom_mem_log hend]
  constructor
  · rintro ⟨k, -, -, hr⟩
    exact hr.symm
  · intro hr
    exact ⟨T - 1, by omega, by omega, hr.symm⟩

theorem early_stop_iff_stray :
    ∃ w dest T, main strayReply icmpArgs = .ok w ∧ some target = some dest ∧
      marks w.log = ((List.range T).flatMap fun k => hopMarks (k + 1)) ∧
      ((T < maxHops → ∃ i d, .recvfrom T i (some d) ∈ w.log ∧ d.saddr = dest.sinAddr) ↔
        ∀ t, 1 ≤ t → t < maxHops → Answered strayReply t →
          ∃ t', 1 ≤ t' ∧ t' ≤ t ∧ Arrives strayReply dest.sinAddr t') := by
  have hp : parseDest strayReply icmpArgs init = .ok _ := rfl
  exact early_stop_iff hp rfl (by decide) fun _ => rfl

/-- A stray echo reply of another host ends the run after its first hop. -/
theorem stray_reply_stops :
    ∃ w, main strayReply icmpArgs = .ok w ∧ marks w.log = hopMarks 1 ∧
      ∀ t i d, .recvfrom t i (some d) ∈ w.log → d.saddr = router ∧ router ≠ target.sinAddr := by
  have hp : parseDest strayReply icmpArgs init = .ok _ := rfl
  obtain ⟨s, host, hs⟩ := parseDest_ok hp
  obtain ⟨T, w, hmain, hend⟩ := main_ok hp hs (by decide)
  have hlast := lastHop_of_ended hend
  rw [← hs.held.icmp] at hlast
  have hpos := hend.hop_pos (by decide)
  have hone : ¬ 1 < T := fun hlt =>
    hlast.before 1 le_rfl hlt (.inr (.inl ⟨rfl, 0, _, rfl, rfl⟩))
  obtain rfl : T = 1 := by omega
  refine ⟨w, hmain, marks_log hend, ?_⟩
  intro t i d hrecv
  obtain ⟨k, -, -, hr⟩ := (recvfrom_mem_log hend).mp hrecv
  have hd : d = echoAnswer router 7 1 := by
    simp only [strayReply] at hr
    split at hr
    · exact Option.some.inj hr
    · cases hr
  exact ⟨by rw [hd]; rfl, by decide⟩

end FtTraceroute.Stop

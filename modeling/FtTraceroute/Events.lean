import FtTraceroute.Run

namespace FtTraceroute.Events

open Library.OwnedSlots
open Libft Header Inet Packet Parsing Main Script Columns Accept Run

variable {s : Session} {e : Env} {host : CString} {pre : List Event}
  {t t' n T : Nat} {ip : SockaddrIn}
  {i : Probe} {ev : Event} {buf : List UInt8} {dst : Option SockaddrIn} {ok : Bool}
  {r : Option Datagram} {xs : List Probe} {w : World}

@[simp] theorem mem_handled {p : Point} :
    ev ∈ handled e p ↔ e.handler p = true ∧ ev = .handler p := by
  cases h : e.handler p <;> simp [handled, h]

def before (i : Probe) : List Probe := probes.take i

theorem split_probes (i : Probe) : ∃ rest, before i ++ i :: rest = probes := by
  fin_cases i
  · exact ⟨[1, 2], rfl⟩
  · exact ⟨[2], rfl⟩
  · exact ⟨[], rfl⟩

theorem before_succ (hi : i ≠ 2) : before (i + 1) = before i ++ [i] := by
  revert i
  decide

theorem before_of_split {past rest : List Probe} (h : past ++ i :: rest = probes) :
    past = before i := by
  match past, h with
  | [], h => cases h; rfl
  | [_], h => cases h; rfl
  | [_, _], h => cases h; rfl
  | _ :: _ :: _ :: _, h => simp [probes] at h

theorem mem_probesEvents : ev ∈ probesEvents s e t ip xs ↔
    ∃ past i rest, past ++ i :: rest = xs ∧ ev ∈ probeEvents s e t (sender e t ip past) i := by
  induction xs generalizing ip with
  | nil => simp [probesEvents]
  | cons j xs ih =>
    rw [probesEvents, List.mem_append, ih]
    constructor
    · rintro (h | ⟨past, i, rest, rfl, h⟩)
      · exact ⟨[], j, xs, rfl, h⟩
      · exact ⟨j :: past, i, rest, rfl, h⟩
    · rintro ⟨past, i, rest, hsplit, h⟩
      cases past with
      | nil =>
        cases hsplit
        exact .inl h
      | cons k past =>
        cases hsplit
        exact .inr ⟨past, i, rest, rfl, h⟩

theorem mem_probesEvents_probes : ev ∈ probesEvents s e t ip probes ↔
    ∃ i, ev ∈ probeEvents s e t (sender e t ip (before i)) i := by
  rw [mem_probesEvents]
  constructor
  · rintro ⟨past, i, rest, hsplit, h⟩
    exact ⟨i, before_of_split hsplit ▸ h⟩
  · rintro ⟨i, h⟩
    obtain ⟨rest, hrest⟩ := split_probes i
    exact ⟨before i, i, rest, hrest, h⟩

theorem sendto_mem_probeEvents {j : Probe} :
    .sendto t' i buf dst ok ∈ probeEvents s e t ip j ↔
      t' = t ∧ i = j ∧ buf = s.packet t j ∧ dst = some ip ∧ ok = e.sendto t j := by
  cases hs : e.sendto t j <;> simp [probeEvents, sendEvents, hs]

theorem recvfrom_mem_probeEvents {j : Probe} :
    .recvfrom t' i r ∈ probeEvents s e t ip j ↔ t' = t ∧ i = j ∧ r = e.recvfrom t j := by
  cases hs : e.sendto t j <;> simp [probeEvents, sendEvents, hs]

theorem sendto_mem_hopEvents : .sendto t' i buf dst ok ∈ hopEvents s e t ip ↔
    t' = t ∧ buf = s.packet t i ∧ dst = some (sender e t ip (before i)) ∧ ok = e.sendto t i := by
  have hcolumns : Event.sendto t' i buf dst ok ∉ probes.flatMap (columnEvents e t) := by
    simp [columnEvents]
  simp only [hopEvents, headEvents, List.mem_append, hcolumns, mem_probesEvents_probes,
    sendto_mem_probeEvents]
  simp

theorem recvfrom_mem_hopEvents :
    .recvfrom t' i r ∈ hopEvents s e t ip ↔ t' = t ∧ r = e.recvfrom t i := by
  have hcolumns : Event.recvfrom t' i r ∉ probes.flatMap (columnEvents e t) := by
    simp [columnEvents]
  simp only [hopEvents, headEvents, List.mem_append, hcolumns, mem_probesEvents_probes,
    recvfrom_mem_probeEvents]
  simp

theorem mem_hopsEvents :
    ev ∈ hopsEvents s e n ↔ ∃ k < n, ev ∈ hopEvents s e (k + 1) (network s e k) := by
  simp [hopsEvents]

theorem sendto_mem_hopsEvents : .sendto t i buf dst ok ∈ hopsEvents s e n ↔
    ∃ k < n, t = k + 1 ∧ buf = s.packet t i ∧
      dst = some (sender e t (network s e k) (before i)) ∧ ok = e.sendto t i := by
  simp only [mem_hopsEvents, sendto_mem_hopEvents]
  constructor
  · rintro ⟨k, hk, rfl, h⟩
    exact ⟨k, hk, rfl, h⟩
  · rintro ⟨k, hk, rfl, h⟩
    exact ⟨k, hk, rfl, h⟩

theorem recvfrom_mem_hopsEvents : .recvfrom t i r ∈ hopsEvents s e n ↔
    ∃ k < n, t = k + 1 ∧ r = e.recvfrom t i := by
  simp only [mem_hopsEvents, recvfrom_mem_hopEvents]
  constructor
  · rintro ⟨k, hk, rfl, h⟩
    exact ⟨k, hk, rfl, h⟩
  · rintro ⟨k, hk, rfl, h⟩
    exact ⟨k, hk, rfl, h⟩

theorem sendto_mem_log (h : Ended s e (prologue s e host) T w) :
    .sendto t i buf dst ok ∈ w.log ↔ ∃ k < T, t = k + 1 ∧ buf = s.packet t i ∧
      dst = some (sender e t (network s e k) (before i)) ∧ ok = e.sendto t i := by
  rw [← sendto_mem_hopsEvents, h.log]
  simp [prologue]

theorem recvfrom_mem_log (h : Ended s e (prologue s e host) T w) :
    .recvfrom t i r ∈ w.log ↔ ∃ k < T, t = k + 1 ∧ r = e.recvfrom t i := by
  have hmem : .recvfrom t i r ∈ hopsEvents s e T ↔ ∃ k < T, t = k + 1 ∧ r = e.recvfrom t i :=
    recvfrom_mem_hopsEvents
  rw [← hmem, h.log]
  simp [prologue]

variable {α : Type} {f : Event → Option α} {g c : Probe → List α} {h : Nat → List α}

theorem filterMap_handled (hf : ∀ p, f (.handler p) = none) (p : Point) :
    (handled e p).filterMap f = [] := by
  cases hp : e.handler p <;> simp [handled, hp, hf]

theorem filterMap_event (l : List Event) :
    (ev :: l).filterMap f = (f ev).toList ++ l.filterMap f := by
  cases hev : f ev <;> simp [hev]

theorem filterMap_probeEvents (hf : ∀ p, f (.handler p) = none)
    (hfail : f (.print .notSent) = none) :
    (probeEvents s e t ip i).filterMap f =
      (f (.sendto t i (s.packet t i) (some ip) (e.sendto t i))).toList ++
        (f (.recvfrom t i (e.recvfrom t i))).toList := by
  have hsend : (sendEvents s e t ip i).filterMap f =
      (f (.sendto t i (s.packet t i) (some ip) (e.sendto t i))).toList := by
    rw [sendEvents, filterMap_event]
    cases e.sendto t i <;> simp [hfail]
  rw [probeEvents, List.filterMap_append, List.filterMap_append, filterMap_event, hsend,
    filterMap_handled hf, filterMap_handled hf, List.append_nil, List.append_nil]

theorem filterMap_columnEvents (hf : ∀ p, f (.handler p) = none) :
    (columnEvents e t i).filterMap f = (f (.print (columnOut e t i))).toList ++
      if i = 2 then (f (.print .newline)).toList else [] := by
  rw [columnEvents, List.cons_append, filterMap_event, List.filterMap_append, filterMap_handled hf,
    List.append_nil]
  by_cases hi : i = 2
  · rw [if_pos hi, if_pos hi, filterMap_event]
    simp
  · rw [if_neg hi, if_neg hi]
    rfl

theorem filterMap_probesEvents (hg : ∀ ip i, (probeEvents s e t ip i).filterMap f = g i) :
    (probesEvents s e t ip xs).filterMap f = xs.flatMap g := by
  induction xs generalizing ip with
  | nil => rfl
  | cons i xs ih => rw [probesEvents, List.filterMap_append, hg, ih, List.flatMap_cons]

theorem filterMap_headEvents (hf : ∀ p, f (.handler p) = none) :
    (headEvents e t).filterMap f = (f (.print (.ttl t))).toList := by
  rw [headEvents, List.filterMap_append, List.filterMap_append, filterMap_handled hf,
    filterMap_handled hf]
  rw [filterMap_event]
  simp

theorem filterMap_hopEvents (hf : ∀ p, f (.handler p) = none)
    (hg : ∀ ip i, (probeEvents s e t ip i).filterMap f = g i)
    (hc : ∀ i, (columnEvents e t i).filterMap f = c i) :
    (hopEvents s e t ip).filterMap f =
      (f (.print (.ttl t))).toList ++ probes.flatMap g ++ probes.flatMap c := by
  have hcolumns : (probes.flatMap (columnEvents e t)).filterMap f = probes.flatMap c := by
    rw [List.filterMap_flatMap]
    exact List.flatMap_congr fun i _ => hc i
  simp only [hopEvents, List.filterMap_append, filterMap_headEvents hf, filterMap_probesEvents hg,
    hcolumns, filterMap_handled hf, List.append_nil]

theorem filterMap_hopsEvents (hh : ∀ t ip, (hopEvents s e t ip).filterMap f = h t) :
    (hopsEvents s e n).filterMap f = (List.range n).flatMap fun k => h (k + 1) := by
  rw [hopsEvents, List.filterMap_flatMap]
  exact List.flatMap_congr fun k _ => hh (k + 1) _

/-- An observation of the log that does not see the handlers is put together from what
it sees of each hop. -/
theorem filterMap_log (hend : Ended s e (prologue s e host) T w)
    (hprologue : ∀ ev ∈ prologue s e host, f ev = none) (hfree : f .freeNetworkIp = none)
    (hh : ∀ t ip, (hopEvents s e t ip).filterMap f = h t) :
    w.log.filterMap f = (List.range T).flatMap fun k => h (k + 1) := by
  have hnil : (prologue s e host).filterMap f = [] := List.filterMap_eq_nil_iff.mpr hprologue
  rw [hend.log, List.filterMap_append, List.filterMap_append, hnil, filterMap_hopsEvents hh]
  simp [hfree]

theorem mem_prologue : ev ∈ prologue s e host → (∃ p, ev = .handler p) ∨ ev = .getaddrinfo host ∨
    ev = .socket ∨ ev = .print (.head (some host) (some (inetNtop s.dest.sinAddr)) maxHops
      (s.size + 28)) := by
  intro hev
  simp only [prologue, List.cons_append, List.mem_cons, List.mem_append, mem_handled,
    List.not_mem_nil, or_false] at hev
  obtain rfl | ((((((⟨-, rfl⟩ | rfl) | ⟨-, rfl⟩) | rfl) | ⟨-, rfl⟩) | ⟨-, rfl⟩) | ⟨-, rfl⟩) := hev
  all_goals simp

def sentBuffer : Event → Option (List UInt8)
  | .sendto _ _ buf _ _ => some buf
  | _ => none

/-- The buffers given to `sendto`, in order. -/
def sentBuffers (log : List Event) : List (List UInt8) := log.filterMap sentBuffer

theorem sentBuffers_log (hend : Ended s e (prologue s e host) T w) :
    sentBuffers w.log = (List.range T).flatMap fun k => probes.map (s.packet (k + 1)) := by
  have hprologue : ∀ ev ∈ prologue s e host, sentBuffer ev = none := by
    intro ev hev
    obtain ⟨p, rfl⟩ | rfl | rfl | rfl := mem_prologue hev <;> rfl
  have hhandler : ∀ p, sentBuffer (.handler p) = none := fun _ => rfl
  refine filterMap_log hend hprologue rfl (show ∀ t ip,
    (hopEvents s e t ip).filterMap sentBuffer = probes.map (s.packet t) from fun t ip => ?_)
  have hcolumn : ∀ i, (columnEvents e t i).filterMap sentBuffer = [] := by
    intro i
    rw [filterMap_columnEvents hhandler]
    split <;> rfl
  rw [filterMap_hopEvents hhandler (fun _ _ => filterMap_probeEvents hhandler rfl) hcolumn]
  rfl

end FtTraceroute.Events

import FtTraceroute.Library.Path
import FtTraceroute.Transcript

namespace FtTraceroute.Network

open Library.Loops Library.Path
open Libft Header Inet Send Packet Parsing Main Script Accept Run Events Replies Stop Text Decode
open Transcript

/-- A router looks at the hop limit and the destination of an IPv4 header, and takes one
off the limit. -/
def ipCarrier : Carrier InAddr Bytes where
  target p := ⟨p.getD 16 0, p.getD 17 0, p.getD 18 0, p.getD 19 0⟩
  limit p := (p.getD 8 0).toNat
  age p := p.set 8 (p.getD 8 0 - 1)
  target_age p := by simp
  limit_age p hp := by
    have hlt : 8 < p.length := by
      by_contra hle
      rw [List.getD_eq_default _ _ (not_lt.mp hle)] at hp
      exact absurd hp (by decide)
    have hone : (1 : UInt8) ≤ p.getD 8 0 := UInt8.le_iff_toNat_le.mpr hp.le
    rw [List.getD_eq_getElem _ _ (by simpa using hlt), List.getElem_set_self,
      UInt8.toNat_sub_of_le _ _ hone]
    rfl

/-- The type of the ICMP message with which the host that a datagram is for answers it:
port unreachable, or echo reply. -/
def answerType (p : Bytes) : Option UInt8 :=
  if p.getD 9 0 = 17 then some 3
  else if p.getD 9 0 = 1 ∧ p.getD 20 0 = 8 then some 0
  else none

/-- Whether `d` can come back for the datagram `sent`. What the ICMP message quotes, and
how, is left open. -/
def Reacts {dest : InAddr} (route : Route dest) (sent : Bytes) (d : Datagram) : Prop :=
  match forward ipCarrier route.nodes sent with
  | .expired node _ => d.saddr = node ∧ d.icmpType = 11
  | .delivered node p => d.saddr = node ∧ answerType p = some d.icmpType
  | .lost => False

/-- Each probe takes its own way: in the run that left `log`, each datagram received came
back for the datagram sent just before. Any of them may be lost, on the way there or back. -/
def Carried {dest : InAddr} (ways : Nat → Probe → Route dest) (log : List Event) : Prop :=
  ∀ t i buf dst ok d, .sendto t i buf dst ok ∈ log → .recvfrom t i (some d) ∈ log →
    ok = true ∧ Reacts (ways t i) buf d

variable {s : Session} {e : Env} {host : CString} {argv : List CString} {t T : Nat} {i : Probe}
  {d : Datagram} {w : World} {dest : InAddr} {route : Route dest} {ways : Nat → Probe → Route dest}

theorem getD_age {k : Nat} (hk : k ≠ 8) (n : Nat) (p : Bytes) :
    ((ipCarrier.age^[n]) p).getD k 0 = p.getD k 0 := by
  induction n with
  | zero => rfl
  | succ n ih =>
    rw [Function.iterate_succ_apply', ← ih]
    simp [ipCarrier, List.getD_eq_getElem?_getD, List.getElem?_set_ne (Ne.symm hk)]

theorem answerType_age (n : Nat) (p : Bytes) :
    answerType ((ipCarrier.age^[n]) p) = answerType p := by
  rw [answerType, getD_age (by decide), getD_age (by decide), answerType]

theorem target_packet (s : Session) (t : Nat) (i : Probe) :
    ipCarrier.target (s.packet t i) = s.dest.sinAddr := by
  simp [ipCarrier, Session.packet, ipHeader]

theorem limit_packet (s : Session) (ht : t ≤ maxHops) (i : Probe) :
    ipCarrier.limit (s.packet t i) = t := by
  have hlt : t < 256 := lt_of_le_of_lt ht (by decide)
  simp [ipCarrier, Session.packet, ipHeader, Nat.mod_eq_of_lt hlt]

theorem answerType_packet (s : Session) (t : Nat) (i : Probe) :
    answerType (s.packet t i) = some (if s.icmp then 0 else 3) := by
  cases h : s.icmp <;>
    simp [answerType, Session.packet, Session.protocol, ipHeader, h, Session.echo, echoHeader]

theorem reacts_packet (hdest : s.dest.sinAddr = dest) (hpos : 1 ≤ t) (ht : t ≤ maxHops)
    (i : Probe) : Reacts route (s.packet t i) d ↔ d.saddr = route.node t ∧
      d.icmpType = if t < route.distance then 11 else if s.icmp then 0 else 3 := by
  have htarget := (target_packet s t i).trans hdest
  have hlimit := limit_packet s ht i
  unfold Reacts
  by_cases hlt : t < route.distance
  · rw [forward_expired htarget (by omega) (by omega), hlimit, if_pos hlt]
  · have hnode := route.node_of_distance_le (not_lt.mp hlt)
    rw [forward_delivered htarget (by omega), if_neg hlt, hnode]
    dsimp only
    rw [answerType_age, answerType_packet, Option.some_inj]
    exact and_congr_right fun _ => eq_comm

theorem ended_of_main (h : main e argv = .ok w) : ∃ w₀ s host T, parseDest e argv init = .ok w₀ ∧
    Parsed e s host w₀ ∧ Ended s e (prologue s e host) T w := by
  obtain ⟨v, hstart, -⟩ := bind_eq_ok.mp h
  obtain ⟨w₀, hp, hfd⟩ := start_inv hstart
  obtain ⟨s, host, hs⟩ := parseDest_ok hp
  obtain ⟨T, u, hmain, hend⟩ := main_ok hp hs hfd
  rw [h] at hmain
  cases hmain
  exact ⟨w₀, s, host, T, hp, hs, hend⟩

theorem recvfrom_eq_iff (hend : Ended s e (prologue s e host) T w) (hpos : 1 ≤ t) (ht : t ≤ T) :
    e.recvfrom t i = some d ↔ .recvfrom t i (some d) ∈ w.log := by
  rw [recvfrom_mem_log hend]
  constructor
  · intro hr
    exact ⟨t - 1, by omega, by omega, hr.symm⟩
  · rintro ⟨k, -, -, hr⟩
    exact hr.symm

def source (readings : List Reading) : Option InAddr :=
  readings.findSome? fun reading => reading.map Prod.fst

def sources (trace : Trace) : List (Option InAddr) := trace.hops.map fun hop => source hop.2

section Run

variable (hend : Ended s e (prologue s e host) T w) (hcarried : Carried ways w.log)
  (hdest : s.dest.sinAddr = dest)
include hend hcarried hdest

/-- A datagram received at hop `t` comes from the `t`-th node of its way. -/
theorem received_at (hrecv : .recvfrom t i (some d) ∈ w.log) : 1 ≤ t ∧ t ≤ T ∧
    d.saddr = (ways t i).node t ∧
      d.icmpType = if t < (ways t i).distance then 11 else if s.icmp then 0 else 3 := by
  obtain ⟨k, hk, rfl, -⟩ := (recvfrom_mem_log hend).mp hrecv
  have hsend := (sendto_mem_log hend).mpr
    ⟨k, hk, rfl, rfl, rfl, (rfl : e.sendto (k + 1) i = e.sendto (k + 1) i)⟩
  obtain ⟨-, hreacts⟩ := hcarried _ _ _ _ _ _ hsend hrecv
  have hmax : k + 1 ≤ maxHops := le_trans hk hend.le
  have hanswer := (reacts_packet hdest (Nat.succ_pos k) hmax i).mp hreacts
  exact ⟨Nat.succ_pos k, hk, hanswer⟩

theorem stops_iff (hpos : 1 ≤ t) (ht : t ≤ T) : Stops e s.dest.sinAddr s.icmp t ↔
    (∃ i d, .recvfrom t i (some d) ∈ w.log ∧ (ways t i).distance ≤ t) ∨
      ∃ p, e.handler (.hop t p) = true := by
  have hmem : ∀ i d, e.recvfrom t i = some d ↔ .recvfrom t i (some d) ∈ w.log :=
    fun i d => recvfrom_eq_iff hend hpos ht
  unfold Stops
  rw [← or_assoc]
  apply or_congr_left
  constructor
  · rintro (⟨i, d, hr, hd⟩ | ⟨hicmp, i, d, hr, hd⟩)
    · have hrecv := (hmem i d).mp hr
      obtain ⟨-, -, hnode, -⟩ := received_at hend hcarried hdest hrecv
      refine ⟨i, d, hrecv, ((ways t i).node_eq_dest_iff hpos).mp ?_⟩
      rw [← hnode, hd, hdest]
    · have hrecv := (hmem i d).mp hr
      obtain ⟨-, -, -, htype⟩ := received_at hend hcarried hdest hrecv
      refine ⟨i, d, hrecv, not_lt.mp fun hlt => ?_⟩
      rw [if_pos hlt, hd] at htype
      exact absurd htype (by decide)
  · rintro ⟨i, d, hrecv, hle⟩
    obtain ⟨-, -, hnode, -⟩ := received_at hend hcarried hdest hrecv
    refine .inl ⟨i, d, (hmem i d).mpr hrecv, ?_⟩
    rw [hnode, hdest, (ways t i).node_of_distance_le hle]

/-- What a column of the output names is the node of its probe's way. -/
theorem outcome_on_way (hpos : 1 ≤ t) (ht : t ≤ T) {a : InAddr} {time : List UInt8}
    (h : outcome e t i = some (a, time)) : a = (ways t i).node t := by
  obtain ⟨d, hr, hd⟩ := Option.map_eq_some_iff.mp h
  have hrecv := (recvfrom_eq_iff hend hpos ht).mp hr
  obtain ⟨-, -, hnode, -⟩ := received_at hend hcarried hdest hrecv
  cases hd
  exact hnode

end Run

theorem mark_eq_hop {ev : Event} : mark ev = some (.hop t) ↔ ev = .print (.ttl t) := by
  constructor
  · intro h
    unfold mark at h
    split at h <;> simp_all
  · rintro rfl
    rfl

theorem ttl_mem_log (hend : Ended s e (prologue s e host) T w) :
    .print (.ttl t) ∈ w.log ↔ 1 ≤ t ∧ t ≤ T := by
  have hmem : .print (.ttl t) ∈ w.log ↔ Mark.hop t ∈ marks w.log := by
    simp [marks, List.mem_filterMap, mark_eq_hop]
  rw [hmem, marks_log hend]
  simp only [List.mem_flatMap, List.mem_range, hopMarks, List.mem_cons, Mark.hop.injEq,
    reduceCtorEq,
    List.not_mem_nil, or_false]
  constructor
  · rintro ⟨k, hk, rfl⟩
    exact ⟨Nat.succ_pos k, hk⟩
  · rintro ⟨hpos, ht⟩
    exact ⟨t - 1, by omega, by omega⟩

def lookedUp : Event → Option CString
  | .getaddrinfo arg => some arg
  | _ => none

theorem getaddrinfo_mem_log {arg : CString} (hend : Ended s e (prologue s e host) T w) :
    .getaddrinfo arg ∈ w.log ↔ arg = host := by
  have hhandler : ∀ p, lookedUp (.handler p) = none := fun _ => rfl
  have hcolumn : ∀ t i, (columnEvents e t i).filterMap lookedUp = [] := by
    intro t i
    rw [filterMap_columnEvents hhandler]
    split <;> rfl
  have hhop : ∀ t ip, (hopEvents s e t ip).filterMap lookedUp = [] := by
    intro t ip
    rw [filterMap_hopEvents hhandler (fun _ _ => filterMap_probeEvents hhandler rfl) (hcolumn t)]
    rfl
  have hnone : (hopsEvents s e T).filterMap lookedUp = [] := by
    rw [filterMap_hopsEvents hhop, List.flatMap_eq_nil_iff]
    exact fun _ _ => rfl
  have hhops : Event.getaddrinfo arg ∉ hopsEvents s e T := fun hmem =>
    absurd (List.filterMap_eq_nil_iff.mp hnone _ hmem) (by simp [lookedUp])
  simp [hend.log, hhops, prologue]

theorem source_hop (hend : Ended s e (prologue s e host) T w)
    (hcarried : Carried (fun _ _ => route) w.log) (hdest : s.dest.sinAddr = dest)
    (hrecv : .recvfrom t i (some d) ∈ w.log) :
    source (probes.map (outcome e t)) = some (route.node t) := by
  obtain ⟨hpos, ht, -, -⟩ := received_at hend hcarried hdest hrecv
  have hall : ∀ i : Probe, i ∈ probes := by decide
  have hanswered : (source (probes.map (outcome e t))).isSome := by
    have hr := (recvfrom_eq_iff hend hpos ht).mpr hrecv
    rw [source, List.findSome?_isSome_iff]
    exact ⟨outcome e t i, List.mem_map_of_mem (hall i), by rw [outcome, hr]; rfl⟩
  obtain ⟨a, ha⟩ := Option.isSome_iff_exists.mp hanswered
  obtain ⟨reading, hmem, hreading⟩ := List.exists_of_findSome?_eq_some ha
  obtain ⟨j, -, rfl⟩ := List.mem_map.mp hmem
  obtain ⟨⟨b, time⟩, houtcome, rfl⟩ := Option.map_eq_some_iff.mp hreading
  rw [ha, ← outcome_on_way hend hcarried hdest hpos ht houtcome]

theorem length_quoting (sent : Bytes) :
    ([3, 3, 0, 0, 0, 0, 0, 0] ++ sent.take 28).length ≤ 1000 := by
  rw [List.length_append, List.length_take]
  change 8 + _ ≤ 1000
  omega

def unreachable (src : InAddr) (sent : Bytes) : Datagram :=
  reply src ([3, 3, 0, 0, 0, 0, 0, 0] ++ sent.take 28) (length_quoting sent)

def answer (s : Session) {dest : InAddr} (route : Route dest) (t : Nat) (i : Probe) : Datagram :=
  if t < route.distance then timeExceeded (route.node t) (s.packet t i)
  else if s.icmp then echoAnswer dest 0 1
  else unreachable dest (s.packet t i)

theorem answer_spec (t : Nat) (i : Probe) : (answer s route t i).saddr = route.node t ∧
    (answer s route t i).icmpType = if t < route.distance then 11 else if s.icmp then 0 else 3 := by
  unfold answer
  split
  · exact ⟨rfl, rfl⟩
  · next hge =>
    rw [route.node_of_distance_le (not_lt.mp hge)]
    split <;> exact ⟨rfl, rfl⟩

def answering (s : Session) {dest : InAddr} (route : Route dest) : Env :=
  { silent s.dest with recvfrom := fun t i => some (answer s route t i) }

theorem carried_answering (hdest : s.dest.sinAddr = dest)
    (hend : Ended s (answering s route) (prologue s (answering s route) host) T w) :
    Carried (fun _ _ => route) w.log := by
  intro t i buf dst ok d hsend hrecv
  obtain ⟨k, hk, rfl, rfl, -, rfl⟩ := (sendto_mem_log hend).mp hsend
  have hmax : k + 1 ≤ maxHops := le_trans hk hend.le
  have hr : some (answer s route (k + 1) i) = some d :=
    (recvfrom_eq_iff hend (Nat.succ_pos k) hk).mpr hrecv
  refine ⟨rfl, (reacts_packet hdest (Nat.succ_pos k) hmax i).mpr ?_⟩
  rw [← Option.some.inj hr]
  exact answer_spec (k + 1) i

theorem answered_answering
    (hend : Ended s (answering s route) (prologue s (answering s route) host) T w)
    (hmem : .print (.ttl t) ∈ w.log) : ∃ i d, .recvfrom t i (some d) ∈ w.log := by
  obtain ⟨hpos, ht⟩ := (ttl_mem_log hend).mp hmem
  exact ⟨0, answer s route t 0, (recvfrom_eq_iff hend hpos ht).mp rfl⟩

theorem size_echoes : 32 + 28 ≤ maxPacketSize := by decide

def echoes : Session := ⟨target, true, 32, size_echoes⟩

def twoNodes : Route target.sinAddr := ⟨[router], by decide⟩

theorem main_answering (route : Route target.sinAddr) : ∃ T w,
    main (answering echoes route) icmpArgs = .ok w ∧
      Ended echoes (answering echoes route)
        (prologue echoes (answering echoes route) (argAt icmpArgs 2)) T w := by
  obtain ⟨w₀, hp, hs⟩ : ∃ w₀, parseDest (answering echoes route) icmpArgs init = .ok w₀ ∧
      Parsed (answering echoes route) echoes (argAt icmpArgs 2) w₀ :=
    ⟨_, rfl, rfl, ⟨rfl, rfl, rfl⟩, rfl, rfl, rfl, rfl, rfl⟩
  have hfd : (0 : Int) ≤ 3 := by decide
  exact main_ok hp hs hfd

theorem named_answering : Named (answering s route) := fun _ _ _ _ h => by cases h

theorem lineFeed_notMem_host {arg : CString}
    (hend : Ended s e (prologue s e (argAt icmpArgs 2)) T w)
    (h : .getaddrinfo arg ∈ w.log) : 10 ∉ arg.bytes := by
  rw [(getaddrinfo_mem_log hend).mp h]
  decide

end FtTraceroute.Network

import FtTraceroute.Events
import FtTraceroute.Library.Fifo
import FtTraceroute.Replies

namespace FtTraceroute.Matching

open Library.OwnedSlots Library.Fifo
open Libft Header Inet Packet Parsing Send Recieve Main
open Script Probes Columns Accept Run Events Replies

/-- The raw socket is a queue. `arrivals k` comes in after the receive before the
`k`-th of the run, and before the `k`-th returns. -/
def fed (arrivals : Nat → List Datagram) (e : Env) : Env :=
  { e with recvfrom := fun t i => served arrivals (3 * (t - 1) + i) }

def credit : Event → Option Datagram
  | .recvfrom _ _ reply => reply
  | _ => none

def credited (log : List Event) : List Datagram := log.filterMap credit

variable {arrivals : Nat → List Datagram} {s : Session} {e : Env} {host : CString}
  {argv : List CString} {t n : Nat} {i : Probe} {ip : SockaddrIn} {xs : List Probe}
  {w w₁ w₂ : World}

theorem credit_handler (p : Point) : credit (.handler p) = none := rfl

theorem credited_probesEvents :
    (probesEvents s e t ip xs).filterMap credit = xs.filterMap (e.recvfrom t) := by
  rw [filterMap_probesEvents fun _ _ => filterMap_probeEvents credit_handler rfl,
    List.filterMap_eq_flatMap_toList]
  rfl

theorem credited_hopEvents :
    (hopEvents s e t ip).filterMap credit = probes.filterMap (e.recvfrom t) := by
  have hcolumn : ∀ i, (columnEvents e t i).filterMap credit = [] := by
    intro i
    rw [filterMap_columnEvents credit_handler]
    split <;> rfl
  rw [filterMap_hopEvents credit_handler (fun _ _ => filterMap_probeEvents credit_handler rfl)
    hcolumn, List.filterMap_eq_flatMap_toList]
  change (probes.flatMap fun i => (e.recvfrom t i).toList) ++ _ = _
  simp

theorem before_indices (n : Nat) (i : Probe) :
    (before i).map (fun j : Probe => n + j.val) = List.range' n i := by
  fin_cases i <;> simp [before, probes, List.range'_succ]

theorem probes_indices (n : Nat) : probes.map (fun j : Probe => n + j.val) = List.range' n 3 := by
  simp [probes, List.range'_succ]

theorem range_append_range' (n k : Nat) : List.range n ++ List.range' n k = List.range (n + k) := by
  rw [List.range_eq_range', List.range_eq_range']
  have h := @List.range'_append_1 0 n k
  rwa [Nat.zero_add] at h

theorem credited_hopsEvents :
    (hopsEvents s (fed arrivals e) n).filterMap credit =
      (List.range (3 * n)).filterMap (served arrivals) := by
  induction n with
  | zero => rfl
  | succ n ih =>
    have hhop : (fed arrivals e).recvfrom (n + 1) =
        served arrivals ∘ fun j : Probe => 3 * n + j.val := by
      funext j
      rfl
    rw [hopsEvents_succ, List.filterMap_append, ih, credited_hopEvents, hhop, ← List.filterMap_map,
      probes_indices, ← List.filterMap_append, range_append_range', Nat.mul_succ]

theorem credited_probe (s : Session) (e : Env) (host : CString) (n : Nat) (ip : SockaddrIn)
    (i : Probe) :
    (prologue s (fed arrivals e) host ++ hopsEvents s (fed arrivals e) n ++
        headEvents (fed arrivals e) (n + 1) ++
        probesEvents s (fed arrivals e) (n + 1) ip (before i)).filterMap credit ++
      (served arrivals (3 * n + i)).toList =
      (List.range (3 * n + i + 1)).filterMap (served arrivals) := by
  have hprologue : (prologue s (fed arrivals e) host).filterMap credit = [] := by
    apply List.filterMap_eq_nil_iff.mpr
    intro ev hev
    obtain ⟨p, rfl⟩ | rfl | rfl | rfl := mem_prologue hev <;> rfl
  have htitle : (headEvents (fed arrivals e) (n + 1)).filterMap credit = [] :=
    filterMap_headEvents credit_handler
  have hhop : (fed arrivals e).recvfrom (n + 1) =
      served arrivals ∘ fun j : Probe => 3 * n + j.val := by
    funext j
    rfl
  have hlast : (served arrivals (3 * n + i)).toList =
      [3 * n + i.val].filterMap (served arrivals) := by
    cases h : served arrivals (3 * n + i) <;> simp [h]
  simp only [List.filterMap_append, hprologue, htitle, credited_hopsEvents, credited_probesEvents,
    List.nil_append, List.append_nil]
  rw [hhop, ← List.filterMap_map, before_indices, ← List.filterMap_append, range_append_range',
    hlast, ← List.filterMap_append, ← List.range_succ]

/-- `recieve_packet` credits the probe with the oldest datagram not yet read, whatever
elicited it. None is credited twice, and none is passed over. -/
theorem credits_oldest (h : AtProbe (fed arrivals e) argv i w)
    (hsend : sendPacket (fed arrivals e) i w = .ok w₁)
    (hrec : recievePacket (fed arrivals e) i
      (deliver (fed arrivals e) (.hop w.data.ttl (.sent i)) w₁) = (true, w₂)) :
    ∃ sent dst ok p, .sendto w.data.ttl i sent dst ok ∈ w₁.log ∧
      val w₂.mem (.retpack i) = some p ∧
      (queue arrivals (3 * (w.data.ttl - 1) + i)).head?.map Datagram.toBlock = some p ∧
      (elicited sent p = true ↔ ∃ d, (queue arrivals (3 * (w.data.ttl - 1) + i)).head? = some d ∧
        elicited sent d.toBlock = true) ∧
      credited w₂.log <+: (List.range (3 * (w.data.ttl - 1) + i + 1)).flatMap arrivals := by
  have ⟨_, _, _, hhead, _⟩ := h
  obtain ⟨w₀, s, host, hp, hs⟩ := parsed_of_atHead hhead
  obtain ⟨n, past, rest, a, -, hsplit, hsending⟩ := atProbe_ok hp hs h
  rw [before_of_split hsplit] at hsending
  rw [sendPacket_ok hsending.toInHop hsending.network] at hsend
  cases hsend
  have httl := hsending.ttl
  have hcount : 3 * (w.data.ttl - 1) + i.val = 3 * n + i := by rw [httl, Nat.add_sub_cancel]
  rw [hcount, httl]
  rw [httl, deliver_eq] at hrec
  cases hr : (fed arrivals e).recvfrom (n + 1) i with
  | none =>
    rw [recievePacket_none (by exact httl) hr] at hrec
    cases hrec
  | some d =>
    rw [recievePacket_some s (by exact httl) (by exact hsending.held.icmp) hr] at hrec
    cases hrec
    have hhead : (queue arrivals (3 * n + i)).head? = some d := hr
    let ip := sender (fed arrivals e) (n + 1) (network s (fed arrivals e) n) (before i)
    refine ⟨s.packet (n + 1) i, some ip, (fed arrivals e).sendto (n + 1) i, d.toBlock,
      ?_, ?_, ?_, ?_, ?_⟩
    · exact List.mem_append_right _ List.mem_cons_self
    · simp
    · rw [hhead]
      rfl
    · simp [hhead]
    · refine List.IsPrefix.trans ?_ (served_isPrefix arrivals (3 * n + i + 1))
      rw [← credited_probe s e host n (network s (fed arrivals e) n) i, ← hsending.log, served,
        hhead]
      have hsent : (sendEvents s (fed arrivals e) (n + 1) ip i).filterMap credit = [] := by
        rw [sendEvents, filterMap_event]
        cases (fed arrivals e).sendto (n + 1) i <;> rfl
      change (w.log ++ _ ++ _ ++ [_]).filterMap credit <+: _
      rw [List.filterMap_append, List.filterMap_append, List.filterMap_append, hsent,
        filterMap_handled credit_handler, List.append_nil, List.append_nil]
      exact List.prefix_rfl

def udpSession : Session := ⟨target, false, 32, by decide⟩

def late : Nat → List Datagram :=
  fun k => if k = 1 then [timeExceeded router (udpSession.packet 1 0)] else []

theorem late_second_probe :
    ∃ w w₁ w₂, AtProbe (fed late (silent target)) udpArgs 1 w ∧ w.data.ttl = 1 ∧
      sendPacket (fed late (silent target)) 1 w = .ok w₁ ∧
      .sendto 1 1 (udpSession.packet 1 1) (some target) true ∈ w₁.log ∧
      recievePacket (fed late (silent target)) 1
        (deliver (fed late (silent target)) (.hop w.data.ttl (.sent 1)) w₁) = (true, w₂) ∧
      val w₂.mem (.retpack 1) = some (timeExceeded router (udpSession.packet 1 0)).toBlock := by
  obtain ⟨w₀, hp, hs⟩ : ∃ w₀, parseDest (fed late (silent target)) udpArgs init = .ok w₀ ∧
      Parsed (fed late (silent target)) udpSession ⟨ascii "host", by decide⟩ w₀ :=
    ⟨_, rfl, rfl, ⟨rfl, rfl, rfl⟩, rfl, rfl, rfl, rfl, rfl⟩
  have halive : aliveAfter udpSession (fed late (silent target)) 0 = true := rfl
  obtain ⟨w, a, hw, hsending⟩ := exists_atProbe hp hs (by decide)
    (performed_succ (by decide) halive) (split_probes 1)
  obtain ⟨w₁, hsend, hsent, httl, hicmp⟩ : ∃ w₁,
      sendPacket (fed late (silent target)) 1 w = .ok w₁ ∧
      .sendto 1 1 (udpSession.packet 1 1) (some target) true ∈ w₁.log ∧
      w₁.data.ttl = 1 ∧ w₁.data.icmpRoute = udpSession.icmp :=
    ⟨_, sendPacket_ok hsending.toInHop hsending.network 1,
      List.mem_append_right _ List.mem_cons_self, hsending.ttl, hsending.held.icmp⟩
  have hr : (fed late (silent target)).recvfrom 1 1 =
    some (timeExceeded router (udpSession.packet 1 0)) := rfl
  exact ⟨w, w₁, _, hw, hsending.ttl, hsend, hsent,
    recievePacket_some udpSession (by rwa [deliver_eq]) (by rwa [deliver_eq]) hr, by simp⟩

theorem credits_oldest_late :
    ∃ w w₁ w₂ : World, recievePacket (fed late (silent target)) 1
        (deliver (fed late (silent target)) (.hop w.data.ttl (.sent 1)) w₁) = (true, w₂) ∧
      ∃ sent dst ok p, .sendto w.data.ttl 1 sent dst ok ∈ w₁.log ∧
        val w₂.mem (.retpack 1) = some p ∧
        (queue late (3 * (w.data.ttl - 1) + 1)).head?.map Datagram.toBlock = some p ∧
        (elicited sent p = true ↔ ∃ d, (queue late (3 * (w.data.ttl - 1) + 1)).head? = some d ∧
          elicited sent d.toBlock = true) ∧
        credited w₂.log <+: (List.range (3 * (w.data.ttl - 1) + 1 + 1)).flatMap late := by
  obtain ⟨w, w₁, w₂, hw, -, hsend, -, hrec, -⟩ := late_second_probe
  exact ⟨w, w₁, w₂, hrec, credits_oldest hw hsend hrec⟩

/-- The second probe is credited with the answer to the first. -/
theorem late_reply_credited :
    ∃ w w₁ w₂ sent p, AtProbe (fed late (silent target)) udpArgs 1 w ∧ w.data.ttl = 1 ∧
      sendPacket (fed late (silent target)) 1 w = .ok w₁ ∧
      .sendto 1 1 sent (some target) true ∈ w₁.log ∧
      recievePacket (fed late (silent target)) 1
        (deliver (fed late (silent target)) (.hop w.data.ttl (.sent 1)) w₁) = (true, w₂) ∧
      val w₂.mem (.retpack 1) = some p ∧ elicited sent p = false ∧
      elicited (udpSession.packet 1 0) p = true := by
  obtain ⟨w, w₁, w₂, hw, httl, hsend, hsent, hrec, hval⟩ := late_second_probe
  exact ⟨w, w₁, w₂, _, _, hw, httl, hsend, hsent, hrec, hval, by decide +kernel, by decide +kernel⟩

end FtTraceroute.Matching

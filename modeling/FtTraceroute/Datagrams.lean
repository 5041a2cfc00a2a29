import FtTraceroute.Stop

namespace FtTraceroute.Datagrams

open Library.OwnedSlots Library.Wire
open Libft Header Packet Parsing Send Main Script Accept Run Events Layout
open Replies Stop

variable {s : Session} {e : Env} {host : CString} {argv : List CString} {w w₀ : World}

theorem flatMap_ports (T : Nat) :
    ((List.range T).flatMap fun k => probes.map fun i : Probe => 33434 + 3 * k + i.val) =
      List.range' 33434 (3 * T) := by
  induction T with
  | zero => rfl
  | succ T ih =>
    have hthree : (probes.map fun i : Probe => 33434 + 3 * T + i.val) =
        List.range' (33434 + 3 * T) 3 := by
      simp [probes, List.range'_succ]
    rw [List.range_succ, List.flatMap_append, ih, List.flatMap_singleton, hthree,
      List.range'_append_1, Nat.mul_succ]

theorem nodup_field {T : Nat} (hend : Ended s e (prologue s e host) T w)
    {field : Bytes → Nat}
    (hfield : ∀ t ≤ maxHops, ∀ i, field (s.packet t i) = 33434 + 3 * (t - 1) + i) :
    ((sentBuffers w.log).map field).Nodup := by
  have hports : (sentBuffers w.log).map field = List.range' 33434 (3 * T) := by
    rw [sentBuffers_log hend, List.map_flatMap, ← flatMap_ports]
    apply List.flatMap_congr
    intro k hk
    rw [List.map_map]
    apply List.map_congr_left
    intro i _
    exact hfield (k + 1) (Nat.succ_le_of_lt (lt_of_lt_of_le (List.mem_range.mp hk) hend.le)) i
  rw [hports]
  exact List.nodup_range'

theorem sends_iff {T : Nat} (hend : Ended s e (prologue s e host) T w) (t : Nat) (i : Probe) :
    1 ≤ t ∧ t ≤ T ↔ ∃ buf dst ok, .sendto t i buf dst ok ∈ w.log := by
  constructor
  · rintro ⟨hone, hle⟩
    obtain ⟨k, rfl⟩ := Nat.exists_eq_add_of_le' hone
    exact ⟨_, _, _, (sendto_mem_log hend).mpr ⟨k, hle, rfl, rfl, rfl, rfl⟩⟩
  · rintro ⟨buf, dst, ok, hsend⟩
    obtain ⟨k, hk, rfl, -⟩ := (sendto_mem_log hend).mp hsend
    exact ⟨Nat.succ_pos k, hk⟩

/-- In UDP mode every hop up to the last one sends its three datagrams, every datagram
follows one formula, and no two of them share a port. -/
theorem udp_formula (hp : parseDest e argv init = .ok w₀) (hudp : w₀.data.icmpRoute = false)
    (hfd : 0 ≤ e.socket) :
    ∃ w dest T, main e argv = .ok w ∧ w₀.data.networkIp = some dest ∧
      LastHop e dest.sinAddr false T ∧
      (∀ t i, 1 ≤ t ∧ t ≤ T ↔ ∃ buf dst ok, .sendto t i buf dst ok ∈ w.log) ∧
      (∀ t i buf dst ok, .sendto t i buf dst ok ∈ w.log →
        UdpProbe dest.sinAddr w₀.data.totalSize t (33434 + 3 * (t - 1) + i) buf) ∧
      ((sentBuffers w.log).map (be16 · 20)).Nodup ∧ ((sentBuffers w.log).map (be16 · 22)).Nodup := by
  obtain ⟨s, host, hs⟩ := parseDest_ok hp
  obtain ⟨T, w, hmain, hend⟩ := main_ok hp hs hfd
  have hsession : s.icmp = false := hs.held.icmp.symm.trans hudp
  refine ⟨w, s.dest, T, hmain, hs.network, ?_, sends_iff hend, ?_, ?_, ?_⟩
  · rw [← hsession]
    exact lastHop_of_ended hend
  · intro t i buf dst ok hsend
    obtain ⟨k, hk, rfl, rfl, -, -⟩ := (sendto_mem_log hend).mp hsend
    rw [hs.held.total]
    exact udpProbe_packet s hsession (Nat.succ_le_of_lt (lt_of_lt_of_le hk hend.le)) i
  · exact nodup_field hend fun t ht i => (ports_packet s hsession ht i).1
  · exact nodup_field hend fun t ht i => (ports_packet s hsession ht i).2

theorem udp_formula_router :
    ∃ w₀ w dest T, parseDest firstRouter udpArgs init = .ok w₀ ∧
      main firstRouter udpArgs = .ok w ∧ w₀.data.networkIp = some dest ∧
      LastHop firstRouter dest.sinAddr false T ∧
      (∀ t i, 1 ≤ t ∧ t ≤ T ↔ ∃ buf dst ok, .sendto t i buf dst ok ∈ w.log) ∧
      (∀ t i buf dst ok, .sendto t i buf dst ok ∈ w.log →
        UdpProbe dest.sinAddr w₀.data.totalSize t (33434 + 3 * (t - 1) + i) buf) ∧
      ((sentBuffers w.log).map (be16 · 20)).Nodup ∧ ((sentBuffers w.log).map (be16 · 22)).Nodup := by
  have hp : parseDest firstRouter udpArgs init = .ok _ := rfl
  obtain ⟨w, dest, T, h, hrest⟩ := udp_formula hp rfl (by decide)
  exact ⟨_, w, dest, T, hp, h, hrest⟩

theorem sendpack_valid (hicmp : s.icmp = true) (hp : parseDest e argv init = .ok w₀)
    (hs : Parsed e s host w₀) (h : AtLoop e argv w ∨ AtHead e argv w) (i : Probe) :
    ∃ p, val w.mem (.sendpack i) = some p ∧ ValidMessage (p.drop 20) := by
  have hvalid : ∀ t, ValidMessage ((s.packet t i).drop 20) := fun t => by
    rw [drop_packet s hicmp]
    exact echo_validMessage s 1
  obtain h | h := h
  · obtain ⟨n, -, hn⟩ := atLoop_ok hp hs h
    exact ⟨_, hn.sendpack i, hvalid _⟩
  · obtain ⟨n, -, hn⟩ := atHead_ok hp hs h
    exact ⟨_, hn.sendpack i, hvalid _⟩

/-- In ICMP mode every hop up to the last one sends its three messages, and every message
has a valid checksum, in memory and on the wire. -/
theorem echo_checksums (hp : parseDest e argv init = .ok w₀) (hicmp : w₀.data.icmpRoute = true)
    (hfd : 0 ≤ e.socket) :
    ∃ w dest T, main e argv = .ok w ∧ w₀.data.networkIp = some dest ∧
      LastHop e dest.sinAddr true T ∧
      (∀ t i, 1 ≤ t ∧ t ≤ T ↔ ∃ buf dst ok, .sendto t i buf dst ok ∈ w.log) ∧
      (∀ t i buf dst ok, .sendto t i buf dst ok ∈ w.log →
        buf.length = w₀.data.totalSize ∧ ValidMessage (buf.drop 20)) ∧
      ∀ v i, AtLoop e argv v ∨ AtHead e argv v →
        ∃ p, val v.mem (.sendpack i) = some p ∧ ValidMessage (p.drop 20) := by
  obtain ⟨s, host, hs⟩ := parseDest_ok hp
  obtain ⟨T, w, hmain, hend⟩ := main_ok hp hs hfd
  have hsession : s.icmp = true := hs.held.icmp.symm.trans hicmp
  refine ⟨w, s.dest, T, hmain, hs.network, ?_, sends_iff hend, ?_,
    fun v i h => sendpack_valid hsession hp hs h i⟩
  · rw [← hsession]
    exact lastHop_of_ended hend
  · intro t i buf dst ok hsend
    obtain ⟨k, -, -, rfl, -, -⟩ := (sendto_mem_log hend).mp hsend
    refine ⟨(s.length_packet t i).trans hs.held.total.symm, ?_⟩
    rw [drop_packet s hsession]
    exact echo_validMessage s 1

theorem echo_checksums_stray :
    ∃ w₀ w dest T, parseDest strayReply icmpArgs init = .ok w₀ ∧
      main strayReply icmpArgs = .ok w ∧ w₀.data.networkIp = some dest ∧
      LastHop strayReply dest.sinAddr true T ∧
      (∀ t i, 1 ≤ t ∧ t ≤ T ↔ ∃ buf dst ok, .sendto t i buf dst ok ∈ w.log) ∧
      (∀ t i buf dst ok, .sendto t i buf dst ok ∈ w.log →
        buf.length = w₀.data.totalSize ∧ ValidMessage (buf.drop 20)) ∧
      ∀ v i, AtLoop strayReply icmpArgs v ∨ AtHead strayReply icmpArgs v →
        ∃ p, val v.mem (.sendpack i) = some p ∧ ValidMessage (p.drop 20) := by
  have hp : parseDest strayReply icmpArgs init = .ok _ := rfl
  obtain ⟨w, dest, T, hrest⟩ := echo_checksums hp rfl (by decide)
  exact ⟨_, w, dest, T, hp, hrest⟩

def datagram : Event → Option Bytes
  | .sendto _ _ buf _ true => some buf
  | _ => none

/-- The datagrams sent in a run: what the calls of `sendto` that succeeded were given. -/
def datagrams (log : List Event) : List Bytes := log.filterMap datagram

theorem map_filter_eq_flatMap {α β : Type} (p : α → Bool) (g : α → β) (xs : List α) :
    (xs.filter p).map g = xs.flatMap fun x => if p x then [g x] else [] := by
  induction xs with
  | nil => rfl
  | cons x xs ih =>
    rw [List.flatMap_cons, ← ih]
    cases h : p x <;> simp [h]

theorem datagrams_log {T : Nat} (hend : Ended s e (prologue s e host) T w) :
    datagrams w.log = ((List.range T ×ˢ probes).filter fun c => e.sendto (c.1 + 1) c.2).map
      fun c => s.packet (c.1 + 1) c.2 := by
  have hprologue : ∀ ev ∈ prologue s e host, datagram ev = none := by
    intro ev hev
    obtain ⟨p, rfl⟩ | rfl | rfl | rfl := mem_prologue hev <;> rfl
  have hhandler : ∀ p, datagram (.handler p) = none := fun _ => rfl
  have hprobe : ∀ t ip i, (probeEvents s e t ip i).filterMap datagram =
      if e.sendto t i then [s.packet t i] else [] := by
    intro t ip i
    rw [filterMap_probeEvents hhandler rfl]
    cases e.sendto t i <;> rfl
  have hcolumn : ∀ t i, (columnEvents e t i).filterMap datagram = [] := by
    intro t i
    rw [filterMap_columnEvents hhandler]
    split <;> rfl
  have hhop : ∀ t ip, (hopEvents s e t ip).filterMap datagram =
      (probes.filter (e.sendto t)).map (s.packet t) := by
    intro t ip
    rw [filterMap_hopEvents hhandler (hprobe t) (hcolumn t), map_filter_eq_flatMap]
    exact List.append_nil _
  rw [datagrams, filterMap_log hend hprologue rfl hhop, map_filter_eq_flatMap]
  change _ = ((List.range T).flatMap fun k => probes.map (Prod.mk k)).flatMap _
  rw [List.flatMap_assoc]
  apply List.flatMap_congr
  intro k _
  rw [List.flatMap_map, map_filter_eq_flatMap]

theorem nodup_echoPairs (hicmp : s.icmp = true) {T : Nat}
    (hend : Ended s e (prologue s e host) T w) :
    ((datagrams w.log).map echoPair).Nodup ↔ ∀ t i buf dst t' i' buf' dst',
      .sendto t i buf dst true ∈ w.log → .sendto t' i' buf' dst' true ∈ w.log → t = t' ∧ i = i' := by
  have hpair : ∀ t i, echoPair (s.packet t i) = (0, 256) := fun t i =>
    echoPair_eq s (drop_packet s hicmp t i)
  have hcalls : ((List.range T ×ˢ probes).filter fun c => e.sendto (c.1 + 1) c.2).Nodup :=
    (List.nodup_range.product (by decide)).filter _
  have hmem : ∀ k i, (k, i) ∈ ((List.range T ×ˢ probes).filter fun c => e.sendto (c.1 + 1) c.2) ↔
      k < T ∧ e.sendto (k + 1) i = true := by
    have hall : ∀ i : Probe, i ∈ probes := by decide
    simp [hall]
  rw [datagrams_log hend, List.map_map, List.map_congr_left fun c _ => hpair (c.1 + 1) c.2,
    List.map_const', List.nodup_replicate, ← List.toFinset_card_of_nodup hcalls, Finset.card_le_one]
  simp only [List.mem_toFinset]
  constructor
  · intro h t i buf dst t' i' buf' dst' hsend hsend'
    obtain ⟨k, hk, rfl, -, -, hok⟩ := (sendto_mem_log hend).mp hsend
    obtain ⟨k', hk', rfl, -, -, hok'⟩ := (sendto_mem_log hend).mp hsend'
    have heq := h (k, i) ((hmem k i).mpr ⟨hk, hok.symm⟩) (k', i')
      ((hmem k' i').mpr ⟨hk', hok'.symm⟩)
    cases heq
    exact ⟨rfl, rfl⟩
  · rintro h ⟨k, i⟩ hc ⟨k', i'⟩ hc'
    obtain ⟨hk, hok⟩ := (hmem k i).mp hc
    obtain ⟨hk', hok'⟩ := (hmem k' i').mp hc'
    obtain ⟨ht, rfl⟩ := h (k + 1) i _ _ (k' + 1) i' _ _
      ((sendto_mem_log hend).mpr ⟨k, hk, rfl, rfl, rfl, hok.symm⟩)
      ((sendto_mem_log hend).mpr ⟨k', hk', rfl, rfl, rfl, hok'.symm⟩)
    rw [Nat.succ_inj.mp ht]

/-- All packets of a run carry one identifier and sequence number, so the pairs of the
datagrams sent differ exactly in a run that sends at most one. -/
theorem echo_pairs (hp : parseDest e argv init = .ok w₀) (hicmp : w₀.data.icmpRoute = true)
    (hfd : 0 ≤ e.socket) :
    ∃ w, main e argv = .ok w ∧
      (∀ t i buf dst ok, .sendto t i buf dst ok ∈ w.log → echoPair buf = (0, 256)) ∧
      (((datagrams w.log).map echoPair).Nodup ↔ ∀ t i buf dst t' i' buf' dst',
        .sendto t i buf dst true ∈ w.log → .sendto t' i' buf' dst' true ∈ w.log →
          t = t' ∧ i = i') := by
  obtain ⟨s, host, hs⟩ := parseDest_ok hp
  obtain ⟨T, w, hmain, hend⟩ := main_ok hp hs hfd
  have hsession : s.icmp = true := hs.held.icmp.symm.trans hicmp
  refine ⟨w, hmain, ?_, nodup_echoPairs hsession hend⟩
  intro t i buf dst ok hsend
  obtain ⟨k, -, -, rfl, -, -⟩ := (sendto_mem_log hend).mp hsend
  exact echoPair_eq s (drop_packet s hsession t i)

theorem echo_pairs_silent :
    ∃ w, main (silent target) icmpArgs = .ok w ∧
      (∀ t i buf dst ok, .sendto t i buf dst ok ∈ w.log → echoPair buf = (0, 256)) ∧
      (((datagrams w.log).map echoPair).Nodup ↔ ∀ t i buf dst t' i' buf' dst',
        .sendto t i buf dst true ∈ w.log → .sendto t' i' buf' dst' true ∈ w.log →
          t = t' ∧ i = i') :=
  echo_pairs rfl rfl (by decide)

/-- The echo requests of one unanswered run, all alike. -/
theorem echo_pairs_collide :
    ∃ w, main (silent target) icmpArgs = .ok w ∧
      ¬ ((datagrams w.log).map echoPair).Nodup := by
  have hp : parseDest (silent target) icmpArgs init = .ok _ := rfl
  obtain ⟨s, host, hs⟩ := parseDest_ok hp
  obtain ⟨T, w, hmain, hend⟩ := main_ok hp hs (by decide)
  have hT := hend.hop_pos (by decide)
  have hsend : ∀ i, ∃ buf dst, .sendto 1 i buf dst true ∈ w.log := fun i =>
    ⟨_, _, (sendto_mem_log hend).mpr ⟨0, hT, rfl, rfl, rfl, rfl⟩⟩
  refine ⟨w, hmain, fun hnodup => ?_⟩
  obtain ⟨buf, dst, hzero⟩ := hsend 0
  obtain ⟨buf', dst', hone⟩ := hsend 1
  have heq := (nodup_echoPairs hs.held.icmp.symm hend).mp hnodup _ _ _ _ _ _ _ _ hzero hone
  exact absurd heq.2 (by decide)

theorem patched_sequence (hicmp : s.icmp = true) (hp : parseDest e argv init = .ok w₀)
    (hs : Parsed e s host w₀) (h : AtHead e argv w) (ht : 2 ≤ w.data.ttl) (i : Probe) :
    ∃ p q, val w.mem (.sendpack i) = some p ∧
      constructPacket { w.data with networkIp := w₀.data.networkIp } i = .ok q ∧
      echoPair p = (0, 256) ∧ echoPair q = (0, 256 * w.data.ttl) ∧ p ≠ q := by
  obtain ⟨n, hperf, hn⟩ := atHead_ok hp hs h
  have hlt := hperf.le
  have hheld : s.Held { w.data with networkIp := w₀.data.networkIp } :=
    ⟨hn.held.total, hn.held.payload, hn.held.icmp⟩
  have hpair : echoPair (s.packet (n + 1) i) = (0, 256) :=
    echoPair_eq s (drop_packet s hicmp (n + 1) i)
  have hpair' : echoPair (s.built (n + 1) i) = (0, 256 * (n + 1)) := by
    rw [echoPair_eq s (drop_built s hicmp (n + 1) i)]
    simp [maxHops] at hlt ⊢
    omega
  rw [hn.ttl] at ht ⊢
  refine ⟨_, _, hn.sendpack i, s.constructPacket_ok hheld hs.network rfl i, hpair, ?_, ?_⟩
  · change echoPair (s.built w.data.ttl i) = _
    rw [hn.ttl, hpair']
  · change s.packet (n + 1) i ≠ s.built w.data.ttl i
    intro heq
    rw [hn.ttl] at heq
    rw [heq, hpair'] at hpair
    simp only [Prod.mk.injEq] at hpair
    omega

/-- From the second hop on, `update_packets` never leaves the packet that
`construct_packet` would build for the destination of the run. -/
theorem patched_never_rebuilt (hp : parseDest e argv init = .ok w₀)
    (hicmp : w₀.data.icmpRoute = true) (h : AtHead e argv w) (ht : 2 ≤ w.data.ttl) (i : Probe) :
    ∃ p q, val w.mem (.sendpack i) = some p ∧
      constructPacket { w.data with networkIp := w₀.data.networkIp } i = .ok q ∧ p ≠ q := by
  obtain ⟨s, host, hs⟩ := parseDest_ok hp
  obtain ⟨p, q, hpack, hbuild, -, -, hne⟩ :=
    patched_sequence (hs.held.icmp.symm.trans hicmp) hp hs h ht i
  exact ⟨p, q, hpack, hbuild, hne⟩

theorem exists_silent {dest : SockaddrIn} (hp : parseDest (silent dest) argv init = .ok w₀)
    {n : Nat}
    (hn : n < maxHops) : ∃ w, AtHead (silent dest) argv w ∧ w.data.ttl = n + 1 := by
  obtain ⟨s, host, hs⟩ := parseDest_ok hp
  have hfd : (0 : Int) ≤ 3 := by decide
  obtain ⟨w, hw, henter⟩ := exists_atHead hp hs hfd
    ⟨hn, fun k _ => aliveAfter_silent s dest k⟩
  exact ⟨w, hw, henter.ttl⟩

theorem patched_never_rebuilt_silent :
    ∃ w₀ w : World, parseDest (silent target) icmpArgs init = .ok w₀ ∧ w.data.ttl = 30 ∧
      ∃ p q, val w.mem (.sendpack 0) = some p ∧
        constructPacket { w.data with networkIp := w₀.data.networkIp } 0 = .ok q ∧ p ≠ q := by
  have hp : parseDest (silent target) icmpArgs init = .ok _ := rfl
  have hlast : 29 < maxHops := by decide
  obtain ⟨w, hw, httl⟩ := exists_silent hp hlast
  exact ⟨_, w, hp, httl, patched_never_rebuilt hp rfl hw (by omega) 0⟩

/-- Hop 2 of an unanswered run sends sequence number 1 where a new packet has 2. -/
theorem patched_differs :
    ∃ w₀ w p q, parseDest (silent target) icmpArgs init = .ok w₀ ∧
      AtHead (silent target) icmpArgs w ∧ w.data.ttl = 2 ∧
      val w.mem (.sendpack 0) = some p ∧
      constructPacket { w.data with networkIp := w₀.data.networkIp } 0 = .ok q ∧ p ≠ q := by
  have hp : parseDest (silent target) icmpArgs init = .ok _ := rfl
  obtain ⟨s, host, hs⟩ := parseDest_ok hp
  have hsecond : 1 < maxHops := by decide
  obtain ⟨w, hw, httl⟩ := exists_silent hp hsecond
  obtain ⟨p, q, hpack, hbuild, -, -, hne⟩ :=
    patched_sequence hs.held.icmp.symm hp hs hw (by omega) 0
  exact ⟨_, w, p, q, hp, hw, httl, hpack, hbuild, hne⟩

end FtTraceroute.Datagrams

import FtTraceroute.Events
import FtTraceroute.Replies

namespace FtTraceroute.Address

open Library.OwnedSlots
open Libft Header Inet Packet Parsing Main
open Script Probes Columns Accept Hops Run Events Layout Replies

def Holds (ip : InAddr) (w : World) : Prop := w.data.networkIp.map SockaddrIn.sinAddr = some ip

/-- All through the run that ends in `w`, `networkIp` holds the address `ip`: at the
head of every loop, in every `sendto` and at the end. -/
structure Kept (e : Env) (argv : List CString) (ip : InAddr) (w : World) : Prop where
  reached : ∀ v, Reached e argv v → Holds ip v
  final : Holds ip w
  sends : ∀ t i buf dst ok, .sendto t i buf dst ok ∈ w.log →
    ∃ to', dst = some to' ∧ to'.sinAddr = ip ∧ (buf.drop 16).take 4 = octets ip ∧
      w.data.destIp = some (inetNtop ip)

variable {s : Session} {e : Env} {host : CString} {argv : List CString} {T n t : Nat} {i : Probe}
  {ip : SockaddrIn} {past : List Probe} {w w₀ : World}

theorem sender_sinAddr {a : InAddr} (hip : ip.sinAddr = a)
    (h : ∀ i ∈ past, ∀ d, e.recvfrom t i = some d → d.sender.sinAddr = a) :
    (sender e t ip past).sinAddr = a := by
  induction past generalizing ip with
  | nil => exact hip
  | cons i past ih =>
    refine ih ?_ fun j hj => h j (List.mem_cons_of_mem i hj)
    change (arrive ip (e.recvfrom t i)).sinAddr = a
    cases hr : e.recvfrom t i with
    | none => exact hip
    | some d => exact h i List.mem_cons_self d hr

theorem network_sinAddr
    (h : ∀ k < n, ∀ i d, e.recvfrom (k + 1) i = some d → d.sender.sinAddr = s.dest.sinAddr) :
    (network s e n).sinAddr = s.dest.sinAddr := by
  induction n with
  | zero => rfl
  | succ n ih =>
    refine sender_sinAddr (ih fun k hk => h k (by omega)) fun i _ d hr => ?_
    exact h n (Nat.lt_succ_self n) i d hr

theorem take_packet (t : Nat) (i : Probe) :
    ((s.packet t i).drop 16).take 4 = octets s.dest.sinAddr := by
  simp [Session.packet, ipHeader, octets]

theorem kept_of_senders (hp : parseDest e argv init = .ok w₀) (hs : Parsed e s host w₀)
    (hend : Ended s e (prologue s e host) T w)
    (h : ∀ k < T, ∀ i d, e.recvfrom (k + 1) i = some d → d.sender.sinAddr = s.dest.sinAddr) :
    Kept e argv s.dest.sinAddr w := by
  have hnetwork : ∀ n ≤ T, (network s e n).sinAddr = s.dest.sinAddr := fun n hn =>
    network_sinAddr fun k hk => h k (lt_of_lt_of_le hk hn)
  have hsender : ∀ n < T, ∀ past,
      (sender e (n + 1) (network s e n) past).sinAddr = s.dest.sinAddr := fun n hn past =>
    sender_sinAddr (hnetwork n (Nat.le_of_lt hn)) fun i _ => h n hn i
  constructor
  case final =>
    rw [Holds, hend.network, Option.map_some, hnetwork T le_rfl]
  case sends =>
    intro t i buf dst ok hsend
    obtain ⟨k, hk, rfl, rfl, rfl, -⟩ := (sendto_mem_log hend).mp hsend
    exact ⟨_, rfl, hsender k hk _, take_packet _ _, hend.destIp⟩
  case reached =>
    rintro v (hv | ⟨i, hv⟩ | ⟨i, hv⟩)
    · obtain ⟨n, hperf, hn⟩ := atLoop_ok hp hs hv
      rw [Holds, hn.network, Option.map_some, hnetwork n (hend.le_of_performed hperf)]
    · obtain ⟨n, past, _, _, hperf, -, hn⟩ := atProbe_ok hp hs hv
      rw [Holds, hn.network, Option.map_some, hsender n (hend.le_of_performed hperf)]
    · obtain ⟨n, _, _, _, hperf, -, hn⟩ := atColumn_ok hp hs hv
      rw [Holds, hn.network, Option.map_some, hnetwork (n + 1) (hend.le_of_performed hperf)]

theorem senders_of_kept (hp : parseDest e argv init = .ok w₀) (hs : Parsed e s host w₀)
    (hfd : 0 ≤ e.socket) (hend : Ended s e (prologue s e host) T w)
    (h : Kept e argv s.dest.sinAddr w) {k : Nat} (hk : k < T) {d : Datagram}
    (hr : e.recvfrom (k + 1) i = some d) : d.sender.sinAddr = s.dest.sinAddr := by
  have hafter : sender e (k + 1) (network s e k) (before i ++ [i]) = d.sender := by
    rw [sender_concat, hr]
    rfl
  obtain rfl | hi := eq_or_ne i 2
  · have hperf : Performed s e (k + 1) := ⟨hk.trans_le hend.le, fun j hj => hend.alive j (by omega)⟩
    obtain ⟨v, hv, hloop⟩ := exists_atLoop hp hs hfd hperf
    have hheld := h.reached v (.inl hv)
    rw [Holds, hloop.network] at hheld
    have hnetwork : network s e (k + 1) = d.sender := hafter
    simpa [hnetwork] using hheld
  · obtain ⟨dst, hdst, hip, -⟩ := h.sends (k + 1) (i + 1) _ _ _
      ((sendto_mem_log hend).mpr ⟨k, hk, rfl, rfl, rfl, rfl⟩)
    rw [before_succ hi, hafter] at hdst
    cases hdst
    exact hip

/-- `networkIp` keeps the resolved address exactly in the runs whose replies all come
from it. -/
theorem kept_iff (hp : parseDest e argv init = .ok w₀) (hfd : 0 ≤ e.socket) :
    ∃ w dest, main e argv = .ok w ∧ w₀.data.networkIp = some dest ∧
      (Kept e argv dest.sinAddr w ↔
        ∀ t i d, .recvfrom t i (some d) ∈ w.log → d.sender.sinAddr = dest.sinAddr) := by
  obtain ⟨s, host, hs⟩ := parseDest_ok hp
  obtain ⟨T, w, hmain, hend⟩ := main_ok hp hs hfd
  refine ⟨w, s.dest, hmain, hs.network, ?_, ?_⟩
  · intro hkept t i d hrecv
    obtain ⟨k, hk, rfl, hr⟩ := (recvfrom_mem_log hend).mp hrecv
    exact senders_of_kept hp hs hfd hend hkept hk hr.symm
  · intro h
    apply kept_of_senders hp hs hend
    intro k hk i d hr
    exact h (k + 1) i d ((recvfrom_mem_log hend).mpr ⟨k, hk, rfl, hr.symm⟩)

theorem kept_iff_router :
    ∃ w₀ w dest, parseDest firstRouter udpArgs init = .ok w₀ ∧
      main firstRouter udpArgs = .ok w ∧ w₀.data.networkIp = some dest ∧
      (Kept firstRouter udpArgs dest.sinAddr w ↔
        ∀ t i d, .recvfrom t i (some d) ∈ w.log → d.sender.sinAddr = dest.sinAddr) := by
  have hp : parseDest firstRouter udpArgs init = .ok _ := rfl
  obtain ⟨w, dest, h⟩ := kept_iff hp (by decide)
  exact ⟨_, w, dest, hp, h⟩

/-- After the first router's answer the second probe of hop 1 goes to the router. -/
theorem second_probe_to_router :
    ∃ w buf, main firstRouter udpArgs = .ok w ∧
      .sendto 1 1 buf (some ⟨2, 0, router⟩) true ∈ w.log ∧
      ¬ Kept firstRouter udpArgs target.sinAddr w := by
  have hp : parseDest firstRouter udpArgs init = .ok _ := rfl
  obtain ⟨s, host, hs⟩ := parseDest_ok hp
  obtain ⟨T, w, hmain, hend⟩ := main_ok hp hs (by decide)
  have hT := hend.hop_pos (by decide)
  have hdest : network s firstRouter 0 = target := (Except.ok.inj hs.resolved).symm
  have hsend : .sendto 1 1 (s.packet 1 1) (some ⟨2, 0, router⟩) true ∈ w.log :=
    (sendto_mem_log hend).mpr ⟨0, hT, rfl, rfl, by rw [hdest]; rfl, rfl⟩
  refine ⟨w, s.packet 1 1, hmain, hsend, fun hkept => ?_⟩
  obtain ⟨dst, hdst, hip, -⟩ := hkept.sends _ _ _ _ _ hsend
  cases hdst
  revert hip
  decide

end FtTraceroute.Address

import FtTraceroute.Events
import FtTraceroute.Replies

namespace FtTraceroute.Report

open Library.OwnedSlots
open Libft Header Inet Packet Parsing Recieve Output Main
open Script Probes Columns Accept Run Events Replies

/-- What `print_route` reads for probe `i` in state `w` was stored in the current hop:
`d` is the datagram received there, `m` the slots after `get_address`. -/
structure OfCurrentHop (e : Env) (i : Probe) (w : World) (d : Datagram) (m : Slots Slot Content) :
    Prop where
  recieved : .recvfrom w.data.ttl i (some d) ∈ w.log
  retpack : val w.mem (.retpack i) = some d.toBlock
  sentAt : w.data.sendTime i = e.sentAt w.data.ttl i
  recievedAt : w.data.recieveTime i = e.recievedAt w.data.ttl i
  time : w.data.probeTimes i = convertToMilliseconds (w.data.recieveTime i) (w.data.sendTime i)
  address : getAddress e i w = .ok { w with mem := m }
  resIps : val m (.resIps i) = some (inetNtop d.saddr)
  resDns : val m (.resDns i) = e.getnameinfo w.data.ttl i d.saddr
  previous : i ≠ 0 → w.data.recieved (i - 1) = true →
    ∃ d', .recvfrom w.data.ttl (i - 1) (some d') ∈ w.log ∧
      val m (.resIps (i - 1)) = some (inetNtop d'.saddr)

variable {s : Session} {e : Env} {argv : List CString} {i : Probe} {w : World}

/-- Whenever a column is printed with `print_route`, all it reads was stored in the
current hop, and no pointer it follows is null. -/
theorem route_of_current_hop (h : AtColumn e argv i w) (hrec : w.data.recieved i = true) :
    ∃ d m w', OfCurrentHop e i w d m ∧ printRoute e i w = .ok w' ∧
      w'.log = w.log ++ [.print (columnOut e w.data.ttl i)] := by
  have ⟨_, _, _, _, hhead, _⟩ := h
  obtain ⟨w₀, s, host, hp, hs⟩ := parsed_of_atHead hhead
  obtain ⟨n, past, rest, a, -, hsplit, hprinting⟩ := atColumn_ok hp hs h
  obtain ⟨hi, hprev⟩ := probes_split hsplit
  have hlog : ∀ j d, e.recvfrom (n + 1) j = some d → .recvfrom (n + 1) j (some d) ∈ w.log := by
    intro j d hr
    rw [hprinting.log, List.mem_append, List.mem_append]
    refine .inl (.inr (mem_probesEvents_probes.mpr ⟨j, recvfrom_mem_probeEvents.mpr ?_⟩))
    exact ⟨rfl, rfl, hr.symm⟩
  obtain ⟨d, hd⟩ := Option.isSome_iff_exists.mp (hprinting.recieved i ▸ hrec)
  have hsome : (e.recvfrom (n + 1) i).isSome = true := by rw [hd]; rfl
  obtain ⟨m, hroute, -, -⟩ := printRoute_ok hprinting hi hprev hd
  have hdns : val w.mem (.resDns i) = none := by simp [hprinting.resDns, hi]
  have httl := hprinting.ttl
  refine ⟨d, storeAddress e (n + 1) i d.saddr w.mem, _, ?_, hroute, by rw [httl]⟩
  constructor
  case recieved => exact httl ▸ hlog i d hd
  case retpack =>
    rw [hprinting.retpack i, hd]
    rfl
  case sentAt => exact httl ▸ hprinting.sentAt i
  case recievedAt => exact httl ▸ hprinting.recievedAt i hsome
  case time => rw [hprinting.time i hsome, hprinting.sentAt i, hprinting.recievedAt i hsome]
  case address =>
    rw [getAddress, hprinting.retpack i, hd, httl]
    rfl
  case resIps => simp [val_storeAddress_resIps]
  case resDns => simp [val_storeAddress_resDns _ _ _ _ hdns, httl]
  case previous =>
    intro hne hbefore
    obtain ⟨d', hd'⟩ := Option.isSome_iff_exists.mp (hprinting.recieved (i - 1) ▸ hbefore)
    refine ⟨d', httl ▸ hlog _ d' hd', ?_⟩
    simp [val_storeAddress_resIps, pred_ne hne, hprinting.resIps, hprev hne, hd']

theorem route_of_current_hop_first :
    ∃ w d m w', AtColumn firstRouter udpArgs 0 w ∧ OfCurrentHop firstRouter 0 w d m ∧
      printRoute firstRouter 0 w = .ok w' ∧
      w'.log = w.log ++ [.print (columnOut firstRouter w.data.ttl 0)] := by
  have hp : parseDest firstRouter udpArgs init = .ok _ := rfl
  obtain ⟨s, host, hs⟩ := parseDest_ok hp
  have halive : aliveAfter s firstRouter 0 = true := rfl
  obtain ⟨w, hw, -, hrec⟩ := exists_atColumn hp hs (by decide)
    (performed_succ (by decide) halive) (split_probes 0)
  obtain ⟨d, m, w', h⟩ := route_of_current_hop hw (hrec 0)
  exact ⟨w, d, m, w', hw, h⟩

end FtTraceroute.Report

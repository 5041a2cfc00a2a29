import FtTraceroute.Network

namespace FtTraceroute.Delays

open Library.Path
open Libft Header Inet Packet Parsing Main Script Accept Run Events Stop Network

/-- An answer may be late by any number of receives, overtake others or come twice. Only
that it answers some probe sent before is taken for granted. -/
def Caused {dest : InAddr} (ways : Nat → Probe → Route dest) (log : List Event) : Prop :=
  ∀ past t i d rest, log = past ++ .recvfrom t i (some d) :: rest →
    ∃ t' i' buf dst, .sendto t' i' buf dst true ∈ past ∧ Reacts (ways t' i') buf d

def hopOf : Event → Option Nat
  | .sendto t _ _ _ _ => some t
  | .recvfrom t _ _ => some t
  | _ => none

variable {s : Session} {e : Env} {host : CString} {argv : List CString}
  {t t' T : Nat} {i i' : Probe}
  {ip : SockaddrIn} {ev ev' : Event} {past rest : List Event} {r : Option Datagram} {w : World}
  {dest : InAddr} {ways : Nat → Probe → Route dest}

theorem hopOf_handler (p : Point) : hopOf (.handler p) = none := rfl

theorem hops_hopEvents : (hopEvents s e t ip).filterMap hopOf = List.replicate 6 t := by
  have hcolumn : ∀ i, (columnEvents e t i).filterMap hopOf = [] := by
    intro i
    rw [filterMap_columnEvents hopOf_handler]
    split <;> rfl
  rw [filterMap_hopEvents hopOf_handler (fun _ _ => filterMap_probeEvents hopOf_handler rfl) hcolumn]
  rfl

theorem hops_log (hend : Ended s e (prologue s e host) T w) :
    w.log.filterMap hopOf = (List.range T).flatMap fun k => List.replicate 6 (k + 1) := by
  have hprologue : ∀ ev ∈ prologue s e host, hopOf ev = none := by
    intro ev hev
    obtain ⟨p, rfl⟩ | rfl | rfl | rfl := mem_prologue hev <;> rfl
  exact filterMap_log hend hprologue rfl fun _ _ => hops_hopEvents

theorem hops_sorted (hend : Ended s e (prologue s e host) T w) :
    (w.log.filterMap hopOf).Pairwise (· ≤ ·) := by
  rw [hops_log hend, List.pairwise_flatMap]
  constructor
  · intro k _
    exact List.pairwise_replicate.mpr (.inr le_rfl)
  · apply List.pairwise_lt_range.imp
    intro k k' hlt x hx y hy
    rw [List.eq_of_mem_replicate hx, List.eq_of_mem_replicate hy]
    exact Nat.succ_le_succ hlt.le

theorem sorted_split (hend : Ended s e (prologue s e host) T w) (hsplit : w.log = past ++ ev :: rest)
    (hev : hopOf ev = some t) (hev' : hopOf ev' = some t') :
    (ev' ∈ past → t' ≤ t) ∧ (ev' ∈ rest → t ≤ t') := by
  have hsorted := hops_sorted hend
  have hcons : (ev :: rest).filterMap hopOf = t :: rest.filterMap hopOf :=
    List.filterMap_cons_some hev
  rw [hsplit, List.filterMap_append, hcons, List.pairwise_append, List.pairwise_cons] at hsorted
  obtain ⟨-, ⟨hafter, -⟩, hbefore⟩ := hsorted
  constructor
  · intro hmem
    exact hbefore t' (List.mem_filterMap.mpr ⟨ev', hmem, hev'⟩) t List.mem_cons_self
  · intro hmem
    exact hafter t' (List.mem_filterMap.mpr ⟨ev', hmem, hev'⟩)

theorem elicited_by (hend : Ended s e (prologue s e host) T w) (hcaused : Caused ways w.log)
    (hdest : s.dest.sinAddr = dest) {d : Datagram} (hrecv : .recvfrom t i (some d) ∈ w.log) :
    ∃ t' ≤ t, 1 ≤ t' ∧ ∃ i', d.saddr = (ways t' i').node t' ∧
      d.icmpType = if t' < (ways t' i').distance then 11 else if s.icmp then 0 else 3 := by
  obtain ⟨past, rest, hsplit⟩ := List.append_of_mem hrecv
  obtain ⟨t', i', buf, dst, hsend, hreacts⟩ := hcaused past t i d rest hsplit
  have hle := (sorted_split hend hsplit rfl rfl).1 hsend
  have hlog : .sendto t' i' buf dst true ∈ w.log := by
    rw [hsplit]
    exact List.mem_append_left _ hsend
  obtain ⟨k, hk, rfl, rfl, -, -⟩ := (sendto_mem_log hend).mp hlog
  have hmax : k + 1 ≤ maxHops := le_trans hk hend.le
  obtain ⟨hnode, htype⟩ := (reacts_packet hdest (Nat.succ_pos k) hmax i').mp hreacts
  exact ⟨k + 1, hle, Nat.succ_pos k, i', hnode, htype⟩

def late (s : Session) {dest : InAddr} (route : Route dest) : Env :=
  { silent s.dest with recvfrom := fun t i =>
      if t ≤ 1 then none else some (answer s route (t - 1) i) }

theorem caused_late {route : Route dest} (hdest : s.dest.sinAddr = dest)
    (hend : Ended s (late s route) (prologue s (late s route) host) T w) :
    Caused (fun _ _ => route) w.log := by
  intro past t i d rest hsplit
  have hrecv : .recvfrom t i (some d) ∈ w.log := by
    rw [hsplit]
    simp
  obtain ⟨k, hk, rfl, hr⟩ := (recvfrom_mem_log hend).mp hrecv
  simp only [late] at hr
  split at hr
  · cases hr
  · next hlate =>
    rw [Nat.add_sub_cancel] at hr
    obtain ⟨k, rfl⟩ := Nat.exists_eq_add_of_le' (show 1 ≤ k by omega)
    have hlt : k < T := Nat.lt_of_succ_lt hk
    have hsend := (sendto_mem_log (i := i) hend).mpr
      ⟨k, hlt, rfl, rfl, rfl, (rfl : true = (late s route).sendto (k + 1) i)⟩
    have hpast := hsend
    rw [hsplit, List.mem_append, List.mem_cons] at hpast
    have hbefore := hpast.resolve_right fun hafter => by
      obtain hself | hafter := hafter
      · cases hself
      · have hle := (sorted_split hend hsplit rfl rfl).2 hafter
        omega
    have hmax : k + 1 ≤ maxHops := le_trans (Nat.le_of_succ_le hk) hend.le
    refine ⟨_, _, _, _, hbefore, (reacts_packet hdest (Nat.succ_pos k) hmax i).mpr ?_⟩
    rw [Option.some.inj hr]
    exact answer_spec (k + 1) i

end FtTraceroute.Delays

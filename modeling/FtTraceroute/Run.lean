import FtTraceroute.Accept
import FtTraceroute.Hops

namespace FtTraceroute.Run

open Library.OwnedSlots Library.Loops
open Libft Header Inet Packet Parsing Send Output Main Script Probes Columns Accept Hops

/-- A state in which the loop of `main` evaluates its test. -/
def AtLoop (e : Env) (argv : List CString) (w : World) : Prop :=
  ∃ w₀, start e argv = .ok w₀ ∧ Visits running (hop e) w₀ w

def AtHead (e : Env) (argv : List CString) (w : World) : Prop :=
  ∃ w₀, AtLoop e argv w₀ ∧ running w₀ = true ∧ enterHop e w₀ = .ok w

def AtProbe (e : Env) (argv : List CString) (i : Probe) (w : World) : Prop :=
  ∃ w₀ past rest, AtHead e argv w₀ ∧ past ++ i :: rest = probes ∧
    past.foldlM (probe e) (say (.ttl w₀.data.ttl) (clearRecieved w₀)) = .ok w

def AtColumn (e : Env) (argv : List CString) (i : Probe) (w : World) : Prop :=
  ∃ w₀ w₁ past rest, AtHead e argv w₀ ∧ sendRecieve e w₀ = .ok w₁ ∧
    past ++ i :: rest = probes ∧ past.foldlM (column e) w₁ = .ok w

/-- A state at the head of one of the loops of a run. -/
def Reached (e : Env) (argv : List CString) (w : World) : Prop :=
  AtLoop e argv w ∨ (∃ i, AtProbe e argv i w) ∨ ∃ i, AtColumn e argv i w

/-- A run gets through its first `n` hops. -/
structure Performed (s : Session) (e : Env) (n : Nat) : Prop where
  le : n ≤ maxHops
  alive : ∀ k < n, aliveAfter s e k = true

/-- The end of a run of `T` hops. -/
structure Ended (s : Session) (e : Env) (pre : List Event) (T : Nat) (w : World) : Prop
    extends Performed s e T where
  stop : T = maxHops ∨ aliveAfter s e T = false
  ttl : w.data.ttl = T + 1
  network : w.data.networkIp = some (network s e T)
  destIp : w.data.destIp = some (inetNtop s.dest.sinAddr)
  null : ∀ x, val w.mem x = none
  sound : Sound w.mem
  log : w.log = pre ++ hopsEvents s e T ++ [.freeNetworkIp]

variable {s : Session} {e : Env} {host : CString} {argv : List CString} {pre : List Event} {n : Nat}
  {i : Probe} {w w₀ : World}

theorem start_ok (hp : parseDest e argv init = .ok w₀) (hs : Parsed e s host w₀)
    (hfd : 0 ≤ e.socket) :
    ∃ w, start e argv = .ok w ∧ AtHop s e (prologue s e host) 0 w := by
  let v : World :=
    { data := { w₀.data with ttl := 1, sockFd := e.socket, alive := !e.handler .raised }
      mem := w₀.mem
      log := w₀.log ++ handled e .armed ++ [.socket] ++ handled e .opened ++
        [.print (.head w₀.data.inputDest w₀.data.destIp maxHops w₀.data.totalSize)] ++
        handled e .headed ++ handled e .raised }
  have hheld : s.Held v.data := ⟨hs.held.total, hs.held.payload, hs.held.icmp⟩
  obtain ⟨m, hbuild, hm, hpack, hother⟩ := constructPackets_ok hheld hs.network hs.mem
  have hempty : ∀ x, val v.mem x = none := fun x => by
    change val w₀.mem x = none
    rw [hs.mem, val_empty]
  have hstart : start e argv = .ok (deliver e .built { v with mem := m }) := by
    have hloop : start e argv = (constructPackets v >>= fun w => pure (deliver e .built w)) := by
      simp [start, hp, initData, createSocket, not_lt.mpr hfd, deliver_eq, printHead, say, note, v]
    rw [hloop, hbuild]
    rfl
  refine ⟨_, hstart, ?_⟩
  rw [deliver_eq]
  constructor
  case ttl => rfl
  case held => exact ⟨hs.held.total, hs.held.payload, hs.held.icmp⟩
  case destIp => exact hs.destIp
  case network => exact hs.network
  case sendpack => exact hpack
  case retpack => exact fun i => (hother _ (by simp)).trans (hempty _)
  case resIps => exact fun i => (hother _ (by simp)).trans (hempty _)
  case resDns => exact fun i => (hother _ (by simp)).trans (hempty _)
  case sound => exact hm
  case alive => rfl
  case log => simp [v, hs.log, hs.inputDest, hs.destIp, hs.held.total, prologue, hopsEvents]

theorem start_inv (h : start e argv = .ok w) :
    ∃ w₀, parseDest e argv init = .ok w₀ ∧ 0 ≤ e.socket := by
  obtain ⟨w₀, hp, hrest⟩ := bind_eq_ok.mp h
  refine ⟨w₀, hp, ?_⟩
  by_contra hfd
  rw [initData, createSocket, if_pos (not_le.mp hfd)] at hrest
  cases hrest

theorem main_error {x : Halt} (h : start e argv = .error x) : main e argv = .error x := by
  rw [main, h]
  rfl

theorem main_refused {x : Halt} (h : parseDest e argv init = .error x) :
    main e argv = .error x := by
  apply main_error
  rw [start, h]
  rfl

theorem main_noSocket (hp : parseDest e argv init = .ok w₀) (hs : Parsed e s host w₀)
    (hfd : e.socket < 0) : ∃ w, main e argv = .error (.exit 1 w) ∧ w.mem = empty ∧
      w.log = .getaddrinfo host :: handled e .armed ++ [.socket, .print .socketError] := by
  let v := say .socketError (note .socket
    { deliver e .armed w₀ with data := { (deliver e .armed w₀).data with ttl := 1 } })
  have hinit : initData e (deliver e .armed w₀) = .error (.exit 1 v) := if_pos hfd
  refine ⟨v, ?_, by simp [v, say, deliver_eq, hs.mem], by simp [v, say, deliver_eq, hs.log]⟩
  apply main_error
  rw [start, hp, ok_bind, hinit]
  rfl

theorem parsed_of_atHead (h : AtHead e argv w) : ∃ w₀ s host, parseDest e argv init = .ok w₀ ∧
    Parsed e s host w₀ := by
  obtain ⟨-, ⟨v, hstart, -⟩, -⟩ := h
  obtain ⟨w₀, hp, -⟩ := start_inv hstart
  obtain ⟨s, host, hs⟩ := parseDest_ok hp
  exact ⟨w₀, s, host, hp, hs⟩

theorem nodup_past {past rest : List Probe} (h : past ++ i :: rest = probes) : past.Nodup := by
  have hall : (past ++ i :: rest).Nodup := h ▸ (by decide)
  exact (List.nodup_append.mp hall).1

theorem running_iff (h : AtHop s e pre n w) :
    running w = true ↔ n < maxHops ∧ aliveAfter s e n = true := by
  simp [running, h.ttl, h.alive]

theorem hop_inv {w' : World} (h : AtHop s e pre n w) (hrun : hop e w = .ok w') :
    AtHop s e pre (n + 1) w' := by
  obtain ⟨v, hv, hnext⟩ := hop_ok h
  rw [hv] at hrun
  cases hrun
  exact hnext

theorem freeSendpacketsData_ok (hm : Sound w.mem) :
    ∃ m, freeSendpacketsData w = { w with mem := m, log := w.log ++ [.freeNetworkIp] } ∧ Sound m ∧
      (∀ i, val m (.sendpack i) = none) ∧ (∀ i, val m (.retpack i) = none) ∧
      (∀ i, val m (.resIps i) = val w.mem (.resIps i)) ∧
      ∀ i, val m (.resDns i) = val w.mem (.resDns i) := by
  refine ⟨_, rfl, ?_, ?_, ?_, ?_, ?_⟩
  · exact (((((hm.dispose _).dispose _).dispose _).dispose _).dispose _).dispose _
  all_goals
    intro i
    fin_cases i <;> simp [probes]

theorem Ended.no_hop {T : Nat} (h : Ended s e pre T w) :
    T = 0 ↔ e.handler .raised = true ∨ e.handler .built = true := by
  have hzero : aliveAfter s e 0 = false ↔ e.handler .raised = true ∨ e.handler .built = true := by
    simp [aliveAfter, or_iff_not_imp_left]
  rw [← hzero]
  constructor
  · rintro rfl
    exact h.stop.resolve_left (by decide)
  · intro hfalse
    by_contra hT
    have htrue := h.alive 0 (Nat.pos_of_ne_zero hT)
    rw [hfalse] at htrue
    cases htrue

theorem Ended.hop_pos {T : Nat} (h : Ended s e pre T w)
    (hquiet : ¬ (e.handler .raised = true ∨ e.handler .built = true)) : 0 < T := by
  apply Nat.pos_of_ne_zero
  rw [Ne, h.no_hop]
  exact hquiet

theorem performed_succ (hlt : n < maxHops) (halive : aliveAfter s e n = true) :
    Performed s e (n + 1) :=
  ⟨hlt, fun _ hk => aliveAfter_of_le s e (Nat.le_of_lt_succ hk) halive⟩

theorem Ended.le_of_performed {T : Nat} (h : Ended s e pre T w) (hn : Performed s e n) : n ≤ T := by
  obtain rfl | hstop := h.stop
  · exact hn.le
  · by_contra hlt
    have htrue := hn.alive T (not_le.mp hlt)
    rw [hstop] at htrue
    cases htrue

variable (hp : parseDest e argv init = .ok w₀) (hs : Parsed e s host w₀)
include hp hs

theorem atLoop_ok (h : AtLoop e argv w) :
    ∃ n, Performed s e n ∧ AtHop s e (prologue s e host) n w := by
  obtain ⟨v, hstart, hvisits⟩ := h
  obtain ⟨-, -, hfd⟩ := start_inv hstart
  obtain ⟨v', hv', hzero⟩ := start_ok hp hs hfd
  rw [hv'] at hstart
  cases hstart
  have hstep : ∀ n w w', Performed s e n ∧ AtHop s e (prologue s e host) n w → running w = true →
      hop e w = .ok w' → Performed s e (n + 1) ∧ AtHop s e (prologue s e host) (n + 1) w' := by
    rintro n w w' ⟨-, hn⟩ hrun hhop
    obtain ⟨hlt, halive⟩ := (running_iff hn).mp hrun
    exact ⟨performed_succ hlt halive, hop_inv hn hhop⟩
  obtain ⟨n, -, hn⟩ := visits_inv hstep ⟨⟨Nat.zero_le _, by simp⟩, hzero⟩ hvisits
  exact ⟨n, hn⟩

theorem atHead_ok (h : AtHead e argv w) :
    ∃ n, Performed s e (n + 1) ∧ Entered s e (prologue s e host) n w := by
  obtain ⟨v, hloop, hrun, henter⟩ := h
  obtain ⟨n, -, hn⟩ := atLoop_ok hp hs hloop
  obtain ⟨hlt, halive⟩ := (running_iff hn).mp hrun
  obtain ⟨v', hv', hentered⟩ := enterHop_ok hn
  rw [hv'] at henter
  cases henter
  exact ⟨n, performed_succ hlt halive, hentered⟩

theorem atProbe_ok (h : AtProbe e argv i w) :
    ∃ n past rest a, Performed s e (n + 1) ∧ past ++ i :: rest = probes ∧
      Sending s e (n + 1) (network s e n) a
        (prologue s e host ++ hopsEvents s e n ++ headEvents e (n + 1)) past w := by
  obtain ⟨v, past, rest, hhead, hsplit, hrun⟩ := h
  obtain ⟨n, hperf, hv⟩ := atHead_ok hp hs hhead
  obtain ⟨v', hv', hsending⟩ := sending_ok hv (nodup_past hsplit)
  rw [hv'] at hrun
  cases hrun
  exact ⟨n, past, rest, _, hperf, hsplit, hsending⟩

theorem atColumn_ok (h : AtColumn e argv i w) :
    ∃ n past rest a, Performed s e (n + 1) ∧ past ++ i :: rest = probes ∧
      Printing s e (n + 1) (network s e (n + 1)) a
        (prologue s e host ++ hopsEvents s e n ++ headEvents e (n + 1) ++
          probesEvents s e (n + 1) (network s e n) probes) past w := by
  obtain ⟨v, v₁, past, rest, hhead, hsend, hsplit, hrun⟩ := h
  obtain ⟨n, hperf, hv⟩ := atHead_ok hp hs hhead
  obtain ⟨v', v'', hv', hv'', hprinting⟩ := printing_ok hv ⟨i :: rest, hsplit⟩
  rw [hv'] at hsend
  cases hsend
  rw [hv''] at hrun
  cases hrun
  exact ⟨n, past, rest, _, hperf, hsplit, hprinting⟩

theorem exists_atLoop (hfd : 0 ≤ e.socket) {n : Nat} (hn : Performed s e n) :
    ∃ w, AtLoop e argv w ∧ AtHop s e (prologue s e host) n w := by
  induction n with
  | zero =>
    obtain ⟨w, hw, hzero⟩ := start_ok hp hs hfd
    exact ⟨w, ⟨w, hw, .here⟩, hzero⟩
  | succ n ih =>
    obtain ⟨w, ⟨v, hv, hvisits⟩, hw⟩ :=
      ih ⟨Nat.le_of_succ_le hn.le, fun k hk => hn.alive k (Nat.lt_succ_of_lt hk)⟩
    obtain ⟨w', hw', hnext⟩ := hop_ok hw
    have hrun := (running_iff hw).mpr ⟨hn.le, hn.alive n (Nat.lt_succ_self n)⟩
    exact ⟨w', ⟨v, hv, .next hvisits hrun hw'⟩, hnext⟩

theorem exists_atHead (hfd : 0 ≤ e.socket) {n : Nat} (hn : Performed s e (n + 1)) :
    ∃ w, AtHead e argv w ∧ Entered s e (prologue s e host) n w := by
  obtain ⟨v, hloop, hv⟩ := exists_atLoop hp hs hfd
    ⟨Nat.le_of_succ_le hn.le, fun k hk => hn.alive k (Nat.lt_succ_of_lt hk)⟩
  obtain ⟨w, hw, henter⟩ := enterHop_ok hv
  exact ⟨w, ⟨v, hloop, (running_iff hv).mpr ⟨hn.le, hn.alive n (Nat.lt_succ_self n)⟩, hw⟩, henter⟩

theorem exists_atProbe (hfd : 0 ≤ e.socket) {n : Nat} (hn : Performed s e (n + 1))
    {past : List Probe} (hsplit : ∃ rest, past ++ i :: rest = probes) :
    ∃ w a, AtProbe e argv i w ∧ Sending s e (n + 1) (network s e n) a
      (prologue s e host ++ hopsEvents s e n ++ headEvents e (n + 1)) past w := by
  obtain ⟨v, hhead, hv⟩ := exists_atHead hp hs hfd hn
  obtain ⟨rest, hrest⟩ := hsplit
  obtain ⟨w, hw, hsending⟩ := sending_ok hv (nodup_past hrest)
  exact ⟨w, _, ⟨v, past, rest, hhead, hrest, hw⟩, hsending⟩

theorem exists_atColumn (hfd : 0 ≤ e.socket) {n : Nat} (hn : Performed s e (n + 1))
    {past : List Probe} (hsplit : ∃ rest, past ++ i :: rest = probes) :
    ∃ w, AtColumn e argv i w ∧ w.data.ttl = n + 1 ∧
      ∀ j, w.data.recieved j = (e.recvfrom (n + 1) j).isSome := by
  obtain ⟨v, hhead, hv⟩ := exists_atHead hp hs hfd hn
  obtain ⟨rest, hrest⟩ := hsplit
  obtain ⟨v₁, w, hv₁, hw, hprinting⟩ := printing_ok hv ⟨i :: rest, hrest⟩
  exact ⟨w, ⟨v, v₁, past, rest, hhead, hv₁, hrest, hw⟩, hprinting.ttl, hprinting.recieved⟩

/-- `main` returns after at most `MAX_HOPS` hops, without a fault. -/
theorem main_ok (hfd : 0 ≤ e.socket) :
    ∃ T w, main e argv = .ok w ∧ Ended s e (prologue s e host) T w := by
  obtain ⟨v, hstart, hzero⟩ := start_ok hp hs hfd
  obtain ⟨T, u, -, hT, hloop, hu, hend, -, hbefore⟩ := whileM_ok Halt.unfinished
    (fun n w (hn : AtHop s e (prologue s e host) n w) ht => ((running_iff hn).mp ht).1)
    (fun n w hn _ => hop_ok hn) (maxHops + 1) hzero (by omega) (Nat.zero_le _)
  have hperf : Performed s e T := by
    refine ⟨hT, fun k hk => ?_⟩
    obtain ⟨u', hu', ht⟩ := hbefore k (Nat.zero_le _) hk
    exact ((running_iff hu').mp ht).2
  obtain ⟨m, hfree, hm, -, -, hips, hdns⟩ := freeProbesData_ok hu.sound
  have hfreed : Sound { u with mem := m }.mem := hm
  obtain ⟨m', hsend, hm', hsend', hret', hips', hdns'⟩ := freeSendpacketsData_ok hfreed
  refine ⟨T, _, by rw [main, hstart, ok_bind, hloop]; rfl, ?_⟩
  rw [hfree, hsend]
  constructor
  case toPerformed => exact hperf
  case stop =>
    have hstop := mt (running_iff hu).mpr (by simp [hend])
    rw [not_and, Bool.not_eq_true] at hstop
    exact (Nat.eq_or_lt_of_le hT).imp id hstop
  case ttl => exact hu.ttl
  case network => exact hu.network
  case destIp => exact hu.destIp
  case null =>
    rintro (i | i | i | i)
    · exact hsend' i
    · exact hret' i
    · exact (hips' i).trans (hips i)
    · exact (hdns' i).trans (hdns i)
  case sound => exact hm'
  case log => simp [hu.log]

end FtTraceroute.Run

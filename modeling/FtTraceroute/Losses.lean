import FtTraceroute.Contents
import FtTraceroute.Network

namespace FtTraceroute.Losses

open Library.Loops
open Libft Header Packet Parsing Main Script Accept Run Events Stop Decode Transcript
open Network

/-- In the system `e'` some of the answers and some of the signals of `e` are missing. -/
structure Fewer (e e' : Env) : Prop where
  getaddrinfo : e'.getaddrinfo = e.getaddrinfo
  socket : e'.socket = e.socket
  sentAt : e'.sentAt = e.sentAt
  recievedAt : e'.recievedAt = e.recievedAt
  getnameinfo : e'.getnameinfo = e.getnameinfo
  recvfrom : ∀ t i d, e'.recvfrom t i = some d → e.recvfrom t i = some d
  handler : ∀ p, e'.handler p = true → e.handler p = true

/-- The points after which hop `T` is the last one: those of the hop, or those in front of the
loop if there is none. -/
def Cuts (T : Nat) : Point → Prop
  | .raised | .built => T = 0
  | .hop t _ => t = T
  | _ => False

/-- Of the readings of `hop` some are missing in `hop'`, and the others are there. -/
def Loses (hop hop' : Nat × List Reading) : Prop :=
  hop'.1 = hop.1 ∧ List.Forall₂ (fun r r' => r' = none ∨ r' = r) hop.2 hop'.2

variable {s : Session} {e e' : Env} {host : CString} {argv : List CString} {t T T' : Nat}
  {i : Probe} {dest : InAddr} {icmp : Bool} {w w' : World}

theorem stops_fewer (h : Fewer e e') (hstop : Stops e' dest icmp t) : Stops e dest icmp t := by
  obtain ⟨i, d, hr, hd⟩ | ⟨hicmp, i, d, hr, hd⟩ | ⟨p, hp⟩ := hstop
  · exact .inl ⟨i, d, h.recvfrom t i d hr, hd⟩
  · exact .inr (.inl ⟨hicmp, i, d, h.recvfrom t i d hr, hd⟩)
  · exact .inr (.inr ⟨p, h.handler _ hp⟩)

theorem lastHop_fewer (h : Fewer e e') (hlast : LastHop e dest icmp T)
    (hlast' : LastHop e' dest icmp T') : T ≤ T' := by
  by_contra hlt
  obtain hzero | hpos := Nat.eq_zero_or_pos T'
  · have hT : T = 0 := hlast.zero.mpr ((hlast'.zero.mp hzero).imp (h.handler _) (h.handler _))
    omega
  · obtain hmax | hstop := hlast'.last hpos
    · have hle := hlast.le
      omega
    · exact hlast.before T' hpos (not_le.mp hlt) (stops_fewer h hstop)

/-- A run that is shorter than without the signals was cut off by one of them. -/
theorem exists_cut (hsame : e'.recvfrom = e.recvfrom) (hlast : LastHop e dest icmp T)
    (hlast' : LastHop e' dest icmp T') (hlt : T < T') :
    ∃ p, Cuts T p ∧ e.handler p = true ∧ e'.handler p = false := by
  obtain rfl | hpos := Nat.eq_zero_or_pos T
  · have hquiet : ¬ (e'.handler .raised = true ∨ e'.handler .built = true) :=
      fun hraised => hlt.ne' (hlast'.zero.mpr hraised)
    rw [not_or, Bool.not_eq_true, Bool.not_eq_true] at hquiet
    obtain hraised | hbuilt := hlast.zero.mp rfl
    · exact ⟨.raised, rfl, hraised, hquiet.1⟩
    · exact ⟨.built, rfl, hbuilt, hquiet.2⟩
  · have hgoes := hlast'.before T hpos hlt
    have hle := hlast'.le
    obtain ⟨i, d, hr, hd⟩ | ⟨hicmp, i, d, hr, hd⟩ | ⟨p, hp⟩ :=
      (hlast.last hpos).resolve_left (by omega)
    · exact absurd (.inl ⟨i, d, hsame ▸ hr, hd⟩) hgoes
    · exact absurd (.inr (.inl ⟨hicmp, i, d, hsame ▸ hr, hd⟩)) hgoes
    · exact ⟨.hop T p, rfl, hp, Bool.eq_false_iff.mpr fun hp' => hgoes (.inr (.inr ⟨p, hp'⟩))⟩

theorem exists_ended (hmain : main e argv = .ok w)
    (hresolve : ∀ host, .getaddrinfo host ∈ w.log → e'.getaddrinfo host = e.getaddrinfo host)
    (hfd : 0 ≤ e'.socket) : ∃ s host T w' T', Ended s e (prologue s e host) T w ∧
      main e' argv = .ok w' ∧ Ended s e' (prologue s e' host) T' w' := by
  obtain ⟨w₀, s, host, T, hp, hs, hend⟩ := ended_of_main hmain
  have hhost := hresolve host (by simp [hend.log, prologue])
  obtain ⟨T', w', hmain', hend'⟩ :=
    main_ok (parseDest_resolved hp hs.log hhost) (parsed_resolved hhost hs) hfd
  exact ⟨s, host, T, w', T', hend, hmain', hend'⟩

theorem socket_of_main (h : main e argv = .ok w) : 0 ≤ e.socket := by
  obtain ⟨v, hstart, -⟩ := bind_eq_ok.mp h
  obtain ⟨w₀, -, hfd⟩ := start_inv hstart
  exact hfd

theorem range_prefix (h : T ≤ T') : ∃ ks, List.range T' = List.range T ++ ks := by
  obtain ⟨k, rfl⟩ := Nat.exists_eq_add_of_le h
  exact ⟨_, List.range_add⟩

theorem sentBuffers_prefix (h : T ≤ T') (hend : Ended s e (prologue s e host) T w)
    (hend' : Ended s e' (prologue s e' host) T' w') :
    sentBuffers w.log <+: sentBuffers w'.log := by
  obtain ⟨ks, hks⟩ := range_prefix h
  rw [sentBuffers_log hend, sentBuffers_log hend', hks, List.flatMap_append]
  exact List.prefix_append _ _

/-- What is answered, lost or delayed, the clock, the names and the signals decide how many
datagrams are sent, and nothing else about them. -/
theorem datagrams_prefix (hmain : main e argv = .ok w) (hmain' : main e' argv = .ok w')
    (hresolve : ∀ host, .getaddrinfo host ∈ w.log → e'.getaddrinfo host = e.getaddrinfo host) :
    sentBuffers w.log <+: sentBuffers w'.log ∨ sentBuffers w'.log <+: sentBuffers w.log := by
  obtain ⟨s, host, T, v, T', hend, hv, hend'⟩ :=
    exists_ended hmain hresolve (socket_of_main hmain')
  obtain rfl : w' = v := Except.ok.inj (hmain'.symm.trans hv)
  apply (Nat.le_total T T').imp
  · intro hle
    exact sentBuffers_prefix hle hend hend'
  · intro hle
    exact sentBuffers_prefix hle hend' hend

theorem datagrams_prefix_twoNodes :
    ∃ w w', main (answering echoes twoNodes) icmpArgs = .ok w ∧
      main (silent target) icmpArgs = .ok w' ∧
      (sentBuffers w.log <+: sentBuffers w'.log ∨ sentBuffers w'.log <+: sentBuffers w.log) := by
  have hfd : (0 : Int) ≤ 3 := by decide
  obtain ⟨T, w, hmain, -⟩ := main_answering twoNodes
  have hresolve : ∀ host, .getaddrinfo host ∈ w.log →
      (silent target).getaddrinfo host = (answering echoes twoNodes).getaddrinfo host :=
    fun _ _ => rfl
  obtain ⟨-, -, -, w', -, -, hmain', -⟩ := exists_ended hmain hresolve hfd
  exact ⟨w, w', hmain, hmain', datagrams_prefix hmain hmain' hresolve⟩

theorem hopText_fewer (h : Fewer e e') (hsame : e'.recvfrom = e.recvfrom) (t : Nat) :
    hopText e' t = hopText e t := by
  simp only [hopText, columnOut, repeats, hsame, h.sentAt, h.recievedAt, h.getnameinfo]
  rfl

/-- Signals only shorten a run. With fewer of them it writes and sends the same and perhaps
more, and a run that they made shorter still completed the hop in which one came. -/
theorem signals_shorten (h : Fewer e e') (hsame : e'.recvfrom = e.recvfrom)
    (hmain : main e argv = .ok w) : ∃ w' T T', main e' argv = .ok w' ∧ T ≤ T' ∧
      marks w.log = ((List.range T).flatMap fun k => hopMarks (k + 1)) ∧
      marks w'.log = ((List.range T').flatMap fun k => hopMarks (k + 1)) ∧
      output w <+: output w' ∧ sentBuffers w.log <+: sentBuffers w'.log ∧
      (T < T' → ∃ p, Cuts T p ∧ e.handler p = true ∧ e'.handler p = false) := by
  obtain ⟨s, host, T, w', T', hend, hmain', hend'⟩ :=
    exists_ended hmain (fun host _ => congrFun h.getaddrinfo host) (h.socket ▸ socket_of_main hmain)
  have hlast := lastHop_of_ended hend
  have hlast' := lastHop_of_ended hend'
  have hle := lastHop_fewer h hlast hlast'
  refine ⟨w', T, T', hmain', hle, marks_log hend, marks_log hend', ?_,
    sentBuffers_prefix hle hend hend', exists_cut hsame hlast hlast'⟩
  obtain ⟨ks, hks⟩ := range_prefix hle
  simp only [output_eq hend, output_eq hend', hopText_fewer h hsame]
  rw [hks, List.map_append, ← List.cons_append, List.flatMap_append]
  exact List.prefix_append _ _

def signalled : Env :=
  { answering echoes twoNodes with handler := fun p => p = .hop 1 .entered }

theorem signals_shorten_twoNodes :
    ∃ w w' T T', main signalled icmpArgs = .ok w ∧
      main (answering echoes twoNodes) icmpArgs = .ok w' ∧ T ≤ T' ∧
      marks w.log = ((List.range T).flatMap fun k => hopMarks (k + 1)) ∧
      marks w'.log = ((List.range T').flatMap fun k => hopMarks (k + 1)) ∧
      output w <+: output w' ∧ sentBuffers w.log <+: sentBuffers w'.log ∧
      (T < T' → ∃ p, Cuts T p ∧ signalled.handler p = true ∧
        (answering echoes twoNodes).handler p = false) := by
  have hfewer : Fewer signalled (answering echoes twoNodes) :=
    ⟨rfl, rfl, rfl, rfl, rfl, fun _ _ _ h => h, nofun⟩
  have hp : parseDest signalled icmpArgs init = .ok _ := rfl
  obtain ⟨s, host, hs⟩ := parseDest_ok hp
  have hfd : (0 : Int) ≤ 3 := by decide
  obtain ⟨n, w, hmain, -⟩ := main_ok hp hs hfd
  obtain ⟨w', T, T', hmain', hcut⟩ := signals_shorten hfewer rfl hmain
  exact ⟨w, w', T, T', hmain, hmain', hcut⟩

theorem outcome_fewer (h : Fewer e e') (t : Nat) (i : Probe) :
    outcome e' t i = none ∨ outcome e' t i = outcome e t i := by
  rw [outcome, outcome]
  cases hr : e'.recvfrom t i with
  | none => exact .inl rfl
  | some d =>
    rw [h.recvfrom t i d hr, h.sentAt, h.recievedAt]
    exact .inr rfl

theorem loses_outcome (h : Fewer e e') (t : Nat) :
    Loses (t, probes.map (outcome e t)) (t, probes.map (outcome e' t)) := by
  refine ⟨rfl, ?_⟩
  rw [List.forall₂_map_left_iff, List.forall₂_map_right_iff, List.forall₂_same]
  exact fun i _ => outcome_fewer h t i

/-- Losing answers never ends a run earlier. Of the hops that the run reports with all its
answers, the run without some of them reports the same, but for the readings that are lost:
the others stand in their places as before. -/
theorem losses_lengthen (h : Fewer e e') (hmain : main e argv = .ok w) (hnames : Named e)
    (hhost : ∀ host, .getaddrinfo host ∈ w.log → 10 ∉ host.bytes) :
    ∃ w' trace trace' kept more, main e' argv = .ok w' ∧ readTrace (output w) = some trace ∧
      readTrace (output w') = some trace' ∧ trace'.head = trace.head ∧
      trace'.hops = kept ++ more ∧ List.Forall₂ Loses trace.hops kept := by
  obtain ⟨s, host, T, w', T', hend, hmain', hend'⟩ :=
    exists_ended hmain (fun host _ => congrFun h.getaddrinfo host) (h.socket ▸ socket_of_main hmain)
  have hnames' : Named e' := fun t i addr name hname => by
    rw [h.getnameinfo] at hname
    exact hnames t i addr name hname
  have hfeed : 10 ∉ host.bytes := hhost host (by simp [hend.log, prologue])
  have hle := lastHop_fewer h (lastHop_of_ended hend) (lastHop_of_ended hend')
  obtain ⟨ks, hks⟩ := range_prefix hle
  refine ⟨w', _, _, (List.range T).map fun k => (k + 1, probes.map (outcome e' (k + 1))),
    ks.map fun k => (k + 1, probes.map (outcome e' (k + 1))), hmain',
    readTrace_output hnames hfeed hend, readTrace_output hnames' hfeed hend', rfl, ?_, ?_⟩
  · rw [hks, List.map_append]
  · rw [List.forall₂_map_left_iff, List.forall₂_map_right_iff, List.forall₂_same]
    exact fun k _ => loses_outcome h (k + 1)

def lossy : Env :=
  { answering echoes twoNodes with
    recvfrom := fun t i => if i = 0 then none else some (answer echoes twoNodes t i) }

theorem losses_lengthen_twoNodes :
    ∃ w w' trace trace' kept more, main (answering echoes twoNodes) icmpArgs = .ok w ∧
      main lossy icmpArgs = .ok w' ∧ readTrace (output w) = some trace ∧
      readTrace (output w') = some trace' ∧ trace'.head = trace.head ∧
      trace'.hops = kept ++ more ∧ List.Forall₂ Loses trace.hops kept := by
  have hkept : ∀ t i d, lossy.recvfrom t i = some d →
      (answering echoes twoNodes).recvfrom t i = some d := by
    intro t i d h
    change (if i = 0 then none else some (answer echoes twoNodes t i)) = some d at h
    split at h
    · cases h
    · exact h
  have hfewer : Fewer (answering echoes twoNodes) lossy := ⟨rfl, rfl, rfl, rfl, rfl, hkept, nofun⟩
  obtain ⟨n, w, hmain, hend⟩ := main_answering twoNodes
  obtain ⟨w', trace, trace', kept, more, hmain', hread⟩ :=
    losses_lengthen hfewer hmain named_answering fun _ => lineFeed_notMem_host hend
  exact ⟨w, w', trace, trace', kept, more, hmain, hmain', hread⟩

end FtTraceroute.Losses

import FtTraceroute.Contents

namespace FtTraceroute.Exits

open Libft Header Numbers Packet Parsing Main Script Accept Run Events
open Replies Contents

/-- The ways in which the program exits without a trace: the code it exits with and all
that it has done before. -/
inductive Exit (e : Env) : Nat → List Event → Prop
  | usage : Exit e 0 [.print .usage]
  | unresolved {arg : CString} {ret : Int} : e.getaddrinfo arg = .error ret →
      Exit e 0 [.getaddrinfo arg, .print (.gaiError arg ret)]
  | badPacketlen {arg plen : CString} {dest : SockaddrIn} {index : Nat} {len num : Int} :
      e.getaddrinfo arg = .ok dest → ftAtoi plen = .ok len → isNum plen = .ok num →
      num = -1 ∨ len < 0 → Exit e 0 [.getaddrinfo arg, .print (.badPacketlen plen index)]
  | bigPacketlen {arg plen : CString} {dest : SockaddrIn} {len : Int} :
      e.getaddrinfo arg = .ok dest → ftAtoi plen = .ok len → isNum plen = .ok 1 →
      (maxPacketSize : Int) < len → Exit e 0 [.getaddrinfo arg, .print (.bigPacketlen len)]
  | noSocket {arg : CString} {dest : SockaddrIn} : e.getaddrinfo arg = .ok dest → e.socket < 0 →
      Exit e 1 (.getaddrinfo arg :: handled e .armed ++ [.socket, .print .socketError])

def complaint : Out → Bool
  | .usage | .gaiError _ _ | .badPacketlen _ _ | .bigPacketlen _ | .socketError | .notSent => true
  | _ => false

/-- The system `e`, with other bytes in the heap behind the datagrams. -/
def withSlack (slack : Nat → Probe → List UInt8) (e : Env) : Env :=
  { e with recvfrom := fun t i => (e.recvfrom t i).map fun d => { d with slack := slack t i } }

def Declined (e : Env) (x : Halt) : Prop := ∃ w, x = .exit 0 w ∧ Exit e 0 w.log

variable {e : Env} {s : Session} {host arg plen : CString} {argv : List CString} {index t T : Nat}
  {i : Probe} {ip : SockaddrIn} {o : Out} {x : Halt} {w w₀ : World}

theorem testDest_declined (hw : Fresh w) (h : testDest e arg w = .error x) : Declined e x := by
  cases hr : e.getaddrinfo arg with
  | error ret =>
    simp only [testDest, hr, Except.error.injEq] at h
    refine ⟨_, h.symm, ?_⟩
    rw [say, note_log, note_log, hw.log]
    exact .unresolved hr
  | ok dest => simp [testDest, hr] at h

theorem testPacketlen_declined (hw : Parsed e s host w) (hshort : plen.bytes.length < 2 ^ 31)
    (h : testPacketlen plen index w = .error x) : Declined e x := by
  have hscan := lt_of_le_of_lt (scanned_le plen.bytes) hshort
  have hatoi : ftAtoi plen = .ok (atoiValue plen) := by rw [ftAtoi_eq, within_of_lt hscan]
  have hnum := isNum_eq plen
  rw [within_of_lt (lt_of_le_of_lt (length_digits_le plen.bytes) hscan)] at hnum
  rw [testPacketlen_eq, if_neg (not_le.mpr hscan)] at h
  split at h
  · next hbad =>
    cases h
    refine ⟨_, rfl, ?_⟩
    rw [say, note_log, hw.log]
    exact .badPacketlen hw.resolved hatoi hnum (hbad.imp_left fun hall => by rw [hall]; rfl)
  · next hgood =>
    split at h
    · next hbig =>
      cases h
      obtain ⟨hall, -⟩ := not_or.mp hgood
      rw [Bool.not_eq_false] at hall
      rw [hall] at hnum
      refine ⟨_, rfl, ?_⟩
      rw [say, note_log, hw.log]
      exact .bigPacketlen hw.resolved hatoi hnum hbig
    · cases h

theorem parseDest_declined (hargs : ∀ arg ∈ argv, arg.bytes.length < 2 ^ 31)
    (h : parseDest e argv init = .error x) : Declined e x := by
  obtain ⟨v, hv, rfl⟩ | ⟨v, arg, hv, hdest⟩ | ⟨s, host, u, index, plen, hmem, hs, hlen⟩ :=
    parseDest_failed h
  · refine ⟨_, rfl, ?_⟩
    rw [say, note_log, hv.log]
    exact .usage
  · exact testDest_declined hv hdest
  · exact testPacketlen_declined hs (hargs plen hmem) hlen

theorem complaint_columnOut : complaint (columnOut e t i) = false := by
  unfold columnOut
  cases e.recvfrom t i with
  | none => rfl
  | some d => cases h : repeats e t i <;> simp [complaint]

def otherComplaint : Event → Option Out
  | .print .notSent => none
  | .print o => if complaint o then some o else none
  | _ => none

theorem otherComplaints_log (hend : Ended s e (prologue s e host) T w) :
    w.log.filterMap otherComplaint = [] := by
  have hhandler : ∀ p, otherComplaint (.handler p) = none := fun _ => rfl
  have hprologue : ∀ ev ∈ prologue s e host, otherComplaint ev = none := by
    intro ev hev
    obtain ⟨p, rfl⟩ | rfl | rfl | rfl := mem_prologue hev <;> rfl
  have hcolumn : ∀ t i, (columnEvents e t i).filterMap otherComplaint = [] := by
    intro t i
    have hout : otherComplaint (.print (columnOut e t i)) = none := by
      have hnone := @complaint_columnOut e t i
      cases hc : columnOut e t i <;> simp_all [otherComplaint, complaint]
    rw [filterMap_columnEvents hhandler, hout]
    split <;> rfl
  have hhop : ∀ t ip, (hopEvents s e t ip).filterMap otherComplaint = [] := by
    intro t ip
    rw [filterMap_hopEvents hhandler (fun _ _ => filterMap_probeEvents hhandler rfl) (hcolumn t)]
    rfl
  rw [filterMap_log hend hprologue rfl hhop, List.flatMap_eq_nil_iff]
  exact fun _ _ => rfl

theorem notSent_of_complaint (hend : Ended s e (prologue s e host) T w) (h : .print o ∈ w.log)
    (ho : complaint o = true) : o = .notSent := by
  have hnone := List.filterMap_eq_nil_iff.mp (otherComplaints_log hend) _ h
  cases o <;> simp_all [otherComplaint, complaint]

theorem notSent_mem_hopEvents :
    .print .notSent ∈ hopEvents s e t ip ↔ ∃ i, e.sendto t i = false := by
  have hprobe : ∀ ip i, .print .notSent ∈ probeEvents s e t ip i ↔ e.sendto t i = false := by
    intro ip i
    cases hs : e.sendto t i <;> simp [probeEvents, sendEvents, hs]
  have hcolumn : ∀ i, Out.notSent ≠ columnOut e t i := by
    intro i h
    have hnone := @complaint_columnOut e t i
    rw [← h] at hnone
    cases hnone
  have hcolumns : Event.print .notSent ∉ probes.flatMap (columnEvents e t) := by
    simp [columnEvents, hcolumn]
  simp only [hopEvents, headEvents, List.mem_append, hcolumns, mem_probesEvents_probes, hprobe]
  simp

theorem notSent_mem_log (hend : Ended s e (prologue s e host) T w) :
    .print .notSent ∈ w.log ↔ ∃ t i buf dst, .sendto t i buf dst false ∈ w.log := by
  have hmem : .print .notSent ∈ w.log ↔ ∃ k < T, ∃ i, e.sendto (k + 1) i = false := by
    rw [hend.log]
    simp [prologue, mem_hopsEvents, notSent_mem_hopEvents]
  rw [hmem]
  constructor
  · rintro ⟨k, hk, i, hfail⟩
    exact ⟨k + 1, i, _, _, (sendto_mem_log hend).mpr ⟨k, hk, rfl, rfl, rfl, hfail.symm⟩⟩
  · rintro ⟨t, i, buf, dst, hsend⟩
    obtain ⟨k, hk, rfl, -, -, hfail⟩ := (sendto_mem_log hend).mp hsend
    exact ⟨k, hk, i, hfail.symm⟩

/-- The bytes at which the program looks are inside a datagram of 22 bytes. The last ones are
those of `udpHdr.source`, which it tests without using the result. -/
theorem indistinct_withSlack (hlength : ∀ t i d, e.recvfrom t i = some d → 22 ≤ d.bytes.length)
    (slack : Nat → Probe → List UInt8) (icmp : Bool) : Indistinct icmp e (withSlack slack e) where
  getaddrinfo := rfl
  socket := rfl
  seen t i := by
    change ((e.recvfrom t i).map _).map _ = _
    cases hr : e.recvfrom t i with
    | none => rfl
    | some d =>
      have hd := hlength t i d hr
      have hbyte : ∀ (behind : List UInt8) (k : Nat), k < 22 →
          ({ d.toBlock with slack := behind } : Block).byte k = d.byte k := by
        intro behind k hk
        have hin : k < d.bytes.length := by omega
        simp only [Block.byte, List.getD_eq_getElem?_getD, List.getElem?_append_left hin]
      simp [seen, Block.saddr, Block.icmpType, hbyte (slack t i)]
  sentAt := rfl
  recievedAt := rfl
  getnameinfo := rfl
  handler := rfl

/-- Where an `int` can count every argument and every datagram has its headers, a run either
makes its trace and returns, or exits after one message, without a packet built or sent; the
code is 1 exactly if only the socket was missing. No run meets a fault. Whatever lies in the
heap behind the datagrams has no part in it. -/
theorem main_ends (e : Env) (argv : List CString) (hargs : ∀ arg ∈ argv, arg.bytes.length < 2 ^ 31)
    (hlength : ∀ t i d, e.recvfrom t i = some d → 22 ≤ d.bytes.length) :
    (((∃ w₀, parseDest e argv init = .ok w₀) ∧ 0 ≤ e.socket ∧
      ∃ w, main e argv = .ok w ∧ (∀ o, .print o ∈ w.log → complaint o = true → o = .notSent) ∧
        (.print .notSent ∈ w.log ↔ ∃ t i buf dst, .sendto t i buf dst false ∈ w.log)) ∨
    ∃ code w, main e argv = .error (.exit code w) ∧ Exit e code w.log ∧ w.mem.trace = [] ∧
      (code = 1 ↔ ∃ w₀, parseDest e argv init = .ok w₀)) ∧
    ∀ slack, written (main (withSlack slack e) argv) = written (main e argv) := by
  refine ⟨?_, fun slack => ?_⟩
  · cases hp : parseDest e argv init with
    | error x =>
      obtain ⟨w, rfl, hexit⟩ := parseDest_declined hargs hp
      cases parseDest_error hp with
      | exit hmem => exact .inr ⟨0, w, main_refused hp, hexit, by rw [hmem]; rfl, by simp⟩
    | ok w₀ =>
      obtain ⟨s, host, hs⟩ := parseDest_ok hp
      obtain hfd | hfd := lt_or_ge e.socket 0
      · obtain ⟨w, hmain, hmem, hlog⟩ := main_noSocket hp hs hfd
        exact .inr ⟨1, w, hmain, hlog ▸ .noSocket hs.resolved hfd, by rw [hmem]; rfl, by simp⟩
      · obtain ⟨T, w, hmain, hend⟩ := main_ok hp hs hfd
        exact .inl ⟨⟨w₀, rfl⟩, hfd, w, hmain, fun o => notSent_of_complaint hend,
          notSent_mem_log hend⟩
  · have halike := indistinct_withSlack hlength slack
    exact written_main rfl (start_indistinct (halike true) argv) fun w _ => halike _

def unsent : Env := { firstRouter with sendto := fun _ i => i ≠ 1 }

theorem main_ends_unsent : ∃ w, main unsent udpArgs = .ok w ∧ .print .notSent ∈ w.log ∧
    (∀ o, .print o ∈ w.log → complaint o = true → o = .notSent) ∧
    ∀ slack, written (main (withSlack slack unsent) udpArgs) = written (.ok w) := by
  have hargs : ∀ arg ∈ udpArgs, arg.bytes.length < 2 ^ 31 := by decide
  have hlength : ∀ t i d, unsent.recvfrom t i = some d → 22 ≤ d.bytes.length := by
    intro t i d hd
    change (if t = 1 ∧ i = 0 then some (timeExceeded router []) else none) = some d at hd
    split at hd
    · cases hd
      decide
    · cases hd
  have hp : parseDest unsent udpArgs init = .ok _ := rfl
  obtain ⟨s, host, hs⟩ := parseDest_ok hp
  obtain ⟨T, v, hok, hend⟩ := main_ok hp hs (by decide)
  obtain ⟨⟨-, -, w, hmain, honly, hsent⟩ | ⟨_, _, hexit, -⟩, hslack⟩ :=
    main_ends unsent udpArgs hargs hlength
  · rw [hok, Except.ok.injEq] at hmain
    subst hmain
    refine ⟨v, hok, hsent.mpr ?_, honly, fun slack => hok ▸ hslack slack⟩
    exact ⟨1, 1, _, _, (sendto_mem_log hend).mpr ⟨0, hend.hop_pos (by decide), rfl, rfl, rfl, rfl⟩⟩
  · rw [hok] at hexit
    cases hexit

end FtTraceroute.Exits

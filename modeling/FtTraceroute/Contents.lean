import FtTraceroute.Names
import FtTraceroute.Transcript

namespace FtTraceroute.Contents

open Libft Header Packet Parsing Main Script Accept Run Events Decode Names Transcript

def seen (icmp : Bool) (d : Datagram) : InAddr × Bool := (d.saddr, icmp && d.icmpType == 0)

/-- Two systems that the program cannot tell apart by what it looks at: the answers are
equal in their source and, in ICMP mode, in whether they are echo replies. -/
structure Indistinct (icmp : Bool) (e e' : Env) : Prop where
  getaddrinfo : e'.getaddrinfo = e.getaddrinfo
  socket : e'.socket = e.socket
  seen : ∀ t i, (e'.recvfrom t i).map (seen icmp) = (e.recvfrom t i).map (seen icmp)
  sentAt : e'.sentAt = e.sentAt
  recievedAt : e'.recievedAt = e.recievedAt
  getnameinfo : e'.getnameinfo = e.getnameinfo
  handler : e'.handler = e.handler

/-- What leaves the program: the exit code of an early exit, the standard output and the
datagrams. -/
def written : Except Halt World → Option (Option Nat × List UInt8 × List (List UInt8))
  | .ok w => some (none, output w, sentBuffers w.log)
  | .error (.exit code w) => some (some code, output w, sentBuffers w.log)
  | .error _ => none

variable {s : Session} {e e' : Env} {host : CString} {argv : List CString} {t n T T' : Nat}
  {i : Probe} {icmp : Bool} {w w' : World}

theorem any_seen (h : Indistinct icmp e e') {p : Datagram → Bool} (q : InAddr × Bool → Bool)
    (hq : ∀ d, p d = q (seen icmp d)) (t : Nat) (i : Probe) :
    (e'.recvfrom t i).any p = (e.recvfrom t i).any p := by
  have hmap : ∀ r : Option Datagram, r.any p = (r.map (seen icmp)).any q := fun r => by
    cases r with
    | none => rfl
    | some d => exact hq d
  rw [hmap, hmap, h.seen]

theorem aliveAfter_indistinct (h : Indistinct s.icmp e e') :
    aliveAfter s e' n = aliveAfter s e n := by
  have hecho := any_seen h Prod.snd (fun d => rfl : ∀ d, echoReply s d = _)
  have hdest := any_seen h (fun x => x.1 == s.dest.sinAddr) (fun d => rfl : ∀ d, fromDest s d = _)
  have hquiet : ∀ t, quiet s e' t = quiet s e t := fun t => by
    have hprobe : probeQuiet s e' t = probeQuiet s e t := funext fun i => by
      rw [probeQuiet, probeQuiet, h.handler, hecho]
    have hcolumn : columnQuiet s e' t = columnQuiet s e t := funext fun i => by
      rw [columnQuiet, columnQuiet, h.handler, hdest]
    rw [quiet, quiet, h.handler, hprobe, hcolumn]
  induction n with
  | zero => rw [aliveAfter, aliveAfter, h.handler]
  | succ n ih => rw [aliveAfter, aliveAfter, ih, hquiet]

theorem saddr_indistinct (h : Indistinct icmp e e') (t : Nat) (i : Probe) :
    (e'.recvfrom t i).map (fun d => d.saddr) = (e.recvfrom t i).map (fun d => d.saddr) := by
  have hsource := congrArg (Option.map Prod.fst) (h.seen t i)
  rwa [Option.map_map, Option.map_map] at hsource

theorem repeats_indistinct (h : Indistinct icmp e e') (t : Nat) (i : Probe) :
    repeats e' t i = repeats e t i := by
  have hmap : ∀ f : Env, repeats f t i = (i ≠ 0 &&
      ((f.recvfrom t i).map fun d => d.saddr).any fun a =>
        ((f.recvfrom t (i - 1)).map fun d => d.saddr).any fun b => a == b) := fun f => by
    rw [repeats]
    cases f.recvfrom t i <;> cases f.recvfrom t (i - 1) <;> rfl
  rw [hmap, hmap, saddr_indistinct h, saddr_indistinct h]

theorem columnOut_indistinct (h : Indistinct icmp e e') (t : Nat) (i : Probe) :
    columnOut e' t i = columnOut e t i := by
  have hsource := saddr_indistinct h t i
  rw [columnOut, columnOut, repeats_indistinct h, h.sentAt, h.recievedAt, h.getnameinfo]
  cases hr : e.recvfrom t i with
  | none =>
    rw [hr, Option.map_none, Option.map_eq_none_iff] at hsource
    rw [hsource]
  | some d =>
    rw [hr, Option.map_some] at hsource
    obtain ⟨d', hr', hd'⟩ := Option.map_eq_some_iff.mp hsource
    rw [hr']
    simp only [hd']

theorem hopText_indistinct (h : Indistinct icmp e e') (t : Nat) : hopText e' t = hopText e t := by
  simp only [hopText, columnOut_indistinct h]

theorem written_ended (h : Indistinct s.icmp e e') (hend : Ended s e (prologue s e host) T w)
    (hend' : Ended s e' (prologue s e' host) T' w') : written (.ok w') = written (.ok w) := by
  have hle := hend.le_of_performed
    ⟨hend'.le, fun k hk => (aliveAfter_indistinct h).symm.trans (hend'.alive k hk)⟩
  have hge := hend'.le_of_performed
    ⟨hend.le, fun k hk => (aliveAfter_indistinct h).trans (hend.alive k hk)⟩
  obtain rfl : T = T' := Nat.le_antisymm hge hle
  simp only [written, output_eq hend, output_eq hend', sentBuffers_log hend, sentBuffers_log hend',
    hopText_indistinct h]

theorem start_indistinct (h : Indistinct icmp e e') (argv : List CString) :
    start e' argv = start e argv := by
  let e₁ : Env := { e' with recvfrom := e.recvfrom, sendto := e.sendto }
  have halike : Alike e e₁ := ⟨h.getaddrinfo, h.socket, rfl, rfl, h.handler⟩
  exact start_alike halike argv

theorem written_main (hresolve : e'.getaddrinfo = e.getaddrinfo)
    (hstart : start e' argv = start e argv)
    (h : ∀ w, parseDest e argv init = .ok w → Indistinct w.data.icmpRoute e e') :
    written (main e' argv) = written (main e argv) := by
  cases hs : start e argv with
  | error x => rw [main_error hs, main_error (hstart.trans hs)]
  | ok v =>
    obtain ⟨w₀, hp, hfd⟩ := start_inv hs
    obtain ⟨-, -, hfd'⟩ := start_inv (hstart.trans hs)
    obtain ⟨s, host, hparsed⟩ := parseDest_ok hp
    obtain ⟨T, w, hmain, hend⟩ := main_ok hp hparsed hfd
    have hhost := congrFun hresolve host
    obtain ⟨T', w', hmain', hend'⟩ :=
      main_ok (parseDest_resolved hp hparsed.log hhost) (parsed_resolved hhost hparsed) hfd'
    have hmode : w₀.data.icmpRoute = s.icmp := hparsed.held.icmp
    rw [hmain, hmain']
    exact written_ended (hmode ▸ h w₀ hp) hend hend'

/-- Of an answer only the source address and, in ICMP mode, the type byte matter. What it
quotes, its ports, identifiers, checksums and length, the sender that `recvfrom` reports and
whether a `sendto` failed change neither a datagram nor a byte of the standard output. -/
theorem ignores_contents (h : Indistinct icmp e e')
    (hmode : ∀ w, parseDest e argv init = .ok w → w.data.icmpRoute = icmp) :
    written (main e' argv) = written (main e argv) :=
  written_main h.getaddrinfo (start_indistinct h argv) fun w hw => (hmode w hw).symm ▸ h

def bareAnswer (d : Datagram) : Datagram where
  bytes := (d.bytes ++ d.slack).take 21
  slack := []
  fits := (List.length_take_le _ _).trans (by decide)
  sender := ⟨0, 0, ⟨0, 0, 0, 0⟩⟩

def bare (e : Env) : Env :=
  { e with
    sendto := fun _ _ => false
    recvfrom := fun t i => (e.recvfrom t i).map bareAnswer }

theorem byte_bareAnswer {k : Nat} (hk : k < 21) (d : Datagram) :
    (bareAnswer d).byte k = d.byte k := by
  change ((d.bytes ++ d.slack).take 21 ++ []).getD k 0 = (d.bytes ++ d.slack).getD k 0
  rw [List.append_nil, List.getD_eq_getElem?_getD, List.getD_eq_getElem?_getD,
    List.getElem?_take_of_lt hk]

theorem indistinct_bare (icmp : Bool) (e : Env) : Indistinct icmp e (bare e) where
  getaddrinfo := rfl
  socket := rfl
  seen t i := by
    have hseen : ∀ d, seen icmp (bareAnswer d) = seen icmp d := fun d => by
      simp only [seen, Block.saddr, Block.icmpType, byte_bareAnswer (show 12 < 21 by decide),
        byte_bareAnswer (show 13 < 21 by decide), byte_bareAnswer (show 14 < 21 by decide),
        byte_bareAnswer (show 15 < 21 by decide), byte_bareAnswer (show 20 < 21 by decide)]
    change ((e.recvfrom t i).map bareAnswer).map _ = _
    rw [Option.map_map]
    exact congrArg (Option.map · (e.recvfrom t i)) (funext hseen)
  sentAt := rfl
  recievedAt := rfl
  getnameinfo := rfl
  handler := rfl

theorem ignores_contents_bare :
    written (main (bare gateway) udpArgs) = written (main gateway udpArgs) := by
  refine ignores_contents (indistinct_bare false gateway) fun w hw => ?_
  have hp : parseDest gateway udpArgs init = .ok _ := rfl
  rw [hp] at hw
  cases hw
  rfl

end FtTraceroute.Contents

import FtTraceroute.Inet
import FtTraceroute.Packet
import FtTraceroute.Recieve

namespace FtTraceroute.Script

open Libft Header Inet Packet Recieve

def arrive (ip : SockaddrIn) (r : Option Datagram) : SockaddrIn := (r.map Datagram.sender).getD ip

/-- Address in `networkIp` after the probes in `done` of hop `t`, if it was `ip` before. -/
def sender (e : Env) (t : Nat) (ip : SockaddrIn) (done : List Probe) : SockaddrIn :=
  done.foldl (fun ip i => arrive ip (e.recvfrom t i)) ip

def handled (e : Env) (p : Point) : List Event := if e.handler p then [.handler p] else []

/-- Whether the column of probe `i` is printed in its short form. -/
def repeats (e : Env) (t : Nat) (i : Probe) : Bool :=
  i ≠ 0 && (e.recvfrom t i).any fun d => (e.recvfrom t (i - 1)).any fun d' => d.saddr == d'.saddr

def columnOut (e : Env) (t : Nat) (i : Probe) : Out :=
  match e.recvfrom t i with
  | none => .star
  | some d =>
    let time := convertToMilliseconds (e.recievedAt t i) (e.sentAt t i)
    if repeats e t i then .again time
    else .route ((e.getnameinfo t i d.saddr).getD (inetNtop d.saddr)) (inetNtop d.saddr) time

def columnEvents (e : Env) (t : Nat) (i : Probe) : List Event :=
  .print (columnOut e t i) :: (if i = 2 then [.print .newline] else []) ++
    handled e (.hop t (.printed i))

variable (s : Session) (e : Env)

def prologue (host : CString) : List Event :=
  .getaddrinfo host :: handled e .armed ++ [.socket] ++ handled e .opened ++
    [.print (.head (some host) (some (inetNtop s.dest.sinAddr)) maxHops (s.size + 28))] ++
    handled e .headed ++ handled e .raised ++ handled e .built

/-- Address in `networkIp` after `n` hops. -/
def network : Nat → SockaddrIn
  | 0 => s.dest
  | n + 1 => sender e (n + 1) (network n) probes

def sendEvents (t : Nat) (ip : SockaddrIn) (i : Probe) : List Event :=
  .sendto t i (s.packet t i) (some ip) (e.sendto t i) ::
    if e.sendto t i then [] else [.print .notSent]

def probeEvents (t : Nat) (ip : SockaddrIn) (i : Probe) : List Event :=
  sendEvents s e t ip i ++ handled e (.hop t (.sent i)) ++
    .recvfrom t i (e.recvfrom t i) :: handled e (.hop t (.recieved i))

def probesEvents (t : Nat) (ip : SockaddrIn) : List Probe → List Event
  | [] => []
  | i :: is => probeEvents s e t ip i ++ probesEvents t (arrive ip (e.recvfrom t i)) is

def headEvents (t : Nat) : List Event :=
  handled e (.hop t .entered) ++ handled e (.hop t .updated) ++ [.print (.ttl t)]

/-- All that happens during hop `t`, entered with `ip` in `networkIp`. -/
def hopEvents (t : Nat) (ip : SockaddrIn) : List Event :=
  headEvents e t ++ probesEvents s e t ip probes ++ probes.flatMap (columnEvents e t) ++
    handled e (.hop t .freed) ++ handled e (.hop t .counted)

def hopsEvents (n : Nat) : List Event :=
  (List.range n).flatMap fun k => hopEvents s e (k + 1) (network s e k)

def fromDest (d : Datagram) : Bool := d.saddr == s.dest.sinAddr

def echoReply (d : Datagram) : Bool := s.icmp && d.icmpType == 0

def probeQuiet (t : Nat) (i : Probe) : Bool :=
  !e.handler (.hop t (.sent i)) && !(e.recvfrom t i).any (echoReply s) &&
    !e.handler (.hop t (.recieved i))

def columnQuiet (t : Nat) (i : Probe) : Bool :=
  !(e.recvfrom t i).any (fromDest s) && !e.handler (.hop t (.printed i))

/-- Nothing that happens during hop `t` clears `alive`. -/
def quiet (t : Nat) : Bool :=
  !e.handler (.hop t .entered) && !e.handler (.hop t .updated) && probes.all (probeQuiet s e t) &&
    probes.all (columnQuiet s e t) && !e.handler (.hop t .freed) && !e.handler (.hop t .counted)

def aliveAfter : Nat → Bool
  | 0 => !e.handler .raised && !e.handler .built
  | n + 1 => aliveAfter n && quiet s e (n + 1)

theorem aliveAfter_silent (dest : SockaddrIn) (n : Nat) : aliveAfter s (silent dest) n = true := by
  induction n with
  | zero => rfl
  | succ n ih =>
    have hquiet : quiet s (silent dest) (n + 1) = true := by
      simp [quiet, probeQuiet, columnQuiet, silent]
    rw [aliveAfter, ih, hquiet]
    rfl

theorem aliveAfter_of_le {k n : Nat} (h : k ≤ n) (hn : aliveAfter s e n = true) :
    aliveAfter s e k = true := by
  induction n, h using Nat.le_induction with
  | base => exact hn
  | succ n _ ih => exact ih (Bool.and_eq_true_iff.mp hn).1

theorem sender_concat (t : Nat) (ip : SockaddrIn) (done : List Probe) (i : Probe) :
    sender e t ip (done ++ [i]) = arrive (sender e t ip done) (e.recvfrom t i) := by
  simp [sender]

theorem probesEvents_concat (t : Nat) (ip : SockaddrIn) (done : List Probe) (i : Probe) :
    probesEvents s e t ip (done ++ [i]) =
      probesEvents s e t ip done ++ probeEvents s e t (sender e t ip done) i := by
  induction done generalizing ip with
  | nil => simp [probesEvents, sender]
  | cons j done ih => simp [probesEvents, sender, ih]

theorem hopsEvents_succ (n : Nat) :
    hopsEvents s e (n + 1) = hopsEvents s e n ++ hopEvents s e (n + 1) (network s e n) := by
  simp [hopsEvents, List.range_succ]

end FtTraceroute.Script

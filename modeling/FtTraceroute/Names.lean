import FtTraceroute.Events

namespace FtTraceroute.Names

open Libft Header Inet Packet Parsing Main Script Columns Accept Run Events

/-- An event without the text of its name and time fields. -/
def hideText : Event → Event
  | .print (.again _) => .print (.again 0)
  | .print (.route _ ip _) => .print (.route ip ip 0)
  | ev => ev

/-- What is seen of a run when names and times are hidden: its exit code, if it exits
early, and its log. The log holds every datagram given to `sendto`, every receive, the
hops and the form of every column. -/
def observe : Except Halt World → Option (Option Nat × List Event)
  | .ok w => some (none, w.log.map hideText)
  | .error (.exit code w) => some (some code, w.log.map hideText)
  | .error _ => none

def renamed (e : Env) (getnameinfo : Nat → Probe → InAddr → Option CString)
    (sentAt recievedAt : Nat → Probe → Timeval) : Env :=
  { e with getnameinfo := getnameinfo, sentAt := sentAt, recievedAt := recievedAt }

variable {s : Session} {e e' : Env} {host : CString} {argv : List CString} {t n T T' : Nat}
  {i : Probe} {ip : SockaddrIn} {w w' w₀ : World}

/-- What two systems share that differ in names and clocks only. -/
structure Alike (e e' : Env) : Prop where
  getaddrinfo : e'.getaddrinfo = e.getaddrinfo
  socket : e'.socket = e.socket
  sendto : e'.sendto = e.sendto
  recvfrom : e'.recvfrom = e.recvfrom
  handler : e'.handler = e.handler

theorem alike_renamed (e : Env) (g : Nat → Probe → InAddr → Option CString)
    (f f' : Nat → Probe → Timeval) : Alike e (renamed e g f f') :=
  ⟨rfl, rfl, rfl, rfl, rfl⟩

theorem deliver_alike (h : Alike e e') (p : Point) (w : World) :
    deliver e' p w = deliver e p w := by
  rw [deliver, deliver, h.handler]

theorem testDest_alike (h : Alike e e') (arg : CString) (w : World) :
    testDest e' arg w = testDest e arg w := by
  rw [testDest, testDest, h.getaddrinfo]

theorem parseDest_alike (h : Alike e e') (argv : List CString) (w : World) :
    parseDest e' argv w = parseDest e argv w := by
  simp only [parseDest, testDest_alike h]

theorem start_alike (h : Alike e e') (argv : List CString) : start e' argv = start e argv := by
  have hinit : ∀ w, initData e' w = initData e w := fun w => by
    simp only [initData, createSocket, h.socket]
  simp only [start, parseDest_alike h, hinit, deliver_alike h]

theorem handled_alike (h : Alike e e') (p : Point) : handled e' p = handled e p := by
  rw [handled, handled, h.handler]

theorem sender_alike (h : Alike e e') (done : List Probe) :
    sender e' t ip done = sender e t ip done := by
  rw [sender, sender, h.recvfrom]

theorem network_alike (h : Alike e e') : network s e' n = network s e n := by
  induction n with
  | zero => rfl
  | succ n ih => rw [network, network, ih, sender_alike h]

theorem aliveAfter_alike (h : Alike e e') : aliveAfter s e' n = aliveAfter s e n := by
  have hprobe : ∀ t i, probeQuiet s e' t i = probeQuiet s e t i := fun t i => by
    rw [probeQuiet, probeQuiet, h.handler, h.recvfrom]
  have hcolumn : ∀ t i, columnQuiet s e' t i = columnQuiet s e t i := fun t i => by
    rw [columnQuiet, columnQuiet, h.handler, h.recvfrom]
  have hquiet : ∀ t, quiet s e' t = quiet s e t := fun t => by
    rw [quiet, quiet, h.handler, funext (hprobe t), funext (hcolumn t)]
  induction n with
  | zero => rw [aliveAfter, aliveAfter, h.handler]
  | succ n ih => rw [aliveAfter, aliveAfter, ih, hquiet]

theorem prologue_alike (h : Alike e e') : prologue s e' host = prologue s e host := by
  simp only [prologue, handled_alike h]

theorem probesEvents_alike (h : Alike e e') (xs : List Probe) :
    probesEvents s e' t ip xs = probesEvents s e t ip xs := by
  have hprobe : ∀ ip i, probeEvents s e' t ip i = probeEvents s e t ip i := fun ip i => by
    simp only [probeEvents, sendEvents, handled_alike h, h.sendto, h.recvfrom]
  induction xs generalizing ip with
  | nil => rfl
  | cons i xs ih => rw [probesEvents, probesEvents, hprobe, h.recvfrom, ih]

theorem hideText_columnOut (h : Alike e e') :
    hideText (.print (columnOut e' t i)) = hideText (.print (columnOut e t i)) := by
  have hrepeats : repeats e' t i = repeats e t i := by rw [repeats, repeats, h.recvfrom]
  simp only [columnOut, hrepeats, h.recvfrom]
  cases e.recvfrom t i with
  | none => rfl
  | some d =>
    cases hrep : repeats e t i with
    | false => rfl
    | true => rfl

theorem hideText_hopEvents (h : Alike e e') :
    (hopEvents s e' t ip).map hideText = (hopEvents s e t ip).map hideText := by
  have hcolumn : ∀ i, (columnEvents e' t i).map hideText = (columnEvents e t i).map hideText := by
    intro i
    simp only [columnEvents, List.cons_append, List.map_cons, hideText_columnOut h, handled_alike h]
  have hcolumns : (probes.flatMap (columnEvents e' t)).map hideText =
      (probes.flatMap (columnEvents e t)).map hideText := by
    rw [List.map_flatMap, List.map_flatMap, funext hcolumn]
  simp only [hopEvents, headEvents, List.map_append, hcolumns, probesEvents_alike h, handled_alike h]

theorem hideText_hopsEvents (h : Alike e e') :
    (hopsEvents s e' n).map hideText = (hopsEvents s e n).map hideText := by
  rw [hopsEvents, hopsEvents, List.map_flatMap, List.map_flatMap]
  apply List.flatMap_congr
  intro k _
  rw [network_alike h, hideText_hopEvents h]

theorem performed_alike (h : Alike e e') (hn : Performed s e n) : Performed s e' n :=
  ⟨hn.le, fun k hk => (aliveAfter_alike h).trans (hn.alive k hk)⟩

theorem observe_ended (h : Alike e e') (hend : Ended s e (prologue s e host) T w)
    (hend' : Ended s e' (prologue s e' host) T' w') :
    observe (.ok w') = observe (.ok w) := by
  have hback : Alike e' e :=
    ⟨h.getaddrinfo.symm, h.socket.symm, h.sendto.symm, h.recvfrom.symm, h.handler.symm⟩
  have hle := hend.le_of_performed (performed_alike hback hend'.toPerformed)
  have hge := hend'.le_of_performed (performed_alike h hend.toPerformed)
  obtain rfl : T = T' := Nat.le_antisymm hge hle
  simp only [observe, hend.log, hend'.log, List.map_append, prologue_alike h, hideText_hopsEvents h]

theorem observe_alike (h : Alike e e') (argv : List CString) :
    observe (main e' argv) = observe (main e argv) := by
  have hstart := start_alike h argv
  cases hs : start e argv with
  | error x => rw [main_error hs, main_error (hstart.trans hs)]
  | ok v =>
    obtain ⟨w₀, hp, hfd⟩ := start_inv hs
    obtain ⟨-, -, hfd'⟩ := start_inv (hstart.trans hs)
    obtain ⟨s, host, hparsed⟩ := parseDest_ok hp
    obtain ⟨T, w, hmain, hend⟩ := main_ok hp hparsed hfd
    have hparsed' : Parsed e' s host w₀ :=
      ⟨(congrFun h.getaddrinfo host).trans hparsed.resolved, hparsed.held, hparsed.network,
        hparsed.destIp, hparsed.inputDest, hparsed.mem, hparsed.log⟩
    have hp' := (parseDest_alike h argv init).trans hp
    obtain ⟨T', w', hmain', hend'⟩ := main_ok hp' hparsed' hfd'
    rw [hmain, hmain']
    exact observe_ended h hend hend'

/-- Reverse DNS and the clocks change the text of names and times, and nothing else. -/
theorem observe_renamed (e : Env) (argv : List CString)
    (getnameinfo : Nat → Probe → InAddr → Option CString)
    (sentAt recievedAt : Nat → Probe → Timeval) :
    observe (main (renamed e getnameinfo sentAt recievedAt) argv) = observe (main e argv) :=
  observe_alike (alike_renamed e getnameinfo sentAt recievedAt) argv

end FtTraceroute.Names

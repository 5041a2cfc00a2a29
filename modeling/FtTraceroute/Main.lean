import FtTraceroute.Library.Loops
import FtTraceroute.Output
import FtTraceroute.Parsing
import FtTraceroute.Recieve
import FtTraceroute.Send

namespace FtTraceroute.Main

open Library.OwnedSlots Library.Loops Libft Header Parsing Send Recieve Output

def createSocket (e : Env) (w : World) : Except Halt World :=
  let w := note .socket w
  if e.socket < 0 then .error (.exit 1 (say .socketError w))
  else .ok { w with data := { w.data with sockFd := e.socket } }

def initData (e : Env) (w : World) : Except Halt World :=
  createSocket e { w with data := { w.data with ttl := 1 } }

def freeProbesData (w : World) : World :=
  probes.foldl (fun w i => { w with
    mem := dispose (.resDns i) (dispose (.resIps i) (dispose (.retpack i) w.mem)) }) w

def freeSendpacketsData (w : World) : World :=
  note .freeNetworkIp (probes.foldl (fun w i => { w with
    mem := dispose (.retpack i) (dispose (.sendpack i) w.mem) }) w)

def setRecieved (i : Probe) (r : Bool × World) : World :=
  { r.2 with data := { r.2.data with recieved := Function.update r.2.data.recieved i r.1 } }

/-- One turn of the loop of `send_recieve`. -/
def probe (e : Env) (w : World) (i : Probe) : Except Halt World := do
  let sent ← sendPacket e i w
  let w' := setRecieved i (recievePacket e i (deliver e (.hop w.data.ttl (.sent i)) sent))
  pure (deliver e (.hop w.data.ttl (.recieved i)) w')

def clearRecieved (w : World) : World :=
  { w with data := { w.data with recieved := fun _ => false } }

def sendRecieve (e : Env) (w : World) : Except Halt World :=
  probes.foldlM (probe e) (say (.ttl w.data.ttl) (clearRecieved w))

/-- One turn of the loop of `print_probes_output`. -/
def column (e : Env) (w : World) (i : Probe) : Except Halt World := do
  let w ← printProbeData e w i
  pure (deliver e (.hop w.data.ttl (.printed i)) w)

def printProbesOutput (e : Env) (w : World) : Except Halt World := probes.foldlM (column e) w

/-- The head of the loop body of `main`, up to `send_recieve`. -/
def enterHop (e : Env) (w : World) : Except Halt World := do
  let w := deliver e (.hop w.data.ttl .entered) w
  let w ← if w.data.ttl ≠ 1 then updatePackets w else pure w
  pure (deliver e (.hop w.data.ttl .updated) w)

/-- The end of the loop body of `main`, from `free_probes_data` on. -/
def leaveHop (e : Env) (w : World) : World :=
  let t := w.data.ttl
  let w := deliver e (.hop t .freed) (freeProbesData w)
  deliver e (.hop t .counted) { w with data := { w.data with ttl := w.data.ttl + 1 } }

def hop (e : Env) (w : World) : Except Halt World := do
  let w ← enterHop e w
  let w ← sendRecieve e w
  let w ← printProbesOutput e w
  pure (leaveHop e w)

def running (w : World) : Bool := w.data.ttl ≤ maxHops && w.data.alive

/-- `main` up to its loop. -/
def start (e : Env) (argv : List CString) : Except Halt World := do
  let w ← parseDest e argv init
  let w ← initData e (deliver e .armed w)
  let w := deliver e .headed (printHead (deliver e .opened w))
  let w := deliver e .raised { w with data := { w.data with alive := true } }
  let w ← constructPackets w
  pure (deliver e .built w)

def main (e : Env) (argv : List CString) : Except Halt World := do
  let w ← start e argv
  let w ← whileM running (hop e) .unfinished (maxHops + 1) w
  pure (freeSendpacketsData (freeProbesData w))

end FtTraceroute.Main

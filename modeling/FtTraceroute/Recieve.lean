import FtTraceroute.Header
import FtTraceroute.Library.Rounding

namespace FtTraceroute.Recieve

open Library.OwnedSlots Library.Rounding Header

/-- The `double` nearest to a number that is neither too large nor too small for one. -/
def double (q : ℚ) : ℚ := roundDigits 53 q

def convertToMilliseconds (time base : Timeval) : ℚ :=
  let fMicro := double
    ((time.tvUsec - base.tvUsec) + (time.tvSec - base.tvSec) * 1000000 : Int)
  double (fMicro / 1000)

/-- `recvfrom` is given `networkIp` to store the sender in. -/
def storeSender (sender : SockaddrIn) (w : World) : World :=
  { w with data := { w.data with networkIp := w.data.networkIp.map fun _ => sender } }

def recievePacket (e : Env) (i : Probe) (w : World) : Bool × World :=
  let t := w.data.ttl
  let w := note (.recvfrom t i (e.recvfrom t i)) w
  match e.recvfrom t i with
  | none => (false, { w with mem := clear (.retpack i) w.mem })
  | some d =>
    let w := storeSender d.sender w
    let w := { w with mem := fill (.retpack i) d.toBlock w.mem }
    let w := { w with data := { w.data with
      recieveTime := Function.update w.data.recieveTime i (e.recievedAt t i) } }
    let w := { w with mem := touch (.retpack i) w.mem }
    let w := if w.data.icmpRoute && d.icmpType == 0
      then { w with data := { w.data with alive := false } } else w
    let time := convertToMilliseconds (w.data.recieveTime i) (w.data.sendTime i)
    (true, { w with data := { w.data with probeTimes := Function.update w.data.probeTimes i time } })

end FtTraceroute.Recieve

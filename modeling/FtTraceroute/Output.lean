import FtTraceroute.Inet

namespace FtTraceroute.Output

open Library.OwnedSlots Libft Header Inet

def printHead (w : World) : World :=
  say (.head w.data.inputDest w.data.destIp maxHops w.data.totalSize) w

/-- `data.resDns[index] = ft_strdup(buff)`, if `getnameinfo` found a name. -/
def storeName (index : Probe) : Option CString → Slots Slot Content → Slots Slot Content
  | some name, m => fill (.resDns index) name m
  | none, m => m

def storeAddress (e : Env) (t : Nat) (index : Probe) (saddr : InAddr) (m : Slots Slot Content) :
    Slots Slot Content :=
  fill (.resIps index) (inetNtop saddr)
    (touch (.retpack index)
      (storeName index (e.getnameinfo t index saddr) (touch (.retpack index) m)))

def getAddress (e : Env) (index : Probe) (w : World) : Except Halt World :=
  match val w.mem (.retpack index) with
  | none => .error .nullPointer
  | some packet => .ok { w with mem := storeAddress e w.data.ttl index packet.saddr w.mem }

/-- The test of `print_route` for an address equal to the previous column's. A null
argument of `ft_strcmp` is a fault. -/
def sameAsPrevious (index : Probe) (w : World) : Except Halt (Bool × World) :=
  if index ≠ 0 ∧ w.data.recieved (index - 1) = true then
    match val w.mem (.resIps index), val w.mem (.resIps (index - 1)) with
    | some ip, some before => do
      let order ← (ftStrcmp ip before).mapError fun _ => .overrun w
      .ok (decide (order = 0),
        { w with mem := touch (.resIps (index - 1)) (touch (.resIps index) w.mem) })
    | _, _ => .error .nullPointer
  else .ok (false, w)

def printRoute (e : Env) (index : Probe) (w : World) : Except Halt World := do
  let w ← getAddress e index w
  let (same, w) ← sameAsPrevious index w
  if same then
    pure (say (.again (w.data.probeTimes index)) w)
  else
    match val w.mem (.resIps index), w.data.destIp with
    | some ip, some destIp => do
      let target := (val w.mem (.resDns index)).getD ip
      let w := say (.route target ip (w.data.probeTimes index))
        { w with mem := touch (.resDns index) (touch (.resIps index) w.mem) }
      let order ← (ftStrcmp destIp ip).mapError fun _ => .overrun w
      pure (if order = 0 then { w with data := { w.data with alive := false } } else w)
    | _, _ => .error .nullPointer

def printProbeData (e : Env) (w : World) (index : Probe) : Except Halt World := do
  let w ← if w.data.recieved index = false then pure (say .star w) else printRoute e index w
  pure (if index = 2 then say .newline w else w)

end FtTraceroute.Output

import FtTraceroute.Library.OwnedSlots
import FtTraceroute.Libft

namespace FtTraceroute.Header

open Library.OwnedSlots Libft

def maxHops : Nat := 30

def maxPacketSize : Nat := 65000

def udpPortD : Nat := 33434

def udpPortS : Nat := 33434

abbrev Probe := Fin 3

instance neZeroProbeNb : NeZero 3 := ⟨by decide⟩

def probes : List Probe := [0, 1, 2]

/-- `struct in_addr`: the four octets as they lie in memory, network order. -/
structure InAddr where
  a : UInt8
  b : UInt8
  c : UInt8
  d : UInt8
deriving DecidableEq

structure SockaddrIn where
  sinFamily : Nat
  sinPort : UInt16
  sinAddr : InAddr
deriving DecidableEq

structure Timeval where
  tvSec : Int
  tvUsec : Int
deriving DecidableEq

/-- A malloc'd block and the bytes the heap happens to hold behind it. -/
structure Block where
  bytes : List UInt8
  slack : List UInt8
deriving DecidableEq

def Block.byte (p : Block) (k : Nat) : UInt8 := (p.bytes ++ p.slack).getD k 0

def Block.saddr (p : Block) : InAddr := ⟨p.byte 12, p.byte 13, p.byte 14, p.byte 15⟩

/-- `packet->icmpHeader.type`, through the overlay that puts it at offset 20. -/
def Block.icmpType (p : Block) : UInt8 := p.byte 20

/-- A successful `recvfrom`: at most `MAX_PACKET_SIZE` bytes, with the sender the
kernel stores in the sockaddr. -/
structure Datagram extends Block where
  fits : bytes.length ≤ maxPacketSize
  sender : SockaddrIn
deriving DecidableEq

/-- The twelve pointers of `t_data` that own malloc'd buffers. -/
inductive Slot
  | sendpack (i : Probe)
  | retpack (i : Probe)
  | resIps (i : Probe)
  | resDns (i : Probe)
deriving DecidableEq

abbrev Content : Slot → Type
  | .sendpack _ => List UInt8
  | .retpack _ => Block
  | .resIps _ => CString
  | .resDns _ => CString

/-- The rest of `t_data`. A pointer to a structure filled once is the structure. -/
structure Data where
  ttl : Nat
  payloadSize : Nat
  totalSize : Nat
  sockFd : Int
  destIp : Option CString
  inputDest : Option CString
  networkIp : Option SockaddrIn
  sendTime : Probe → Timeval
  recieveTime : Probe → Timeval
  recieved : Probe → Bool
  probeTimes : Probe → ℚ
  icmpRoute : Bool
  icmpRouteIndex : Nat
  alive : Bool

/-- What the program writes, one constructor for each format. -/
inductive Out
  | usage
  | gaiError (arg : CString) (ret : Int)
  | badPacketlen (plen : CString) (index : Nat)
  | bigPacketlen (len : Int)
  | socketError
  | head (inputDest destIp : Option CString) (maxHops totalSize : Nat)
  | ttl (n : Nat)
  | notSent
  | star
  | again (time : ℚ)
  | route (target ip : CString) (time : ℚ)
  | newline
deriving DecidableEq

inductive HopPoint
  | entered
  | updated
  | sent (i : Probe)
  | recieved (i : Probe)
  | printed (i : Probe)
  | freed
  | counted
deriving DecidableEq

/-- Where `SIGINT` or `SIGALRM` can be handled once `set_signals` has returned:
between the steps of `main` and between those of a hop. -/
inductive Point
  | armed
  | opened
  | headed
  | raised
  | built
  | hop (t : Nat) (p : HopPoint)
deriving DecidableEq

inductive Event
  | getaddrinfo (arg : CString)
  | socket
  | handler (p : Point)
  | sendto (ttl : Nat) (i : Probe) (buf : List UInt8) (dest : Option SockaddrIn) (ok : Bool)
  | recvfrom (ttl : Nat) (i : Probe) (reply : Option Datagram)
  | print (o : Out)
  | freeNetworkIp
deriving DecidableEq

structure World where
  data : Data
  mem : Slots Slot Content
  log : List Event

inductive Halt
  | exit (code : Nat) (w : World)
  /-- A string function counts an `int` past its range, in the state `w`. -/
  | overrun (w : World)
  | nullPointer
  | outOfBounds
  | unfinished

/-- What the system answers. The answers to a probe are indexed by the hop and
the probe that asks. -/
structure Env where
  getaddrinfo : CString → Except Int SockaddrIn
  socket : Int
  sendto : Nat → Probe → Bool
  recvfrom : Nat → Probe → Option Datagram
  sentAt : Nat → Probe → Timeval
  recievedAt : Nat → Probe → Timeval
  getnameinfo : Nat → Probe → InAddr → Option CString
  handler : Point → Bool

def target : SockaddrIn := ⟨2, 0, ⟨10, 0, 0, 1⟩⟩

def router : InAddr := ⟨192, 168, 0, 1⟩

/-- A system that resolves every name to `dest`, and a network that answers nothing. -/
def silent (dest : SockaddrIn) : Env where
  getaddrinfo _ := .ok dest
  socket := 3
  sendto _ _ := true
  recvfrom _ _ := none
  sentAt _ _ := ⟨0, 0⟩
  recievedAt _ _ := ⟨0, 0⟩
  getnameinfo _ _ _ := none
  handler _ := false

/-- `t_data data`, zeroed as a global is. -/
def init : World where
  data :=
    { ttl := 0, payloadSize := 0, totalSize := 0, sockFd := 0, destIp := none, inputDest := none,
      networkIp := none, sendTime := fun _ => ⟨0, 0⟩, recieveTime := fun _ => ⟨0, 0⟩,
      recieved := fun _ => false, probeTimes := fun _ => 0, icmpRoute := false,
      icmpRouteIndex := 0, alive := false }
  mem := empty
  log := []

def note (ev : Event) (w : World) : World := { w with log := w.log ++ [ev] }

def say (o : Out) (w : World) : World := note (.print o) w

def killProgram (w : World) : World := { w with data := { w.data with alive := false } }

def deliver (e : Env) (p : Point) (w : World) : World :=
  if e.handler p then note (.handler p) (killProgram w) else w

@[simp] theorem note_data (ev : Event) (w : World) : (note ev w).data = w.data := rfl

@[simp] theorem note_mem (ev : Event) (w : World) : (note ev w).mem = w.mem := rfl

@[simp] theorem note_log (ev : Event) (w : World) : (note ev w).log = w.log ++ [ev] := rfl

end FtTraceroute.Header

import FtTraceroute.Library.ByteBlock
import FtTraceroute.Header

namespace FtTraceroute.Send

open Library.OwnedSlots Library.ByteBlock Header

abbrev Bytes := List UInt8

/-- `*buf++` over a buffer of bytes, read as little-endian `unsigned short`s. -/
def sumWords (sum : UInt32) : Bytes → UInt32
  | a :: b :: rest => sumWords (sum + (a.toUInt32 + 256 * b.toUInt32)) rest
  | [a] => sum + a.toUInt32
  | [] => sum

def checksum (b : Bytes) : UInt16 :=
  let sum := sumWords 0 b
  let sum := (sum >>> 16) + (sum &&& 0xFFFF)
  let sum := sum + (sum >>> 16)
  (~~~sum).toUInt16

/-- Swap the two bytes of a short: the host is little-endian. -/
def htons (x : UInt16) : UInt16 := UInt16.ofNat (x.toNat % 256 * 256 + x.toNat / 256)

/-- A short as the host stores it. -/
def short (x : UInt16) : Bytes := [UInt8.ofNat (x.toNat % 256), UInt8.ofNat (x.toNat / 256)]

/-- Assign to a bit field of the byte at `off`. -/
def setBits (off : Nat) (f : UInt8 → UInt8) (p : Bytes) : Option Bytes := do
  let b ← peek off 1 p
  poke off (b.map f) p

def constructIpHeader (ttl : Nat) (icmpRoute : Bool) (daddr : InAddr) (p : Bytes) :
    Option Bytes := do
  let p ← setBits 0 (fun b => (b &&& 0xF0) ||| 5) p
  let p ← setBits 0 (fun b => (b &&& 0x0F) ||| 0x40) p
  let p ← poke 1 [0] p
  let p ← poke 2 (short 0) p
  let p ← poke 4 (short 0) p
  let p ← poke 6 (short 0) p
  let p ← poke 8 [UInt8.ofNat ttl] p
  let p ← poke 9 [if icmpRoute then 1 else 17] p
  let p ← poke 10 (short 0) p
  let p ← poke 12 [0, 0, 0, 0] p
  poke 16 [daddr.a, daddr.b, daddr.c, daddr.d] p

def constructIcmpHeader (ttl payloadSize header : Nat) (p : Bytes) : Option Bytes := do
  let p ← poke header [8] p
  let p ← poke (header + 1) [0] p
  let p ← poke (header + 4) (short 0) p
  let p ← poke (header + 6) (short (UInt16.ofNat ttl)) p
  let size := payloadSize + 8
  let message ← peek header size p
  poke (header + 2) (short (checksum message)) p

def constructUdpHeader (payloadSize portS portD header : Nat) (p : Bytes) : Option Bytes := do
  let p ← poke header (short (htons (UInt16.ofNat portS))) p
  let p ← poke (header + 2) (short (htons (UInt16.ofNat portD))) p
  let p ← poke (header + 4) (short (htons (UInt16.ofNat (payloadSize + 8)))) p
  poke (header + 6) (short 0) p

def inBounds {α : Type} : Option α → Except Halt α
  | some a => .ok a
  | none => .error .outOfBounds

@[simp] theorem inBounds_some {α : Type} (a : α) : inBounds (some a) = .ok a := rfl

def constructPacket (d : Data) (index : Probe) : Except Halt Bytes := do
  let packet := List.replicate d.totalSize 0
  let offset := d.totalSize - d.payloadSize
  let packet ← inBounds (poke offset (List.replicate d.payloadSize 65) packet)
  let packet ← inBounds (poke (d.totalSize - 1) [0] packet)
  match d.networkIp with
  | none => .error .nullPointer
  | some networkIp =>
    let packet ← inBounds (constructIpHeader d.ttl d.icmpRoute networkIp.sinAddr packet)
    if d.icmpRoute then inBounds (constructIcmpHeader d.ttl d.payloadSize 20 packet)
    else inBounds (constructUdpHeader d.payloadSize (udpPortS + index) (udpPortD + index) 20 packet)

/-- One turn of the loop of `construct_packets`. -/
def constructSlot (w : World) (i : Probe) : Except Halt World := do
  let packet ← constructPacket w.data i
  pure { w with mem := fill (.sendpack i) packet w.mem }

def constructPackets (w : World) : Except Halt World := probes.foldlM constructSlot w

/-- The stores of one turn of the loop of `update_packets`. -/
def updatePacket (d : Data) (i : Probe) (p : Bytes) : Option Bytes := do
  let p ← poke 8 [UInt8.ofNat d.ttl] p
  if d.icmpRoute then pure p
  else
    let newPortD := udpPortD + i + (d.ttl - 1) * 3
    let newPortS := udpPortS + i + (d.ttl - 1) * 3
    let p ← poke 20 (short (htons (UInt16.ofNat newPortS))) p
    poke 22 (short (htons (UInt16.ofNat newPortD))) p

def updateSlot (w : World) (i : Probe) : Except Halt World :=
  match val w.mem (.sendpack i) with
  | none => .error .nullPointer
  | some p => do
    let p ← inBounds (updatePacket w.data i p)
    pure { w with mem := modify (.sendpack i) p w.mem }

def updatePackets (w : World) : Except Halt World := probes.foldlM updateSlot w

def sendPacket (e : Env) (i : Probe) (w : World) : Except Halt World :=
  match val w.mem (.sendpack i) with
  | none => .error .nullPointer
  | some p => do
    let t := w.data.ttl
    let buf ← inBounds (peek 0 w.data.totalSize p)
    let w := note (.sendto t i buf w.data.networkIp (e.sendto t i))
      { w with mem := touch (.sendpack i) w.mem }
    let w := if e.sendto t i then w else say .notSent w
    pure { w with data := { w.data with
      sendTime := Function.update w.data.sendTime i (e.sentAt t i) } }

end FtTraceroute.Send

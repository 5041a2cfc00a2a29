import FtTraceroute.Checksum
import FtTraceroute.Library.Loops

namespace FtTraceroute.Packet

open Library.OwnedSlots Library.ByteBlock Library.OnesComplement Library.Loops Header Send Checksum

/-- The payload of a probe: `n` bytes of `A`, the last one overwritten by NUL. -/
def filler : Nat → Bytes
  | 0 => []
  | k + 1 => List.replicate k 65 ++ [0]

theorem length_filler (n : Nat) : (filler n).length = n := by
  cases n <;> simp [filler]

def ipHeader (ttl protocol : UInt8) (dst : InAddr) : Bytes :=
  [0x45, 0, 0, 0, 0, 0, 0, 0, ttl, protocol, 0, 0, 0, 0, 0, 0, dst.a, dst.b, dst.c, dst.d]

def udpHeader (port len : UInt16) : Bytes :=
  short (htons port) ++ short (htons port) ++ short (htons len) ++ short 0

def echoHeader (check sequence : UInt16) : Bytes :=
  [8, 0] ++ short check ++ short 0 ++ short sequence

/-- What the command line and the resolver settle for a run: the destination, the
mode and the size of the payload. -/
structure Session where
  dest : SockaddrIn
  icmp : Bool
  size : Nat
  size_le : size + 28 ≤ maxPacketSize
deriving DecidableEq

namespace Session

variable (s : Session)

def protocol : UInt8 := if s.icmp then 1 else 17

def echo (sequence : UInt16) : Bytes :=
  echoHeader (checksum (echoHeader 0 sequence ++ filler s.size)) sequence ++ filler s.size

def udp (port : Nat) : Bytes :=
  udpHeader (UInt16.ofNat port) (UInt16.ofNat (s.size + 8)) ++ filler s.size

def built (t : Nat) (i : Probe) : Bytes :=
  ipHeader (UInt8.ofNat t) s.protocol s.dest.sinAddr ++
    if s.icmp then s.echo (UInt16.ofNat t) else s.udp (33434 + i)

def packet (t : Nat) (i : Probe) : Bytes :=
  ipHeader (UInt8.ofNat t) s.protocol s.dest.sinAddr ++
    if s.icmp then s.echo 1 else s.udp (33434 + i + (t - 1) * 3)

/-- `data` holds the session's destination, mode and sizes. -/
structure Held (d : Data) : Prop where
  total : d.totalSize = s.size + 28
  payload : d.payloadSize = s.size
  icmp : d.icmpRoute = s.icmp

theorem length_packet (t : Nat) (i : Probe) : (s.packet t i).length = s.size + 28 := by
  unfold packet
  split <;> simp [ipHeader, echo, udp, echoHeader, udpHeader, short, length_filler]

end Session

theorem blank_block (n : Nat) :
    poke 28 (List.replicate n (65 : UInt8)) (List.replicate (n + 28) 0) =
      some (List.replicate 28 0 ++ List.replicate n 65) := by
  have h := poke_append_right (List.replicate 28 (0 : UInt8)) (List.replicate n 65)
    (List.replicate n 0) (by simp)
  rwa [List.length_replicate, List.replicate_append_replicate, Nat.add_comm 28 n] at h

/-- The terminating NUL lands in the payload, or on a header byte that is still zero. -/
theorem terminate_block (n : Nat) :
    poke (n + 28 - 1) [0] (List.replicate 28 (0 : UInt8) ++ List.replicate n 65) =
      some (List.replicate 28 0 ++ filler n) := by
  cases n with
  | zero => rfl
  | succ k =>
    have h := poke_append_right (List.replicate 28 (0 : UInt8) ++ List.replicate k 65) [0] [65] rfl
    rw [List.length_append, List.length_replicate, List.length_replicate] at h
    have hsplit : List.replicate (k + 1) (65 : UInt8) = List.replicate k 65 ++ [65] :=
      List.replicate_succ'
    rw [hsplit, ← List.append_assoc, show k + 1 + 28 - 1 = 28 + k by omega, h, List.append_assoc]
    rfl

theorem constructIpHeader_ok (ttl : Nat) (icmpRoute : Bool) (daddr : InAddr) (rest : Bytes) :
    constructIpHeader ttl icmpRoute daddr (List.replicate 20 0 ++ rest) =
      some (ipHeader (UInt8.ofNat ttl) (if icmpRoute then 1 else 17) daddr ++ rest) := by
  have hbits : (5 &&& 15 ||| 64 : UInt8) = 69 := rfl
  simp [constructIpHeader, setBits, peek, poke, List.replicate, short, ipHeader, hbits]

theorem constructUdpHeader_ok (payloadSize port : Nat) (ttl protocol : UInt8) (dst : InAddr)
    (rest : Bytes) :
    constructUdpHeader payloadSize port port 20
        (ipHeader ttl protocol dst ++ (List.replicate 8 0 ++ rest)) =
      some (ipHeader ttl protocol dst ++
        (udpHeader (UInt16.ofNat port) (UInt16.ofNat (payloadSize + 8)) ++ rest)) := by
  simp [constructUdpHeader, poke, List.replicate, short, ipHeader, udpHeader]

theorem constructIcmpHeader_ok (t : Nat) (ttl protocol : UInt8) (dst : InAddr) (rest : Bytes) :
    constructIcmpHeader t rest.length 20
        (ipHeader ttl protocol dst ++ (List.replicate 8 0 ++ rest)) =
      some (ipHeader ttl protocol dst ++
        (echoHeader (checksum (echoHeader 0 (UInt16.ofNat t) ++ rest)) (UInt16.ofNat t) ++
          rest)) := by
  simp [constructIcmpHeader, peek, poke, List.replicate, short, ipHeader, echoHeader]
  rw [if_pos (by omega), Option.bind_some]

/-- The part of `construct_packet` that writes the headers into the block `p`. -/
def buildHeaders (d : Data) (daddr : InAddr) (i : Probe) (p : Bytes) : Option Bytes := do
  let p ← constructIpHeader d.ttl d.icmpRoute daddr p
  if d.icmpRoute then constructIcmpHeader d.ttl d.payloadSize 20 p
  else constructUdpHeader d.payloadSize (udpPortS + i) (udpPortD + i) 20 p

theorem constructPacket_eq {d : Data} {ip : SockaddrIn} (hip : d.networkIp = some ip) (i : Probe) :
    constructPacket d i = (do
      let p ← inBounds (poke (d.totalSize - d.payloadSize) (List.replicate d.payloadSize 65)
        (List.replicate d.totalSize 0))
      let p ← inBounds (poke (d.totalSize - 1) [0] p)
      inBounds (buildHeaders d ip.sinAddr i p)) := by
  have hheaders : ∀ p, (do
      let q ← inBounds (constructIpHeader d.ttl d.icmpRoute ip.sinAddr p)
      if d.icmpRoute then inBounds (constructIcmpHeader d.ttl d.payloadSize 20 q)
      else inBounds (constructUdpHeader d.payloadSize (udpPortS + i) (udpPortD + i) 20 q)) =
      inBounds (buildHeaders d ip.sinAddr i p) := by
    intro p
    cases h : constructIpHeader d.ttl d.icmpRoute ip.sinAddr p with
    | none =>
      simp only [buildHeaders, h]
      rfl
    | some q =>
      simp only [buildHeaders, h, inBounds_some, ok_bind, Option.bind_eq_bind, Option.bind_some]
      split <;> rfl
  simp only [constructPacket, hip, hheaders]

namespace Session

variable (s : Session)

theorem buildHeaders_ok {d : Data} (hd : s.Held d) (i : Probe) :
    buildHeaders d s.dest.sinAddr i (List.replicate 28 0 ++ filler s.size) =
      some (s.built d.ttl i) := by
  have hblank : List.replicate 28 (0 : UInt8) ++ filler s.size =
      List.replicate 20 0 ++ (List.replicate 8 0 ++ filler s.size) := rfl
  rw [buildHeaders, hblank, constructIpHeader_ok, hd.icmp, hd.payload]
  simp only [Option.bind_eq_bind, Option.bind_some]
  cases hs : s.icmp with
  | true =>
    have h := constructIcmpHeader_ok d.ttl (UInt8.ofNat d.ttl) 1 s.dest.sinAddr (filler s.size)
    rw [length_filler] at h
    simp only [↓reduceIte, h, built, echo, protocol, hs]
  | false =>
    simp only [Bool.false_eq_true, ↓reduceIte, udpPortS, udpPortD, constructUdpHeader_ok, built, udp,
      protocol, hs]

theorem constructPacket_ok {d : Data} (hd : s.Held d) {dest : SockaddrIn}
    (hip : d.networkIp = some dest) (hdest : dest.sinAddr = s.dest.sinAddr) (i : Probe) :
    constructPacket d i = .ok (s.built d.ttl i) := by
  have hoffset : d.totalSize - d.payloadSize = 28 := by
    have ht := hd.total
    have hp := hd.payload
    omega
  rw [constructPacket_eq hip, hoffset, hd.total, hd.payload, blank_block, inBounds_some, ok_bind,
    terminate_block, inBounds_some, ok_bind, hdest, s.buildHeaders_ok hd, inBounds_some]

theorem updatePacket_ok {d : Data} (hd : s.Held d) (t : Nat) (i : Probe) :
    updatePacket d i (s.packet t i) = some (s.packet d.ttl i) := by
  have hs := hd.icmp
  cases h : s.icmp with
  | true =>
    rw [h] at hs
    simp [updatePacket, hs, packet, protocol, h, ipHeader, poke]
  | false =>
    rw [h] at hs
    simp [updatePacket, hs, packet, protocol, h, ipHeader, poke, udp, udpHeader, udpPortS, udpPortD,
      short]

theorem echo_valid (sequence : UInt16) : residue (wordsLE (s.echo sequence)).sum = 65535 := by
  have hle := s.size_le
  have hwords : ∀ c : UInt16, (wordsLE (echoHeader c sequence ++ filler s.size)).sum =
      8 + c.toNat + sequence.toNat + (wordsLE (filler s.size)).sum := by
    intro c
    have hc := c.toNat_lt
    have hq := sequence.toNat_lt
    simp only [echoHeader, short, wordsLE, List.cons_append, List.nil_append, List.sum_cons,
      UInt8.toNat_ofNat']
    simp only [UInt8.toNat_ofNat, UInt16.toNat_ofNat]
    omega
  have hlen : (echoHeader 0 sequence ++ filler s.size).length ≤ 131074 := by
    simp [echoHeader, short, length_filler, maxPacketSize] at hle ⊢
    omega
  have hck := checksum_toNat hlen
  have hpos : (wordsLE (echoHeader 0 sequence ++ filler s.size)).sum ≠ 0 := by
    rw [hwords]
    omega
  have h := residue_add_complement hpos
  rw [← hck] at h
  rw [echo, hwords]
  rw [hwords 0] at h
  convert h using 2
  simp
  omega

end Session

end FtTraceroute.Packet

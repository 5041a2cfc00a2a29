import FtTraceroute.Library.Wire
import FtTraceroute.Layout

namespace FtTraceroute.Replies

open Library.Wire Header Send Packet Layout

def replyBytes (src : InAddr) (message : Bytes) : Bytes :=
  [0x45, 0, 0, 0, 0, 0, 0, 0, 64, 1, 0, 0] ++ octets src ++ [0, 0, 0, 0] ++ message

theorem length_replyBytes (src : InAddr) {message : Bytes} (h : message.length ≤ 1000) :
    (replyBytes src message).length ≤ maxPacketSize := by
  simp [replyBytes, octets, maxPacketSize]
  omega

/-- An ICMP datagram from `src`, as the raw socket delivers it. -/
def reply (src : InAddr) (message : Bytes) (h : message.length ≤ 1000) : Datagram where
  bytes := replyBytes src message
  slack := []
  fits := length_replyBytes src h
  sender := ⟨2, 0, src⟩

/-- A router's answer to the datagram `sent`, which it quotes. -/
def timeExceeded (src : InAddr) (sent : Bytes) : Datagram :=
  reply src ([11, 0, 0, 0, 0, 0, 0, 0] ++ sent.take 28) (by simp; omega)

def echoAnswer (src : InAddr) (identifier sequence : UInt16) : Datagram :=
  reply src ([0, 0] ++ short 0 ++ short identifier ++ short sequence) (by simp [short])

/-- What an ICMP error message quotes behind the IP header of `protocol`. -/
def quoted (protocol : Nat) (message : Bytes) : Option Bytes :=
  if message.getD 0 0 = 3 ∨ message.getD 0 0 = 11 then
    (Ip4.decode (message.drop 8)).bind fun (ip, segment) =>
      if ip.protocol = protocol then some segment else none
  else none

/-- Whether a received datagram quotes the ports of the datagram `sent`, or answers
or quotes its echo request. -/
def elicited (sent : Bytes) (d : Block) : Bool :=
  match Ip4.decode sent, Ip4.decode d.bytes with
  | some (ip, segment), some (_, message) =>
    if ip.protocol = 17 then
      (quoted 17 message).any fun q => be16 q 0 == be16 segment 0 && be16 q 2 == be16 segment 2
    else
      (message.getD 0 0 == 0 && be16 message 4 == be16 segment 4 &&
          be16 message 6 == be16 segment 6) ||
        (quoted 1 message).any fun q => be16 q 4 == be16 segment 4 && be16 q 6 == be16 segment 6
  | _, _ => false

def firstRouter : Env :=
  { silent target with recvfrom := fun t i =>
      if t = 1 ∧ i = 0 then some (timeExceeded router []) else none }

def strayReply : Env :=
  { silent target with recvfrom := fun t i =>
      if t = 1 ∧ i = 0 then some (echoAnswer router 7 1) else none }

end FtTraceroute.Replies

import FtTraceroute.Library.Wire
import FtTraceroute.Packet

namespace FtTraceroute.Layout

open Library.Wire Library.OnesComplement Header Send Checksum Packet

def octets (ip : InAddr) : List UInt8 := [ip.a, ip.b, ip.c, ip.d]

/-- A UDP probe as it goes out: `total` bytes to `dst`, hop limit `t`, both ports `port`. -/
def UdpProbe (dst : InAddr) (total t port : Nat) (buf : Bytes) : Prop :=
  ∃ segment payload, buf.length = total ∧
    Ip4.decode buf = some (⟨4, 5, t, 17, [0, 0, 0, 0], octets dst⟩, segment) ∧
    Udp.decode segment = some (⟨port, port, total - 20, 0⟩, payload) ∧
    payload = (List.replicate (total - 28) 65).set (total - 28 - 1) 0

def echoPair (buf : Bytes) : Nat × Nat := (be16 buf 24, be16 buf 26)

/-- The checksum of an ICMP message holds, for the network and for `checksum`. -/
def ValidMessage (m : Bytes) : Prop := onesSum (wordsBE m) = 65535 ∧ checksum m = 0

theorem htons_bytes (x : UInt16) :
    256 * ((htons x).toNat % 256) + (htons x).toNat / 256 % 256 = x.toNat := by
  have hx := x.toNat_lt
  have hswap : (htons x).toNat = x.toNat % 256 * 256 + x.toNat / 256 := by
    simp [htons]
    omega
  have hhigh : (htons x).toNat / 256 = x.toNat % 256 := by omega
  have hlow : (htons x).toNat % 256 = x.toNat / 256 := by omega
  rw [hhigh, hlow]
  omega

theorem filler_eq_set (n : Nat) : filler n = (List.replicate n 65).set (n - 1) 0 := by
  cases n with
  | zero => rfl
  | succ k => simp [filler, List.replicate_succ', List.set_append_right]

theorem decode_ipHeader (ttl protocol : UInt8) (dst : InAddr) (rest : Bytes) :
    Ip4.decode (ipHeader ttl protocol dst ++ rest) =
      some (⟨4, 5, ttl.toNat, protocol.toNat, [0, 0, 0, 0], octets dst⟩, rest) := by
  simp [Ip4.decode, ipHeader, octets]

theorem decode_udpHeader (port len : UInt16) (rest : Bytes) :
    Udp.decode (udpHeader port len ++ rest) =
      some (⟨port.toNat, port.toNat, len.toNat, 0⟩, rest) := by
  simp [Udp.decode, udpHeader, short, htons_bytes]

theorem be16_drop (p : Bytes) (n k : Nat) : be16 (p.drop n) k = be16 p (n + k) := by
  simp [be16, Nat.add_assoc]

variable (s : Session)

theorem udpProbe_packet (hudp : s.icmp = false) {t : Nat} (ht : t ≤ maxHops) (i : Probe) :
    UdpProbe s.dest.sinAddr (s.size + 28) t (33434 + 3 * (t - 1) + i) (s.packet t i) := by
  have hsize := s.size_le
  have hi := i.isLt
  simp only [maxHops, maxPacketSize] at ht hsize
  refine ⟨s.udp (33434 + i + (t - 1) * 3), filler s.size, s.length_packet t i, ?_, ?_, ?_⟩
  · have httl : (UInt8.ofNat t).toNat = t := by
      simp
      omega
    simp [Session.packet, hudp, decode_ipHeader, httl, Session.protocol]
  · have hport : (UInt16.ofNat (33434 + i + (t - 1) * 3)).toNat = 33434 + 3 * (t - 1) + i := by
      simp
      omega
    have hlen : (UInt16.ofNat (s.size + 8)).toNat = s.size + 28 - 20 := by
      simp
      omega
    rw [Session.udp, decode_udpHeader, hport, hlen]
  · exact filler_eq_set s.size

theorem ports_packet (hudp : s.icmp = false) {t : Nat} (ht : t ≤ maxHops) (i : Probe) :
    be16 (s.packet t i) 20 = 33434 + 3 * (t - 1) + i ∧
      be16 (s.packet t i) 22 = 33434 + 3 * (t - 1) + i := by
  have hi := i.isLt
  have hport : (UInt16.ofNat (33434 + i + (t - 1) * 3)).toNat = 33434 + 3 * (t - 1) + i := by
    simp [maxHops] at ht ⊢
    omega
  have hdrop : (s.packet t i).drop 20 = s.udp (33434 + i + (t - 1) * 3) := by
    simp [Session.packet, hudp, ipHeader]
  have hsource := be16_drop (s.packet t i) 20 0
  have hdest := be16_drop (s.packet t i) 20 2
  rw [hdrop] at hsource hdest
  rw [← hsource, ← hdest, ← hport]
  simp [Session.udp, udpHeader, short, htons_bytes]

theorem drop_packet (hicmp : s.icmp = true) (t : Nat) (i : Probe) :
    (s.packet t i).drop 20 = s.echo 1 := by
  simp [Session.packet, hicmp, ipHeader]

theorem drop_built (hicmp : s.icmp = true) (t : Nat) (i : Probe) :
    (s.built t i).drop 20 = s.echo (UInt16.ofNat t) := by
  simp [Session.built, hicmp, ipHeader]

theorem echoPair_eq {buf : Bytes} {sequence : UInt16} (h : buf.drop 20 = s.echo sequence) :
    echoPair buf = (0, 256 * (sequence.toNat % 256) + sequence.toNat / 256) := by
  have hq := sequence.toNat_lt
  have hid := be16_drop buf 20 4
  have hseq := be16_drop buf 20 6
  rw [h] at hid hseq
  rw [echoPair, ← hid, ← hseq]
  simp [Session.echo, echoHeader, short]
  omega

theorem echo_validMessage (sequence : UInt16) : ValidMessage (s.echo sequence) := by
  have hvalid := s.echo_valid sequence
  have hle := s.size_le
  have hlen : (s.echo sequence).length ≤ 131074 := by
    simp [Session.echo, echoHeader, short, length_filler, maxPacketSize] at hle ⊢
    omega
  refine ⟨onesSum_wordsBE_eq_top hvalid, ?_⟩
  have hck := checksum_toNat hlen
  rw [hvalid] at hck
  exact UInt16.toNat_inj.mp hck

end FtTraceroute.Layout

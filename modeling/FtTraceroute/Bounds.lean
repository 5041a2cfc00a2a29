import FtTraceroute.Accept

namespace FtTraceroute.Bounds

open Library.ByteBlock Library.Loops Libft Header Send Packet Parsing Accept

/-- `construct_packet` without its store of the terminating NUL. -/
def constructUnterminated (d : Data) (index : Probe) : Except Halt Bytes := do
  let packet := List.replicate d.totalSize 0
  let offset := d.totalSize - d.payloadSize
  let packet ← inBounds (poke offset (List.replicate d.payloadSize 65) packet)
  match d.networkIp with
  | none => .error .nullPointer
  | some networkIp => inBounds (buildHeaders d networkIp.sinAddr index packet)

/-- `construct_packet` builds `p`, and `update_packets` changes any block of its size,
without a load or a store outside the block. The NUL leaves no mark on a header: it lies
behind them, or, without a payload, on a byte that they overwrite; the headers of `p` are
those of its payload on a header area that is still zero. -/
structure InBlock (d : Data) (daddr : InAddr) (i : Probe) (p : Bytes) : Prop where
  built : constructPacket d i = .ok p
  length : p.length = d.totalSize
  updated : ∀ q, q.length = d.totalSize →
    ∃ q', updatePacket d i q = some q' ∧ q'.length = d.totalSize
  behind : d.payloadSize ≠ 0 → 28 ≤ d.totalSize - 1
  overwritten : d.payloadSize = 0 → constructUnterminated d i = .ok p
  headers : buildHeaders d daddr i (List.replicate 28 0 ++ p.drop 28) = some p

variable {e : Env} {argv : List CString} {s : Session} {d : Data} {w : World}

theorem updatePacket_fits (d : Data) (i : Probe) {q : Bytes} (hq : 28 ≤ q.length) :
    ∃ q', updatePacket d i q = some q' ∧ q'.length = q.length := by
  obtain ⟨q₁, h₁, hlen₁⟩ := poke_fits 8 [UInt8.ofNat d.ttl] q (by simp; omega)
  cases hicmp : d.icmpRoute with
  | true => exact ⟨q₁, by simp [updatePacket, h₁, hicmp], hlen₁⟩
  | false =>
    let source := short (htons (UInt16.ofNat (udpPortS + i + (d.ttl - 1) * 3)))
    let dest := short (htons (UInt16.ofNat (udpPortD + i + (d.ttl - 1) * 3)))
    obtain ⟨q₂, h₂, hlen₂⟩ := poke_fits 20 source q₁ (by simp [source, short]; omega)
    obtain ⟨q₃, h₃, hlen₃⟩ := poke_fits 22 dest q₂ (by simp [dest, short]; omega)
    refine ⟨q₃, ?_, by omega⟩
    simp only [updatePacket, h₁, hicmp, Bool.false_eq_true, ↓reduceIte, Option.bind_eq_bind,
      Option.bind_some]
    change (poke 20 source q₁).bind (poke 22 dest) = _
    rw [h₂, Option.bind_some, h₃]

theorem drop_built (s : Session) (t : Nat) (i : Probe) : (s.built t i).drop 28 = filler s.size := by
  cases hs : s.icmp <;>
    simp [Session.built, hs, ipHeader, Session.echo, Session.udp, echoHeader, udpHeader, short]

theorem length_built (s : Session) (t : Nat) (i : Probe) : (s.built t i).length = s.size + 28 := by
  unfold Session.built
  split <;> simp [ipHeader, Session.echo, Session.udp, echoHeader, udpHeader, short, length_filler]

theorem inBlock_of_held (hd : s.Held d) (hip : d.networkIp = some s.dest) (i : Probe) :
    InBlock d s.dest.sinAddr i (s.built d.ttl i) where
  built := s.constructPacket_ok hd hip rfl i
  length := (length_built s d.ttl i).trans hd.total.symm
  updated q hq := by
    obtain ⟨q', h, hlen⟩ := updatePacket_fits d i (q := q) (by rw [hq, hd.total]; omega)
    exact ⟨q', h, hlen.trans hq⟩
  behind h := by
    have hpayload := hd.payload
    have htotal := hd.total
    omega
  overwritten h := by
    have hsize : s.size = 0 := hd.payload.symm.trans h
    have hheaders := s.buildHeaders_ok hd i
    rw [hsize] at hheaders
    have htotal : d.totalSize = 28 := by rw [hd.total, hsize]
    have hempty : poke (28 - 0) (List.replicate 0 65) (List.replicate 28 0) =
        some (List.replicate 28 0 ++ filler 0) := by decide
    rw [constructUnterminated, hip, h, htotal, hempty, inBounds_some, ok_bind]
    dsimp only
    rw [hheaders, inBounds_some]
  headers := by rw [drop_built, s.buildHeaders_ok hd]

/-- Whatever the command line, the size is in the range for which the packet builder stays
inside its block, in both modes and at every hop. -/
theorem packets_in_block (hp : parseDest e argv init = .ok w) :
    28 ≤ w.data.totalSize ∧ w.data.totalSize ≤ maxPacketSize ∧
      w.data.payloadSize = w.data.totalSize - 28 ∧
      ∃ dest, w.data.networkIp = some dest ∧ ∀ t icmp i, ∃ p,
        InBlock { w.data with ttl := t, icmpRoute := icmp } dest.sinAddr i p := by
  obtain ⟨s, host, hs⟩ := parseDest_ok hp
  have htotal := hs.held.total
  have hpayload := hs.held.payload
  have hle := s.size_le
  refine ⟨by omega, by omega, by omega, s.dest, hs.network, fun t icmp i => ?_⟩
  have hheld : Session.Held { s with icmp := icmp } { w.data with ttl := t, icmpRoute := icmp } :=
    ⟨htotal, hpayload, rfl⟩
  exact ⟨_, inBlock_of_held hheld hs.network i⟩

theorem packets_in_block_silent : ∃ w, parseDest (silent target) udpArgs init = .ok w ∧
    28 ≤ w.data.totalSize ∧ w.data.totalSize ≤ maxPacketSize ∧
      w.data.payloadSize = w.data.totalSize - 28 ∧
      ∃ dest, w.data.networkIp = some dest ∧ ∀ t icmp i, ∃ p,
        InBlock { w.data with ttl := t, icmpRoute := icmp } dest.sinAddr i p := by
  have hp : parseDest (silent target) udpArgs init = .ok _ := rfl
  exact ⟨_, hp, packets_in_block hp⟩

end FtTraceroute.Bounds

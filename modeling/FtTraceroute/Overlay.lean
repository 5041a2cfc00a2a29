import FtTraceroute.Probes
import FtTraceroute.Replies

namespace FtTraceroute.Overlay

open Library.Wire Header Inet Packet Send Recieve Script Probes Replies

def headerLength (b : Bytes) : Nat := 4 * ((b.getD 0 0).toNat % 16)

/-- A complete IP header, a complete ICMP header behind it, and the type of an echo reply. -/
def isEchoReply (b : Bytes) : Bool :=
  (Ip4.decode b).any fun r => 8 ≤ r.2.length && r.2.getD 0 0 == 0

/-- `b` and `b'` differ in the IP options at most. -/
def AgreeOutsideOptions (b b' : Bytes) : Prop :=
  b'.length = b.length ∧ ∀ k, k < 20 ∨ headerLength b ≤ k → b'.getD k 0 = b.getD k 0

/-- In ICMP mode `recieve_packet` stops the run for the received bytes `b` exactly if they
are an echo reply, whatever lies behind them in memory and in their IP options. -/
def Decided (b : Bytes) : Prop :=
  ∀ e i w d, w.data.icmpRoute = true → w.data.alive = true → e.recvfrom w.data.ttl i = some d →
    AgreeOutsideOptions b d.bytes →
      ((recievePacket e i w).2.data.alive = false ↔ isEchoReply b = true)

variable {b : Bytes}

theorem alive_recievePacket {e : Env} {i : Probe} {w : World} {d : Datagram}
    (hicmp : w.data.icmpRoute = true) (halive : w.data.alive = true)
    (hr : e.recvfrom w.data.ttl i = some d) :
    (recievePacket e i w).2.data.alive = false ↔ d.byte 20 = 0 := by
  rw [recievePacket_some ⟨target, true, 32, by decide⟩ rfl hicmp hr]
  simp [halive, echoReply, Block.icmpType]

theorem byte_of_lt {d : Datagram} {k : Nat} (h : k < d.bytes.length) :
    d.byte k = d.bytes.getD k 0 := by
  rw [Block.byte, List.getD_append _ _ _ _ h]

theorem isEchoReply_iff (b : Bytes) : isEchoReply b = true ↔
    20 ≤ headerLength b ∧ headerLength b + 8 ≤ b.length ∧ b.getD (headerLength b) 0 = 0 := by
  have hget : ∀ n, (b.drop n).getD 0 0 = b.getD n 0 := fun n => by simp
  simp only [isEchoReply, Ip4.decode, headerLength]
  split
  · simp only [Option.any_none, Bool.false_eq_true, false_iff]
    omega
  · simp only [Option.any_some, List.length_drop, hget, Bool.and_eq_true, decide_eq_true_eq,
      beq_iff_eq]
    constructor
    · rintro ⟨hlen, hzero⟩
      exact ⟨by omega, by omega, hzero⟩
    · rintro ⟨-, hlen, hzero⟩
      exact ⟨by omega, hzero⟩

def listening : World := { init with data := { init.data with icmpRoute := true, alive := true } }

def answering (d : Datagram) : Env := { silent target with recvfrom := fun _ _ => some d }

theorem decided_datagram (h : Decided b) (d : Datagram) (hd : AgreeOutsideOptions b d.bytes) :
    d.byte 20 = 0 ↔ isEchoReply b = true := by
  rw [← h (answering d) 0 listening d rfl rfl rfl hd]
  exact (alive_recievePacket rfl rfl rfl).symm

theorem length_of_decided (hlen : b.length ≤ maxPacketSize) (h : Decided b) : 20 < b.length := by
  by_contra hshort
  let d : Datagram := ⟨⟨b, []⟩, hlen, target⟩
  have hzero : d.byte 20 = 0 := by simp [d, Block.byte, not_lt.mp hshort]
  have hreply := (decided_datagram h d ⟨rfl, fun _ _ => rfl⟩).mp hzero
  rw [isEchoReply_iff] at hreply
  omega

theorem header_of_decided (hlen : b.length ≤ maxPacketSize) (hihl : 20 ≤ headerLength b)
    (h : Decided b) : headerLength b = 20 := by
  have hlong := length_of_decided hlen h
  by_contra hne
  have hset : ∀ x : UInt8, x = 0 ↔ isEchoReply b = true := by
    intro x
    have hagree : AgreeOutsideOptions b (b.set 20 x) := by
      refine ⟨List.length_set, fun k hk => ?_⟩
      have hk' : 20 ≠ k := by omega
      simp [List.getD_eq_getElem?_getD, List.getElem?_set_ne hk']
    have hbyte := decided_datagram h ⟨⟨b.set 20 x, []⟩, by simpa using hlen, target⟩ hagree
    rwa [byte_of_lt (by simpa using hlong), List.getD_eq_getElem?_getD,
      List.getElem?_set_self hlong] at hbyte
  have hreply := (hset 0).mp rfl
  exact absurd ((hset 1).mpr hreply) (by decide)

/-- The type is looked for at offset 20 without a look at the lengths: that is right for a
datagram without options that is complete, or that fails the test anyway. -/
theorem decided_iff (hlen : b.length ≤ maxPacketSize) (hihl : b ≠ [] → 20 ≤ headerLength b) :
    Decided b ↔ headerLength b = 20 ∧ 20 < b.length ∧ (28 ≤ b.length ∨ b.getD 20 0 ≠ 0) := by
  constructor
  · intro h
    have hlong := length_of_decided hlen h
    refine ⟨header_of_decided hlen (hihl (List.ne_nil_of_length_pos (by omega))) h, hlong, ?_⟩
    by_contra hcond
    simp only [not_or, not_le, not_not] at hcond
    let d : Datagram := ⟨⟨b, []⟩, hlen, target⟩
    have hzero : d.byte 20 = 0 := (byte_of_lt (d := d) hlong).trans hcond.2
    have hreply := (decided_datagram h d ⟨rfl, fun _ _ => rfl⟩).mp hzero
    rw [isEchoReply_iff] at hreply
    omega
  · rintro ⟨hheader, hlong, hcond⟩ e i w d hicmp halive hr ⟨hlen', hagree⟩
    have hbyte : d.byte 20 = b.getD 20 0 := by
      rw [byte_of_lt (by omega), hagree 20 (.inr (by omega))]
    rw [alive_recievePacket hicmp halive hr, hbyte, isEchoReply_iff, hheader]
    constructor
    · intro hzero
      exact ⟨le_rfl, hcond.resolve_right (absurd hzero ·), hzero⟩
    · exact fun h => h.2.2

theorem decided_iff_reply : Decided (echoAnswer router 7 1).bytes ↔
    headerLength (echoAnswer router 7 1).bytes = 20 ∧ 20 < (echoAnswer router 7 1).bytes.length ∧
      (28 ≤ (echoAnswer router 7 1).bytes.length ∨ (echoAnswer router 7 1).bytes.getD 20 0 ≠ 0) :=
  decided_iff (by decide) (fun _ => by decide)

def optioned : Datagram where
  bytes := [0x46, 0, 0, 0, 0, 0, 0, 0, 64, 1, 0, 0, 192, 168, 0, 1, 0, 0, 0, 0] ++
    [0, 0, 0, 0] ++ [11, 0, 0, 0, 0, 0, 0, 0]
  slack := []
  fits := by decide
  sender := ⟨2, 0, router⟩

/-- The option byte is taken for the type of an echo reply. -/
theorem option_taken_for_type :
    (recievePacket (answering optioned) 0 listening).2.data.alive = false ∧
      isEchoReply optioned.bytes = false ∧ ¬ Decided optioned.bytes := by
  have hreply : isEchoReply optioned.bytes = false := by decide
  refine ⟨(alive_recievePacket rfl rfl rfl).mpr (by decide), hreply, fun h => ?_⟩
  have hbyte := (decided_datagram h optioned ⟨rfl, fun _ _ => rfl⟩).mp (by decide)
  rw [hreply] at hbyte
  cases hbyte

end FtTraceroute.Overlay

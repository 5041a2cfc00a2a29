import FtTraceroute.Main
import FtTraceroute.Script

namespace FtTraceroute.Probes

open Library.OwnedSlots Library.ByteBlock Library.Loops
open Libft Header Inet Packet Send Recieve Main Script

theorem deliver_eq (e : Env) (p : Point) (w : World) :
    deliver e p w =
      { data := { w.data with alive := w.data.alive && !e.handler p }
        mem := w.mem
        log := w.log ++ handled e p } := by
  cases h : e.handler p <;> simp [deliver, handled, killProgram, note, h]

/-- What stays true all through hop `t`. -/
structure InHop (s : Session) (t : Nat) (w : World) : Prop where
  ttl : w.data.ttl = t
  held : s.Held w.data
  destIp : w.data.destIp = some (inetNtop s.dest.sinAddr)
  sendpack : ∀ i, val w.mem (.sendpack i) = some (s.packet t i)
  sound : Sound w.mem

/-- Hop `t` after the probes in `done` were sent and waited for. The hop was
entered with `ip` in `networkIp`, `a` in `alive` and `l` in the log. -/
structure Sending (s : Session) (e : Env) (t : Nat) (ip : SockaddrIn) (a : Bool) (l : List Event)
    (done : List Probe) (w : World) : Prop extends InHop s t w where
  network : w.data.networkIp = some (sender e t ip done)
  recieved : ∀ i, w.data.recieved i = (decide (i ∈ done) && (e.recvfrom t i).isSome)
  retpack : ∀ i, val w.mem (.retpack i) =
    if i ∈ done then (e.recvfrom t i).map Datagram.toBlock else none
  resIps : ∀ i, val w.mem (.resIps i) = none
  resDns : ∀ i, val w.mem (.resDns i) = none
  sentAt : ∀ i ∈ done, w.data.sendTime i = e.sentAt t i
  recievedAt : ∀ i ∈ done, (e.recvfrom t i).isSome → w.data.recieveTime i = e.recievedAt t i
  time : ∀ i ∈ done, (e.recvfrom t i).isSome →
    w.data.probeTimes i = convertToMilliseconds (e.recievedAt t i) (e.sentAt t i)
  alive : w.data.alive = (a && done.all (probeQuiet s e t))
  log : w.log = l ++ probesEvents s e t ip done

variable {s : Session} {e : Env} {t : Nat} {ip : SockaddrIn} {a : Bool} {l : List Event}
  {done : List Probe} {w : World}

theorem sendPacket_ok (h : InHop s t w) (hip : w.data.networkIp = some ip) (i : Probe) :
    sendPacket e i w = .ok
      { data := { w.data with sendTime := Function.update w.data.sendTime i (e.sentAt t i) }
        mem := touch (.sendpack i) w.mem
        log := w.log ++ sendEvents s e t ip i } := by
  have hread : peek 0 w.data.totalSize (s.packet t i) = some (s.packet t i) := by
    have hr := peek_append_right [] (s.packet t i)
    rwa [s.length_packet, ← h.held.total] at hr
  rw [sendPacket, h.sendpack i]
  simp only [hread, inBounds_some, ok_bind, h.ttl, hip]
  cases hs : e.sendto t i <;>
    simp [sendEvents, hs, say, note, pure, Except.pure, h.ttl, hip]

theorem recievePacket_none (ht : w.data.ttl = t) {i : Probe} (hr : e.recvfrom t i = none) :
    recievePacket e i w = (false,
      { data := w.data, mem := clear (.retpack i) w.mem,
        log := w.log ++ [.recvfrom t i none] }) := by
  simp [recievePacket, ht, hr, note]

theorem recievePacket_some (s : Session) (ht : w.data.ttl = t) (hicmp : w.data.icmpRoute = s.icmp)
    {i : Probe} {d : Datagram} (hr : e.recvfrom t i = some d) :
    recievePacket e i w = (true,
      { data := { w.data with
          networkIp := w.data.networkIp.map fun _ => d.sender
          recieveTime := Function.update w.data.recieveTime i (e.recievedAt t i)
          alive := w.data.alive && !echoReply s d
          probeTimes := Function.update w.data.probeTimes i
            (convertToMilliseconds (e.recievedAt t i) (w.data.sendTime i)) }
        mem := touch (.retpack i) (fill (.retpack i) d.toBlock w.mem)
        log := w.log ++ [.recvfrom t i (some d)] }) := by
  cases hq : echoReply s d <;> simp only [echoReply] at hq <;>
    simp [recievePacket, ht, hr, note, storeSender, hicmp, hq]

def keep (i : Probe) : Option Datagram → Slots Slot Content → Slots Slot Content
  | none, m => clear (.retpack i) m
  | some d, m => touch (.retpack i) (fill (.retpack i) d.toBlock m)

def stamp {α : Type} (i : Probe) (r : Option Datagram) (x : α) (f : Probe → α) : Probe → α :=
  if r.isSome then Function.update f i x else f

@[simp] theorem val_keep_self (i : Probe) (r : Option Datagram) (m : Slots Slot Content) :
    val (keep i r m) (.retpack i) = r.map Datagram.toBlock := by
  cases r <;> simp [keep]

@[simp] theorem val_keep_ne {i : Probe} {x : Slot} (hx : x ≠ .retpack i) (r : Option Datagram)
    (m : Slots Slot Content) : val (keep i r m) x = val m x := by
  cases r <;> simp [keep, hx]

theorem sound_keep {i : Probe} {m : Slots Slot Content} (hm : Sound m) (r : Option Datagram)
    (hi : val m (.retpack i) = none) : Sound (keep i r m) := by
  cases r with
  | none => exact hm.clear hi
  | some d => exact (hm.fill d.toBlock hi).touch _

@[simp] theorem stamp_self {α : Type} {i : Probe} {r : Option Datagram} (hr : r.isSome) (x : α)
    (f : Probe → α) : stamp i r x f i = x := by
  simp [stamp, hr]

@[simp] theorem stamp_ne {α : Type} {i j : Probe} (hj : j ≠ i) (r : Option Datagram) (x : α)
    (f : Probe → α) : stamp i r x f j = f j := by
  cases r <;> simp [stamp, hj]

theorem probe_eq (h : InHop s t w) (hip : w.data.networkIp = some ip) (i : Probe) :
    probe e w i = .ok
      { data := { w.data with
          sendTime := Function.update w.data.sendTime i (e.sentAt t i)
          networkIp := some (arrive ip (e.recvfrom t i))
          recieveTime := stamp i (e.recvfrom t i) (e.recievedAt t i) w.data.recieveTime
          probeTimes := stamp i (e.recvfrom t i)
            (convertToMilliseconds (e.recievedAt t i) (e.sentAt t i)) w.data.probeTimes
          recieved := Function.update w.data.recieved i (e.recvfrom t i).isSome
          alive := w.data.alive && probeQuiet s e t i }
        mem := keep i (e.recvfrom t i) (touch (.sendpack i) w.mem)
        log := w.log ++ probeEvents s e t ip i } := by
  have httl : w.data.ttl = t := h.ttl
  have hicmp : w.data.icmpRoute = s.icmp := h.held.icmp
  simp only [probe, sendPacket_ok h hip, ok_bind]
  cases hr : e.recvfrom t i with
  | none =>
    rw [recievePacket_none (by simp [deliver_eq, httl]) hr]
    simp [deliver_eq, setRecieved, pure, Except.pure, httl, probeEvents, probeQuiet, hr, hip, keep,
      stamp, arrive, Bool.and_assoc]
  | some d =>
    rw [recievePacket_some s (by simp [deliver_eq, httl]) (by simp [deliver_eq, hicmp]) hr]
    simp [deliver_eq, setRecieved, pure, Except.pure, httl, probeEvents, probeQuiet, hr, hip, keep,
      stamp, arrive, Bool.and_assoc]

theorem probe_ok (h : Sending s e t ip a l done w) {i : Probe} (hi : i ∉ done) :
    ∃ w', probe e w i = .ok w' ∧ Sending s e t ip a l (done ++ [i]) w' := by
  have hempty : val (touch (.sendpack i) w.mem) (.retpack i) = none := by simp [h.retpack, hi]
  refine ⟨_, probe_eq h.toInHop h.network i, ?_⟩
  constructor
  case toInHop =>
    refine ⟨h.ttl, ⟨h.held.total, h.held.payload, h.held.icmp⟩, h.destIp, ?_,
      sound_keep (h.sound.touch _) _ hempty⟩
    intro j
    simpa using h.sendpack j
  case network => rw [sender_concat]
  case alive => simp [h.alive, Bool.and_assoc]
  case log => rw [h.log, probesEvents_concat, List.append_assoc]
  case resIps => simpa using h.resIps
  case resDns => simpa using h.resDns
  -- the entries of probe `i` are new, those of the others are kept
  all_goals
    intro j
    obtain rfl | hj := eq_or_ne j i
  case recieved.inl => simp
  case recieved.inr => simp [hj, h.recieved]
  case retpack.inl => simp
  case retpack.inr => simp [hj, h.retpack]
  case sentAt.inl => simp
  case sentAt.inr => simpa [hj] using h.sentAt j
  case recievedAt.inl => exact fun _ hr => stamp_self hr _ _
  case recievedAt.inr => simpa [hj] using h.recievedAt j
  case time.inl => exact fun _ hr => stamp_self hr _ _
  case time.inr => simpa [hj] using h.time j

theorem probes_ok {xs : List Probe} (hxs : xs.Nodup) (h : Sending s e t ip a l [] w) :
    ∃ w', xs.foldlM (probe e) w = .ok w' ∧ Sending s e t ip a l xs w' := by
  refine foldlM_ok (Sending s e t ip a l) xs (fun past i rest v he hv => probe_ok hv ?_) h
  rw [he, List.nodup_append] at hxs
  exact fun hi => hxs.2.2 i hi i List.mem_cons_self rfl

theorem sending_nil (h : InHop s t w) (hip : w.data.networkIp = some ip)
    (hret : ∀ i, val w.mem (.retpack i) = none) (hips : ∀ i, val w.mem (.resIps i) = none)
    (hdns : ∀ i, val w.mem (.resDns i) = none) :
    Sending s e t ip w.data.alive (w.log ++ [.print (.ttl t)]) []
      (say (.ttl w.data.ttl) (clearRecieved w)) where
  toInHop := ⟨h.ttl, ⟨h.held.total, h.held.payload, h.held.icmp⟩, h.destIp, h.sendpack, h.sound⟩
  network := hip
  recieved := by simp [say, clearRecieved]
  retpack := by simpa [say, clearRecieved] using hret
  resIps := hips
  resDns := hdns
  sentAt := by simp
  recievedAt := by simp
  time := by simp
  alive := by simp [say, clearRecieved]
  log := by simp [say, clearRecieved, probesEvents, h.ttl]

end FtTraceroute.Probes

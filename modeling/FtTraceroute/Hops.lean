import FtTraceroute.Columns

namespace FtTraceroute.Hops

open Library.OwnedSlots Library.Loops
open Libft Header Inet Packet Send Main Script Probes Columns

structure AtHop (s : Session) (e : Env) (pre : List Event) (n : Nat) (w : World) : Prop where
  ttl : w.data.ttl = n + 1
  held : s.Held w.data
  destIp : w.data.destIp = some (inetNtop s.dest.sinAddr)
  network : w.data.networkIp = some (network s e n)
  sendpack : ∀ i, val w.mem (.sendpack i) = some (s.packet (max 1 n) i)
  retpack : ∀ i, val w.mem (.retpack i) = none
  resIps : ∀ i, val w.mem (.resIps i) = none
  resDns : ∀ i, val w.mem (.resDns i) = none
  sound : Sound w.mem
  alive : w.data.alive = aliveAfter s e n
  log : w.log = pre ++ hopsEvents s e n

structure Entered (s : Session) (e : Env) (pre : List Event) (n : Nat) (w : World) : Prop
    extends InHop s (n + 1) w where
  network : w.data.networkIp = some (network s e n)
  retpack : ∀ i, val w.mem (.retpack i) = none
  resIps : ∀ i, val w.mem (.resIps i) = none
  resDns : ∀ i, val w.mem (.resDns i) = none
  alive : w.data.alive = (aliveAfter s e n && !e.handler (.hop (n + 1) .entered) &&
    !e.handler (.hop (n + 1) .updated))
  log : w.log = pre ++ hopsEvents s e n ++ handled e (.hop (n + 1) .entered) ++
    handled e (.hop (n + 1) .updated)

variable {s : Session} {e : Env} {pre : List Event} {n t : Nat} {w : World}

theorem packets_ok {f : World → Probe → Except Halt World} {old new : Probe → Option (List UInt8)}
    (hturn : ∀ m i, Sound m → val m (.sendpack i) = old i →
      ∃ m', f { w with mem := m } i = .ok { w with mem := m' } ∧ Sound m' ∧
        val m' (.sendpack i) = new i ∧ ∀ x ≠ .sendpack i, val m' x = val m x)
    (hsound : Sound w.mem) (hold : ∀ i, val w.mem (.sendpack i) = old i) :
    ∃ m, probes.foldlM f w = .ok { w with mem := m } ∧ Sound m ∧
      (∀ i, val m (.sendpack i) = new i) ∧
      ∀ x, (∀ i, x ≠ .sendpack i) → val m x = val w.mem x := by
  let P (done : List Probe) (v : World) : Prop := ∃ m, v = { w with mem := m } ∧ Sound m ∧
    (∀ i, val m (.sendpack i) = if i ∈ done then new i else old i) ∧
    ∀ x, (∀ i, x ≠ .sendpack i) → val m x = val w.mem x
  have hstep : ∀ past i rest v, probes = past ++ i :: rest → P past v →
      ∃ v', f v i = .ok v' ∧ P (past ++ [i]) v' := by
    rintro past i rest v he ⟨m, rfl, hm, hp, hother⟩
    have hi : i ∉ past := (probes_split he.symm).1
    obtain ⟨m', hrun, hm', hnew, hframe⟩ := hturn m i hm (by simp [hp, hi])
    refine ⟨_, hrun, m', rfl, hm', ?_, fun x hx => (hframe x (hx i)).trans (hother x hx)⟩
    intro j
    by_cases hj : j = i
    · subst hj
      simp [hnew]
    · simp [hframe, hj, hp]
  obtain ⟨_, hrun, m, rfl, hm, hp, hother⟩ :=
    foldlM_ok P probes hstep ⟨w.mem, rfl, hsound, by simpa using hold, fun _ _ => rfl⟩
  have hall : ∀ i : Probe, i ∈ probes := by decide
  exact ⟨m, hrun, hm, by simpa [hall] using hp, hother⟩

theorem updatePackets_ok (hd : s.Held w.data) (hsound : Sound w.mem)
    (hpack : ∀ i, val w.mem (.sendpack i) = some (s.packet t i)) :
    ∃ m, updatePackets w = .ok { w with mem := m } ∧ Sound m ∧
      (∀ i, val m (.sendpack i) = some (s.packet w.data.ttl i)) ∧
      ∀ x, (∀ i, x ≠ .sendpack i) → val m x = val w.mem x := by
  refine packets_ok (fun m i hm hold => ?_) hsound hpack
  refine ⟨modify (.sendpack i) (s.packet w.data.ttl i) m, ?_, hm.modify _, ?_, fun x hx =>
    val_modify_ne hx _ _⟩
  · simp only [updateSlot, hold, s.updatePacket_ok hd, inBounds_some, ok_bind]
    rfl
  · simp [hold]

theorem constructPackets_ok (hd : s.Held w.data) (hip : w.data.networkIp = some s.dest)
    (hm : w.mem = empty) :
    ∃ m, constructPackets w = .ok { w with mem := m } ∧ Sound m ∧
      (∀ i, val m (.sendpack i) = some (s.built w.data.ttl i)) ∧
      ∀ x, (∀ i, x ≠ .sendpack i) → val m x = val w.mem x := by
  refine packets_ok (fun m i hsound hold => ?_) (hm ▸ sound_empty) (fun i => by rw [hm, val_empty])
  refine ⟨fill (.sendpack i) (s.built w.data.ttl i) m, ?_, hsound.fill _ hold, ?_, fun x hx =>
    val_fill_ne hx _ _⟩
  · simp only [constructSlot, s.constructPacket_ok hd hip rfl, ok_bind]
    rfl
  · simp

theorem enterHop_ok (h : AtHop s e pre n w) :
    ∃ w', enterHop e w = .ok w' ∧ Entered s e pre n w' := by
  have hmem : ∀ m, Sound m → (∀ i, val m (.sendpack i) = some (s.packet (n + 1) i)) →
      (∀ x, (∀ i, x ≠ .sendpack i) → val m x = val w.mem x) →
      Entered s e pre n
        { data := { w.data with
            alive := w.data.alive && !e.handler (.hop (n + 1) .entered) &&
              !e.handler (.hop (n + 1) .updated) }
          mem := m
          log := w.log ++ handled e (.hop (n + 1) .entered) ++
            handled e (.hop (n + 1) .updated) } := by
    intro m hm hp hother
    constructor
    case toInHop => exact ⟨h.ttl, ⟨h.held.total, h.held.payload, h.held.icmp⟩, h.destIp, hp, hm⟩
    case network => exact h.network
    case retpack => exact fun i => (hother _ (by simp)).trans (h.retpack i)
    case resIps => exact fun i => (hother _ (by simp)).trans (h.resIps i)
    case resDns => exact fun i => (hother _ (by simp)).trans (h.resDns i)
    case alive => rw [h.alive]
    case log => rw [h.log]
  cases n with
  | zero =>
    refine ⟨_, ?_, hmem w.mem h.sound h.sendpack fun _ _ => rfl⟩
    simp [enterHop, deliver_eq, h.ttl, pure, Except.pure]
  | succ n =>
    have hp : ∀ i, val w.mem (.sendpack i) = some (s.packet (n + 1) i) := by
      simpa using h.sendpack
    have heq := deliver_eq e (.hop (n + 1 + 1) .entered) w
    have hheld : s.Held (deliver e (.hop (n + 1 + 1) .entered) w).data := by
      rw [heq]
      exact ⟨h.held.total, h.held.payload, h.held.icmp⟩
    obtain ⟨m, hup, hm, hpm, hother⟩ := updatePackets_ok hheld (by rw [heq]; exact h.sound)
      (by rw [heq]; exact hp)
    have httl : (deliver e (.hop (n + 1 + 1) .entered) w).data.ttl = n + 1 + 1 := by
      rw [heq]
      exact h.ttl
    rw [httl] at hpm
    refine ⟨_, ?_, hmem m hm hpm fun x hx => by rw [hother x hx, heq]⟩
    rw [enterHop, h.ttl, httl, if_pos (by simp), hup]
    simp [deliver_eq, pure, Except.pure, h.ttl]

theorem freeProbesData_ok (hm : Sound w.mem) :
    ∃ m, freeProbesData w = { w with mem := m } ∧ Sound m ∧
      (∀ i, val m (.sendpack i) = val w.mem (.sendpack i)) ∧ (∀ i, val m (.retpack i) = none) ∧
      (∀ i, val m (.resIps i) = none) ∧ ∀ i, val m (.resDns i) = none := by
  refine ⟨_, rfl, ?_, ?_, ?_, ?_, ?_⟩
  · exact ((((((((hm.dispose _).dispose _).dispose _).dispose _).dispose _).dispose _).dispose
      _).dispose _).dispose _
  all_goals
    intro i
    fin_cases i <;> simp

theorem leaveHop_ok {ip : SockaddrIn} {a : Bool} {l : List Event}
    (h : Printing s e t ip a l probes w) :
    ∃ m, leaveHop e w =
        { data := { w.data with
            ttl := t + 1
            alive := w.data.alive && !e.handler (.hop t .freed) && !e.handler (.hop t .counted) }
          mem := m
          log := w.log ++ handled e (.hop t .freed) ++ handled e (.hop t .counted) } ∧
      Sound m ∧ (∀ i, val m (.sendpack i) = some (s.packet t i)) ∧ (∀ i, val m (.retpack i) = none) ∧
      (∀ i, val m (.resIps i) = none) ∧ ∀ i, val m (.resDns i) = none := by
  obtain ⟨m, hfree, hm, hsend, hrest⟩ := freeProbesData_ok h.sound
  refine ⟨m, ?_, hm, fun i => (hsend i).trans (h.sendpack i), hrest⟩
  simp [leaveHop, hfree, deliver_eq, h.ttl]

theorem log_head (h : Entered s e pre n w) :
    w.log ++ [.print (.ttl (n + 1))] = pre ++ hopsEvents s e n ++ headEvents e (n + 1) := by
  simp [h.log, headEvents]

theorem sending_ok (h : Entered s e pre n w) {past : List Probe} (hpast : past.Nodup) :
    ∃ w', past.foldlM (probe e) (say (.ttl w.data.ttl) (clearRecieved w)) = .ok w' ∧
      Sending s e (n + 1) (network s e n) w.data.alive
        (pre ++ hopsEvents s e n ++ headEvents e (n + 1)) past w' := by
  rw [← log_head h]
  exact probes_ok hpast (sending_nil h.toInHop h.network h.retpack h.resIps h.resDns)

theorem printing_ok (h : Entered s e pre n w) {past : List Probe} (hpast : past <+: probes) :
    ∃ w₁ w₂, sendRecieve e w = .ok w₁ ∧ past.foldlM (column e) w₁ = .ok w₂ ∧
      Printing s e (n + 1) (network s e (n + 1))
        (w.data.alive && probes.all (probeQuiet s e (n + 1)))
        (pre ++ hopsEvents s e n ++ headEvents e (n + 1) ++
          probesEvents s e (n + 1) (network s e n) probes) past w₂ := by
  have hnodup : probes.Nodup := by decide
  obtain ⟨w₁, hrun₁, h₁⟩ := sending_ok h hnodup
  obtain ⟨w₂, hrun₂, h₂⟩ := columns_ok hpast (printing_nil h₁)
  rw [h₁.alive, h₁.log] at h₂
  exact ⟨w₁, w₂, hrun₁, hrun₂, h₂⟩

theorem hop_ok (h : AtHop s e pre n w) : ∃ w', hop e w = .ok w' ∧ AtHop s e pre (n + 1) w' := by
  obtain ⟨w₁, hrun₁, h₁⟩ := enterHop_ok h
  obtain ⟨w₂, w₃, hrun₂, hrun₃, h₃⟩ := printing_ok h₁ List.prefix_rfl
  obtain ⟨m, hleave, hm, hsend, hret, hips, hdns⟩ := leaveHop_ok h₃
  have hrun : hop e w = .ok (leaveHop e w₃) := by
    rw [hop, hrun₁, ok_bind, hrun₂, ok_bind, printProbesOutput, hrun₃]
    rfl
  refine ⟨_, hrun, ?_⟩
  rw [hleave]
  constructor
  case ttl => rfl
  case held => exact ⟨h₃.held.total, h₃.held.payload, h₃.held.icmp⟩
  case destIp => exact h₃.destIp
  case network => exact h₃.network
  case sendpack => simpa using hsend
  case retpack => exact hret
  case resIps => exact hips
  case resDns => exact hdns
  case sound => exact hm
  case alive =>
    change (w₃.data.alive && _ && _) = _
    rw [h₃.alive, h₁.alive, aliveAfter, quiet]
    simp only [Bool.and_assoc]
  case log =>
    change w₃.log ++ _ ++ _ = _
    rw [h₃.log, hopsEvents_succ, hopEvents]
    simp only [List.append_assoc]

end FtTraceroute.Hops

import FtTraceroute.Probes

namespace FtTraceroute.Columns

open Library.OwnedSlots Library.Loops
open Libft Header Inet Packet Recieve Output Main Script Probes

/-- Hop `t` after the columns of the probes in `done` were printed. -/
structure Printing (s : Session) (e : Env) (t : Nat) (ip : SockaddrIn) (a : Bool) (l : List Event)
    (done : List Probe) (w : World) : Prop extends InHop s t w where
  network : w.data.networkIp = some ip
  recieved : ∀ i, w.data.recieved i = (e.recvfrom t i).isSome
  retpack : ∀ i, val w.mem (.retpack i) = (e.recvfrom t i).map Datagram.toBlock
  resIps : ∀ i, val w.mem (.resIps i) =
    if i ∈ done then (e.recvfrom t i).map fun d => inetNtop d.saddr else none
  resDns : ∀ i, val w.mem (.resDns i) =
    if i ∈ done then (e.recvfrom t i).bind fun d => e.getnameinfo t i d.saddr else none
  sentAt : ∀ i, w.data.sendTime i = e.sentAt t i
  recievedAt : ∀ i, (e.recvfrom t i).isSome → w.data.recieveTime i = e.recievedAt t i
  time : ∀ i, (e.recvfrom t i).isSome →
    w.data.probeTimes i = convertToMilliseconds (e.recievedAt t i) (e.sentAt t i)
  alive : w.data.alive = (a && done.all (columnQuiet s e t))
  log : w.log = l ++ done.flatMap (columnEvents e t)

variable {s : Session} {e : Env} {t : Nat} {ip : SockaddrIn} {a : Bool} {l : List Event}
  {done : List Probe} {w : World}

theorem val_storeAddress_resIps (i : Probe) (saddr : InAddr) (m : Slots Slot Content) (j : Probe) :
    val (storeAddress e t i saddr m) (.resIps j) =
      if j = i then some (inetNtop saddr) else val m (.resIps j) := by
  obtain rfl | hj := eq_or_ne j i
  · simp [storeAddress]
  · cases hn : e.getnameinfo t i saddr <;> simp [storeAddress, storeName, hn, hj]

theorem val_storeAddress_resDns (i : Probe) (saddr : InAddr) (m : Slots Slot Content) (j : Probe)
    (hm : val m (.resDns i) = none) :
    val (storeAddress e t i saddr m) (.resDns j) =
      if j = i then e.getnameinfo t i saddr else val m (.resDns j) := by
  obtain rfl | hj := eq_or_ne j i
  · cases hn : e.getnameinfo t j saddr <;> simp [storeAddress, storeName, hn, hm]
  · cases hn : e.getnameinfo t i saddr <;> simp [storeAddress, storeName, hn, hj]

theorem val_storeAddress_pack (i : Probe) (saddr : InAddr) (m : Slots Slot Content) (j : Probe) :
    val (storeAddress e t i saddr m) (.sendpack j) = val m (.sendpack j) ∧
      val (storeAddress e t i saddr m) (.retpack j) = val m (.retpack j) := by
  cases hn : e.getnameinfo t i saddr <;> simp [storeAddress, storeName, hn]

theorem sound_storeAddress {m : Slots Slot Content} (hm : Sound m) {i : Probe} (saddr : InAddr)
    (hips : val m (.resIps i) = none) (hdns : val m (.resDns i) = none) :
    Sound (storeAddress e t i saddr m) := by
  have h := hm.touch (.retpack i)
  unfold storeAddress
  cases hn : e.getnameinfo t i saddr with
  | none => exact (h.touch _).fill _ (by simpa [storeName] using hips)
  | some name => exact ((h.fill _ hdns).touch _).fill _ (by simpa [storeName] using hips)

theorem pred_ne {i : Probe} (hi : i ≠ 0) : i - 1 ≠ i := by
  revert i
  decide

theorem sameAsPrevious_ok (w : World) {i : Probe} {d : Datagram} (hr : e.recvfrom t i = some d)
    (hip : val w.mem (.resIps i) = some (inetNtop d.saddr))
    (hrec : w.data.recieved (i - 1) = (e.recvfrom t (i - 1)).isSome)
    (hprev : i ≠ 0 → val w.mem (.resIps (i - 1)) =
      (e.recvfrom t (i - 1)).map fun d => inetNtop d.saddr)
    (hsound : Sound w.mem) :
    ∃ m, sameAsPrevious i w = .ok (repeats e t i, { w with mem := m }) ∧ Sound m ∧
      val m = val w.mem := by
  by_cases hi : i = 0
  · exact ⟨w.mem, by simp [sameAsPrevious, repeats, hi], hsound, rfl⟩
  · cases hp : e.recvfrom t (i - 1) with
    | none => exact ⟨w.mem, by simp [sameAsPrevious, repeats, hi, hrec, hp], hsound, rfl⟩
    | some d' =>
      refine ⟨touch (.resIps (i - 1)) (touch (.resIps i) w.mem), ?_, (hsound.touch _).touch _, rfl⟩
      have hv : val w.mem (.resIps (i - 1)) = some (inetNtop d'.saddr) := by simp [hprev hi, hp]
      simp [sameAsPrevious, Except.mapError, repeats, hi, hrec, hp, hr, hip, hv, beq_eq_decide]

/-- `print_route` prints the column of the script, and clears `alive` for the
destination unless the column repeats the previous one. -/
theorem printRoute_ok (h : Printing s e t ip a l done w) {i : Probe} (hi : i ∉ done)
    (hprev : i ≠ 0 → i - 1 ∈ done) {d : Datagram} (hr : e.recvfrom t i = some d) :
    ∃ m, printRoute e i w = .ok
        { data := { w.data with alive := w.data.alive && (repeats e t i || !fromDest s d) }
          mem := m
          log := w.log ++ [.print (columnOut e t i)] } ∧
      Sound m ∧ val m = val (storeAddress e t i d.saddr w.mem) := by
  have hips : val w.mem (.resIps i) = none := by simp [h.resIps, hi]
  have hdns : val w.mem (.resDns i) = none := by simp [h.resDns, hi]
  have haddr : getAddress e i w = .ok { w with mem := storeAddress e t i d.saddr w.mem } := by
    rw [getAddress, h.retpack i, hr, h.ttl]
    rfl
  have hbefore : i ≠ 0 → val (storeAddress e t i d.saddr w.mem) (.resIps (i - 1)) =
      (e.recvfrom t (i - 1)).map fun d => inetNtop d.saddr := by
    intro hne
    simp [val_storeAddress_resIps, pred_ne hne, h.resIps, hprev hne]
  obtain ⟨m, hsame, hm, hval⟩ := sameAsPrevious_ok
    { w with mem := storeAddress e t i d.saddr w.mem } hr (by simp [val_storeAddress_resIps])
    (h.recieved (i - 1)) hbefore (sound_storeAddress h.sound _ hips hdns)
  have htime := h.time i (by simp [hr])
  rw [printRoute, haddr, ok_bind, hsame, ok_bind]
  cases hrep : repeats e t i with
  | true =>
    refine ⟨m, ?_, hm, hval⟩
    simp [columnOut, hr, hrep, htime, say, note, pure, Except.pure]
  | false =>
    refine ⟨touch (.resDns i) (touch (.resIps i) m), ?_, (hm.touch _).touch _, hval⟩
    have hip : val m (.resIps i) = some (inetNtop d.saddr) := by
      simp [hval, val_storeAddress_resIps]
    have hname : val m (.resDns i) = e.getnameinfo t i d.saddr := by
      simp [hval, val_storeAddress_resDns _ _ _ _ hdns]
    have hcmp : strcmpBytes (inetNtop s.dest.sinAddr).bytes (inetNtop d.saddr).bytes = 0 ↔
        fromDest s d = true := by
      rw [strcmpBytes_strings, inetNtop_inj, fromDest, beq_iff_eq, eq_comm]
    simp only [Bool.false_eq_true, ↓reduceIte, hip, hname]
    split
    · next x y hx hy =>
      rw [h.destIp] at hy
      cases hx
      cases hy
      rw [ftStrcmp_inetNtop]
      simp only [Except.mapError, ok_bind, hcmp]
      cases hd : fromDest s d <;>
        simp [columnOut, hr, hrep, htime, say, note, pure, Except.pure]
    · next hnone => exact absurd h.destIp (hnone _ _ rfl)

theorem not_quiet_of_repeats {i : Probe} (hprev : i ≠ 0 → i - 1 ∈ done) {d : Datagram}
    (hr : e.recvfrom t i = some d) (hrep : repeats e t i = true) (hd : fromDest s d = true) :
    done.all (columnQuiet s e t) = false := by
  simp only [repeats, hr, Option.any_some, Bool.and_eq_true, decide_eq_true_eq] at hrep
  obtain ⟨hi, hany⟩ := hrep
  cases hp : e.recvfrom t (i - 1) with
  | none => simp [hp] at hany
  | some d' =>
    have heq : d.saddr = d'.saddr := by simpa [hp] using hany
    have hd' : fromDest s d' = true := by simpa [fromDest, heq] using hd
    rw [List.all_eq_false]
    exact ⟨i - 1, hprev hi, by simp [columnQuiet, hp, hd']⟩

theorem alive_concat {i : Probe} (hprev : i ≠ 0 → i - 1 ∈ done) {d : Datagram}
    (hr : e.recvfrom t i = some d) (halive : w.data.alive = (a && done.all (columnQuiet s e t))) :
    (w.data.alive && (repeats e t i || !fromDest s d) && !e.handler (.hop t (.printed i))) =
      (a && (done ++ [i]).all (columnQuiet s e t)) := by
  have hquiet : columnQuiet s e t i = (!fromDest s d && !e.handler (.hop t (.printed i))) := by
    simp [columnQuiet, hr]
  rw [List.all_append, List.all_cons, List.all_nil, Bool.and_true, hquiet, halive]
  cases hrep : repeats e t i with
  | false => simp [Bool.and_assoc]
  | true =>
    cases hd : fromDest s d with
    | false => simp [Bool.and_assoc]
    | true => simp [not_quiet_of_repeats hprev hr hrep hd]

theorem column_eq (h : Printing s e t ip a l done w) {i : Probe} (hi : i ∉ done)
    (hprev : i ≠ 0 → i - 1 ∈ done) :
    ∃ m, column e w i = .ok
        { data := { w.data with alive := a && (done ++ [i]).all (columnQuiet s e t) }
          mem := m
          log := w.log ++ columnEvents e t i } ∧
      Sound m ∧
      (∀ j, val m (.sendpack j) = val w.mem (.sendpack j)) ∧
      (∀ j, val m (.retpack j) = val w.mem (.retpack j)) ∧
      (∀ j, val m (.resIps j) =
        if j = i then (e.recvfrom t i).map fun d => inetNtop d.saddr else val w.mem (.resIps j)) ∧
      ∀ j, val m (.resDns j) =
        if j = i then (e.recvfrom t i).bind fun d => e.getnameinfo t i d.saddr
        else val w.mem (.resDns j) := by
  have hips : val w.mem (.resIps i) = none := by simp [h.resIps, hi]
  have hdns : val w.mem (.resDns i) = none := by simp [h.resDns, hi]
  have hlast := h.recieved i
  cases hr : e.recvfrom t i with
  | none =>
    have halive : (w.data.alive && !e.handler (.hop t (.printed i))) =
        (a && (done ++ [i]).all (columnQuiet s e t)) := by
      simp [h.alive, columnQuiet, hr, Bool.and_assoc]
    rw [hr, Option.isSome_none] at hlast
    refine ⟨w.mem, ?_, h.sound, fun _ => rfl, fun _ => rfl, ?_, ?_⟩
    · rw [← halive]
      obtain rfl | h2 := eq_or_ne i 2
      · simp [column, printProbeData, hlast, hr, deliver_eq, say, note, pure, Except.pure, h.ttl,
          columnEvents, columnOut]
      · simp [column, printProbeData, hlast, hr, deliver_eq, say, note, pure, Except.pure, h.ttl,
          columnEvents, columnOut, h2]
    · intro j
      split
      · next hj => exact hj ▸ hips
      · rfl
    · intro j
      split
      · next hj => exact hj ▸ hdns
      · rfl
  | some d =>
    obtain ⟨m, hroute, hm, hval⟩ := printRoute_ok h hi hprev hr
    rw [hr, Option.isSome_some] at hlast
    refine ⟨m, ?_, hm, fun j => ?_, fun j => ?_, fun j => ?_, fun j => ?_⟩
    · rw [← alive_concat hprev hr h.alive]
      obtain rfl | h2 := eq_or_ne i 2
      · simp [column, printProbeData, hlast, hroute, deliver_eq, say, note, pure, Except.pure, h.ttl,
          columnEvents]
      · simp [column, printProbeData, hlast, hroute, deliver_eq, pure, Except.pure, h.ttl,
          columnEvents, h2]
    · rw [hval, (val_storeAddress_pack i d.saddr w.mem j).1]
    · rw [hval, (val_storeAddress_pack i d.saddr w.mem j).2]
    · rw [hval, val_storeAddress_resIps]
      rfl
    · rw [hval, val_storeAddress_resDns _ _ _ _ hdns]
      rfl

theorem column_ok (h : Printing s e t ip a l done w) {i : Probe} (hi : i ∉ done)
    (hprev : i ≠ 0 → i - 1 ∈ done) :
    ∃ w', column e w i = .ok w' ∧ Printing s e t ip a l (done ++ [i]) w' := by
  obtain ⟨m, hcol, hm, hsend, hret, hips, hdns⟩ := column_eq h hi hprev
  refine ⟨_, hcol, ?_⟩
  constructor
  case toInHop =>
    exact ⟨h.ttl, ⟨h.held.total, h.held.payload, h.held.icmp⟩, h.destIp,
      fun j => (hsend j).trans (h.sendpack j), hm⟩
  case network => exact h.network
  case recieved => exact h.recieved
  case retpack => exact fun j => (hret j).trans (h.retpack j)
  case sentAt => exact h.sentAt
  case recievedAt => exact h.recievedAt
  case time => exact h.time
  case alive => rfl
  case log => simp [h.log]
  all_goals
    intro j
    obtain rfl | hj := eq_or_ne j i
  case resIps.inl => simp [hips]
  case resIps.inr => simp [hips, hj, h.resIps]
  case resDns.inl => simp [hdns]
  case resDns.inr => simp [hdns, hj, h.resDns]

theorem probes_split {past rest : List Probe} {i : Probe} (h : past ++ i :: rest = probes) :
    i ∉ past ∧ (i ≠ 0 → i - 1 ∈ past) := by
  match past, h with
  | [], h => cases h; decide
  | [_], h => cases h; decide
  | [_, _], h => cases h; decide
  | _ :: _ :: _ :: _, h => simp [probes] at h

theorem columns_ok {xs : List Probe} (hxs : xs <+: probes) (h : Printing s e t ip a l [] w) :
    ∃ w', xs.foldlM (column e) w = .ok w' ∧ Printing s e t ip a l xs w' := by
  obtain ⟨ys, hys⟩ := hxs
  refine foldlM_ok (Printing s e t ip a l) xs (fun past i rest v he hv => ?_) h
  have hall : past ++ i :: (rest ++ ys) = probes := by simp [← hys, he]
  obtain ⟨hi, hprev⟩ := probes_split hall
  exact column_ok hv hi hprev

theorem printing_nil (h : Sending s e t ip a l probes w) :
    Printing s e t (sender e t ip probes) w.data.alive w.log [] w := by
  have hall : ∀ i : Probe, i ∈ probes := by decide
  constructor
  case toInHop => exact h.toInHop
  case network => exact h.network
  case recieved => simpa [hall] using h.recieved
  case retpack => simpa [hall] using h.retpack
  case resIps => simpa using h.resIps
  case resDns => simpa using h.resDns
  case sentAt => exact fun i => h.sentAt i (hall i)
  case recievedAt => exact fun i => h.recievedAt i (hall i)
  case time => exact fun i => h.time i (hall i)
  case alive => simp
  case log => simp

end FtTraceroute.Columns

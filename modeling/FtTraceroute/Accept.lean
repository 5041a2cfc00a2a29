import FtTraceroute.Packet
import FtTraceroute.Parsing

namespace FtTraceroute.Accept

open Library.OwnedSlots Library.Loops Libft Header Inet Numbers Packet Parsing

/-- What `parse_dest` leaves when it returns: the session's values, and nothing
done but one look-up. -/
structure Parsed (e : Env) (s : Session) (host : CString) (w : World) : Prop where
  resolved : e.getaddrinfo host = .ok s.dest
  held : s.Held w.data
  network : w.data.networkIp = some s.dest
  destIp : w.data.destIp = some (inetNtop s.dest.sinAddr)
  inputDest : w.data.inputDest = some host
  mem : w.mem = empty
  log : w.log = [.getaddrinfo host]

variable {e : Env} {s : Session} {host arg plen : CString} {argv : List CString} {index k : Nat}
  {w w' : World}

structure Fresh (w : World) : Prop where
  mem : w.mem = empty
  log : w.log = []

theorem fresh_checkIcmpTraceroute (h : Fresh w) (argc : Nat) :
    Fresh (checkIcmpTraceroute argc argv w).2 := by
  unfold checkIcmpTraceroute
  split <;> exact ⟨h.mem, h.log⟩

theorem testDest_ok (hw : Fresh w) (h : testDest e arg w = .ok w') : ∃ s, Parsed e s arg w' := by
  cases hr : e.getaddrinfo arg with
  | error ret => simp [testDest, hr] at h
  | ok dest =>
    simp only [testDest, hr, Except.ok.injEq] at h
    subst h
    refine ⟨⟨dest, w.data.icmpRoute, 32, by decide⟩, hr, ⟨rfl, rfl, rfl⟩, rfl, rfl, rfl, hw.mem, ?_⟩
    simp [note, hw.log]

theorem testPacketlen_ok (hw : Parsed e s host w) (h : testPacketlen plen index w = .ok w') :
    ∃ s, Parsed e s host w' := by
  rw [testPacketlen_eq] at h
  split at h
  · cases h
  · split at h
    · cases h
    · split at h
      · cases h
      · next hbig =>
        have hge : 28 ≤ if atoiValue plen < 28 then 28 else (atoiValue plen).toNat := by
          split <;> omega
        have hle : (if atoiValue plen < 28 then 28 else (atoiValue plen).toNat) ≤ maxPacketSize := by
          unfold maxPacketSize at hbig ⊢
          split <;> omega
        generalize (if atoiValue plen < 28 then 28 else (atoiValue plen).toNat) = total at h hge hle
        cases h
        refine ⟨⟨s.dest, s.icmp, total - 28, by omega⟩, hw.resolved, ⟨?_, rfl, hw.held.icmp⟩,
          hw.network, hw.destIp, hw.inputDest, hw.mem, hw.log⟩
        exact (Nat.sub_add_cancel hge).symm

theorem argAt_mem (h : k < argv.length) : argAt argv k ∈ argv := by
  rw [argAt, List.getD_eq_getElem _ _ h]
  exact List.getElem_mem h

/-- What a command line comes to, whatever the system answers: the usage, a look-up, or a
look-up and a length. -/
theorem parseDest_cases (argv : List CString) : ∃ v, Fresh v ∧
    ((∀ e, parseDest e argv init = printUsage v) ∨
      (∃ arg, ∀ e, parseDest e argv init = testDest e arg v) ∨
      ∃ arg, ∃ plen ∈ argv, ∃ index, ∀ e,
        parseDest e argv init = testDest e arg v >>= testPacketlen plen index) := by
  have hinit : Fresh init := ⟨rfl, rfl⟩
  have hflag : Fresh (checkIcmpTraceroute argv.length argv init).2 :=
    fresh_checkIcmpTraceroute hinit _
  dsimp only [parseDest]
  by_cases htwo : argv.length = 2
  · by_cases hhelp : argAt argv 1 = helpFlag
    · exact ⟨_, hinit, .inl fun e => by simp [htwo, hhelp]⟩
    · exact ⟨_, hinit, .inr (.inl ⟨_, fun e => by rw [if_pos htwo, if_neg (by simpa)]⟩)⟩
  · by_cases hthree : argv.length = 3
    · by_cases hfound : (checkIcmpTraceroute argv.length argv init).1 = 1
      · refine ⟨_, hflag, .inr (.inl ?_)⟩
        simp only [if_neg htwo, if_pos hthree, if_pos hfound]
        exact ⟨_, fun e => rfl⟩
      · refine ⟨_, hflag, .inr (.inr ?_)⟩
        simp only [if_neg htwo, if_pos hthree, if_neg hfound]
        exact ⟨_, _, argAt_mem (by omega), _, fun e => rfl⟩
    · by_cases hfour : argv.length = 4
      · by_cases hfound : (checkIcmpTraceroute argv.length argv init).1 = 0
        · refine ⟨_, hflag, .inl fun e => ?_⟩
          rw [if_neg htwo, if_neg hthree, if_pos hfour, if_pos hfound]
        · refine ⟨_, hflag, .inr (.inr ?_)⟩
          simp only [if_neg htwo, if_neg hthree, if_pos hfour, if_neg hfound]
          exact ⟨_, _, argAt_mem (by split <;> omega), _, fun e => rfl⟩
      · refine ⟨_, hinit, .inl fun e => ?_⟩
        rw [if_neg htwo, if_neg hthree, if_neg hfour]

theorem parseDest_ok (h : parseDest e argv init = .ok w) : ∃ s host, Parsed e s host w := by
  obtain ⟨v, hv, hparse | ⟨arg, hparse⟩ | ⟨arg, plen, -, index, hparse⟩⟩ := parseDest_cases argv
  · rw [hparse e] at h
    cases h
  · rw [hparse e] at h
    obtain ⟨s, hs⟩ := testDest_ok hv h
    exact ⟨s, arg, hs⟩
  · rw [hparse e] at h
    obtain ⟨u, hu, hlen⟩ := bind_eq_ok.mp h
    obtain ⟨s, hs⟩ := testDest_ok hv hu
    obtain ⟨s', hs'⟩ := testPacketlen_ok hs hlen
    exact ⟨s', arg, hs'⟩

theorem parsed_resolved {e' : Env} (hresolve : e'.getaddrinfo host = e.getaddrinfo host)
    (hs : Parsed e s host w) : Parsed e' s host w :=
  ⟨hresolve.trans hs.resolved, hs.held, hs.network, hs.destIp, hs.inputDest, hs.mem, hs.log⟩

theorem parseDest_resolved {e' : Env} (h : parseDest e argv init = .ok w)
    (hlog : w.log = [.getaddrinfo host]) (hresolve : e'.getaddrinfo host = e.getaddrinfo host) :
    parseDest e' argv init = .ok w := by
  have htest : ∀ {arg v u}, Fresh v → testDest e arg v = .ok u → u.log = [.getaddrinfo host] →
      testDest e' arg v = .ok u := by
    intro arg v u hv hu hul
    obtain ⟨s, hs⟩ := testDest_ok hv hu
    rw [hs.log] at hul
    cases hul
    rw [← hu, testDest, testDest, hresolve]
  obtain ⟨v, hv, hparse | ⟨arg, hparse⟩ | ⟨arg, plen, -, index, hparse⟩⟩ := parseDest_cases argv
  · rw [hparse] at h
    cases h
  · rw [hparse] at h ⊢
    exact htest hv h hlog
  · rw [hparse] at h ⊢
    obtain ⟨u, hu, hlen⟩ := bind_eq_ok.mp h
    have hsame : u.log = w.log := by
      obtain ⟨s, hs⟩ := testDest_ok hv hu
      obtain ⟨s', hs'⟩ := testPacketlen_ok hs hlen
      rw [hs.log, hs'.log]
    rw [htest hv hu (hsame.trans hlog), ok_bind, hlen]

/-- The program ends before any probe buffer is allocated: it exits, or an `int` cannot
count one of its arguments. -/
inductive Refused (argv : List CString) : Halt → Prop
  | exit {code : Nat} {w : World} : w.mem = empty → Refused argv (.exit code w)
  | overrun {plen : CString} {w : World} : w.mem = empty → plen ∈ argv →
      2 ^ 31 ≤ plen.bytes.length → Refused argv (.overrun w)

variable {x : Halt}

theorem testDest_error (hw : w.mem = empty) (h : testDest e arg w = .error x) :
    Refused argv x := by
  cases hr : e.getaddrinfo arg with
  | error ret =>
    simp only [testDest, hr, Except.error.injEq] at h
    exact h ▸ .exit hw
  | ok dest => simp [testDest, hr] at h

theorem testPacketlen_error (hw : w.mem = empty) (hmem : plen ∈ argv)
    (h : testPacketlen plen index w = .error x) : Refused argv x := by
  rw [testPacketlen_eq] at h
  split at h
  · next hlong =>
    cases h
    exact .overrun hw hmem (hlong.trans (scanned_le plen.bytes))
  · split at h
    · cases h
      exact .exit hw
    · split at h
      · cases h
        exact .exit hw
      · cases h

/-- Where the parse of a command line can end the run. -/
theorem parseDest_failed (h : parseDest e argv init = .error x) :
    (∃ v, Fresh v ∧ x = .exit 0 (say .usage v)) ∨
      (∃ v arg, Fresh v ∧ testDest e arg v = .error x) ∨
      ∃ s host u index, ∃ plen ∈ argv, Parsed e s host u ∧
        testPacketlen plen index u = .error x := by
  obtain ⟨v, hv, hparse | ⟨arg, hparse⟩ | ⟨arg, plen, hmem, index, hparse⟩⟩ := parseDest_cases argv
  · rw [hparse e] at h
    cases h
    exact .inl ⟨v, hv, rfl⟩
  · rw [hparse e] at h
    exact .inr (.inl ⟨v, arg, hv, h⟩)
  · rw [hparse e] at h
    cases hu : testDest e arg v with
    | error y =>
      rw [hu] at h
      cases h
      exact .inr (.inl ⟨v, arg, hv, hu⟩)
    | ok u =>
      obtain ⟨s, hs⟩ := testDest_ok hv hu
      rw [hu] at h
      exact .inr (.inr ⟨s, arg, u, index, plen, hmem, hs, h⟩)

theorem parseDest_error (h : parseDest e argv init = .error x) : Refused argv x := by
  obtain ⟨v, hv, rfl⟩ | ⟨v, arg, hv, hdest⟩ | ⟨s, host, u, index, plen, hmem, hs, hlen⟩ :=
    parseDest_failed h
  · exact .exit hv.mem
  · exact testDest_error hv.mem hdest
  · exact testPacketlen_error hs.mem hmem hlen

end FtTraceroute.Accept

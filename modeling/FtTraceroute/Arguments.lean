import FtTraceroute.Run

namespace FtTraceroute.Arguments

open Library.Loops Libft Header Parsing Main Accept Run

def IcmpFlag (arg : CString) : Prop := arg = icmpFlag ∨ arg = icmpLongFlag

def flagged (k : Nat) (w : World) : World :=
  { w with data := { w.data with icmpRoute := true, icmpRouteIndex := k } }

def forgetPosition : Event → Event
  | .print (.badPacketlen plen _) => .print (.badPacketlen plen 0)
  | ev => ev

/-- A state without the mark of the flag. -/
def forget (w : World) : World :=
  { w with
    data := { w.data with icmpRoute := false, icmpRouteIndex := 0 }
    log := w.log.map forgetPosition }

/-- How a parse ends, but for the flag and the position in a message. -/
def outcome : Except Halt World → Except Halt World
  | .ok w => .ok (forget w)
  | .error (.exit code w) => .error (.exit code (forget w))
  | .error (.overrun w) => .error (.overrun (forget w))
  | .error x => .error x

def routeFlag : Except Halt World → Option Bool
  | .ok w => some w.data.icmpRoute
  | .error (.exit _ w) | .error (.overrun w) => some w.data.icmpRoute
  | .error _ => none

/-- The parse `x` with the flag ends as the parse `y` without it. -/
structure SameParse (x y : Except Halt World) : Prop where
  outcome : outcome x = outcome y
  flagged : routeFlag x = some true
  plain : routeFlag y = some false

variable {e : Env} {prog f h p a : CString} {argv : List CString} {k : Nat} {w v : World}

theorem isFlag_iff (arg : CString) :
    (ftStrcmp arg icmpFlag = .ok 0 || ftStrcmp arg icmpLongFlag = .ok 0) = true ↔ IcmpFlag arg := by
  simp [IcmpFlag]

theorem checkIcmpTraceroute_flag {argc : Nat} (hk : 1 ≤ k) (hlt : k < argc)
    (hflag : IcmpFlag (argAt argv k)) (hbefore : ∀ j, 1 ≤ j → j < k → ¬ IcmpFlag (argAt argv j)) :
    checkIcmpTraceroute argc argv w = (1, flagged k w) := by
  have hfind : (List.range' 1 (argc - 1)).find? (fun i =>
      ftStrcmp (argAt argv i) icmpFlag = .ok 0 || ftStrcmp (argAt argv i) icmpLongFlag = .ok 0) =
        some k := by
    rw [List.find?_range'_eq_some]
    refine ⟨(isFlag_iff _).mpr hflag, ?_, ?_⟩
    · simp
      omega
    · intro j hj hjk
      simpa [IcmpFlag] using hbefore j hj hjk
  rw [checkIcmpTraceroute, hfind]
  rfl

theorem checkIcmpTraceroute_none {argc : Nat}
    (hnone : ∀ j, 1 ≤ j → j < argc → ¬ IcmpFlag (argAt argv j)) :
    checkIcmpTraceroute argc argv w = (0, w) := by
  have hfind : (List.range' 1 (argc - 1)).find? (fun i =>
      ftStrcmp (argAt argv i) icmpFlag = .ok 0 || ftStrcmp (argAt argv i) icmpLongFlag = .ok 0) =
      none := by
    rw [List.find?_eq_none]
    intro j hj
    rw [List.mem_range'_1] at hj
    rw [isFlag_iff]
    exact hnone j hj.1 (by omega)
  rw [checkIcmpTraceroute, hfind]

theorem checkIcmpTraceroute_zero {argc : Nat} (h : (checkIcmpTraceroute argc argv w).1 = 0) :
    ∀ j, 1 ≤ j → j < argc → ¬ IcmpFlag (argAt argv j) := by
  intro j hj hlt hflag
  unfold checkIcmpTraceroute at h
  split at h
  · cases h
  · next hfind =>
    rw [List.find?_eq_none] at hfind
    exact hfind j (List.mem_range'_1.mpr ⟨hj, by omega⟩) ((isFlag_iff _).mpr hflag)

theorem parseDest_host (hh : h ≠ helpFlag) (w : World) :
    parseDest e [prog, h] w = testDest e h w := by
  simp [parseDest, argAt, hh]

theorem parseDest_both (hh : ¬ IcmpFlag h) (hp : ¬ IcmpFlag p) (w : World) :
    parseDest e [prog, h, p] w = testDest e h w >>= testPacketlen p 2 := by
  have hnone : checkIcmpTraceroute 3 [prog, h, p] w = (0, w) :=
    checkIcmpTraceroute_none fun j hj hlt => by interval_cases j <;> assumption
  simp [parseDest, hnone, argAt]

theorem parseDest_flag_host (hf : IcmpFlag f) (w : World) :
    parseDest e [prog, f, h] w = testDest e h (flagged 1 w) := by
  have hfind : checkIcmpTraceroute 3 [prog, f, h] w = (1, flagged 1 w) :=
    checkIcmpTraceroute_flag le_rfl (by decide) hf fun j hj hlt => by omega
  simp [parseDest, hfind, argAt, flagged]

theorem parseDest_host_flag (hf : IcmpFlag f) (hh : ¬ IcmpFlag h) (w : World) :
    parseDest e [prog, h, f] w = testDest e h (flagged 2 w) := by
  have hfind : checkIcmpTraceroute 3 [prog, h, f] w = (1, flagged 2 w) :=
    checkIcmpTraceroute_flag (by decide) (by decide) hf fun j hj hlt => by
      interval_cases j
      exact hh
  simp [parseDest, hfind, argAt, flagged]

theorem parseDest_flag_both (hf : IcmpFlag f) (w : World) :
    parseDest e [prog, f, h, p] w = testDest e h (flagged 1 w) >>= testPacketlen p 3 := by
  have hfind : checkIcmpTraceroute 4 [prog, f, h, p] w = (1, flagged 1 w) :=
    checkIcmpTraceroute_flag le_rfl (by decide) hf fun j hj hlt => by omega
  simp [parseDest, hfind, argAt, flagged]

theorem parseDest_host_flag_len (hf : IcmpFlag f) (hh : ¬ IcmpFlag h) (w : World) :
    parseDest e [prog, h, f, p] w = testDest e h (flagged 2 w) >>= testPacketlen p 3 := by
  have hfind : checkIcmpTraceroute 4 [prog, h, f, p] w = (1, flagged 2 w) :=
    checkIcmpTraceroute_flag (by decide) (by decide) hf fun j hj hlt => by
      interval_cases j
      exact hh
  simp [parseDest, hfind, argAt, flagged]

theorem parseDest_both_flag (hf : IcmpFlag f) (hh : ¬ IcmpFlag h) (hp : ¬ IcmpFlag p) (w : World) :
    parseDest e [prog, h, p, f] w = testDest e h (flagged 3 w) >>= testPacketlen p 2 := by
  have hfind : checkIcmpTraceroute 4 [prog, h, p, f] w = (1, flagged 3 w) :=
    checkIcmpTraceroute_flag (by decide) (by decide) hf fun j hj hlt => by
      interval_cases j <;> assumption
  simp [parseDest, hfind, argAt, flagged]

theorem sameParse_host (k : Nat) (h : CString) :
    SameParse (testDest e h (flagged k init)) (testDest e h init) := by
  cases hr : e.getaddrinfo h <;>
    exact ⟨by simp only [testDest, hr]; rfl, by simp only [testDest, hr]; rfl,
      by simp only [testDest, hr]; rfl⟩

theorem sameParse_testPacketlen (k i j : Nat) (hw : w.data.icmpRoute = false) :
    SameParse (testPacketlen p i (flagged k w)) (testPacketlen p j w) := by
  rw [testPacketlen_eq, testPacketlen_eq]
  split
  · exact ⟨by simp [outcome, forget, flagged], rfl, congrArg some hw⟩
  · split
    · exact ⟨by simp [outcome, forget, flagged, say, note, forgetPosition], rfl, congrArg some hw⟩
    · split
      · exact ⟨by simp [outcome, forget, flagged, say, note, forgetPosition], rfl, congrArg some hw⟩
      · exact ⟨by simp [outcome, forget, flagged, sized], rfl, congrArg some hw⟩

def resolved (arg : CString) (dest : SockaddrIn) (w : World) : World :=
  { note (.getaddrinfo arg) w with
    data := { w.data with
      inputDest := some arg
      destIp := some (Inet.inetNtop dest.sinAddr)
      networkIp := some dest
      totalSize := 60
      payloadSize := 32 } }

theorem testDest_resolved {dest : SockaddrIn} (hr : e.getaddrinfo h = .ok dest) (w : World) :
    testDest e h w = .ok (resolved h dest w) := by
  simp only [testDest, hr]
  rfl

theorem sameParse_both (k i j : Nat) (h p : CString) :
    SameParse (testDest e h (flagged k init) >>= testPacketlen p i)
      (testDest e h init >>= testPacketlen p j) := by
  cases hr : e.getaddrinfo h with
  | error ret =>
    have hhost := @sameParse_host e k h
    simp only [testDest, hr] at hhost ⊢
    exact hhost
  | ok dest =>
    have hplain := testDest_resolved hr init
    have hflag : testDest e h (flagged k init) = .ok (flagged k (resolved h dest init)) :=
      testDest_resolved hr _
    rw [hplain, hflag, ok_bind, ok_bind]
    exact sameParse_testPacketlen k i j rfl

/-- Wherever the flag stands, the same argument is the host and the same one the length. -/
theorem flag_position (e : Env) (prog : CString) (hf : IcmpFlag f) (hh : ¬ IcmpFlag h)
    (hhelp : h ≠ helpFlag) (hp : ¬ IcmpFlag p) :
    (∀ argv ∈ [[prog, f, h], [prog, h, f]],
      SameParse (parseDest e argv init) (parseDest e [prog, h] init)) ∧
    ∀ argv ∈ [[prog, f, h, p], [prog, h, f, p], [prog, h, p, f]],
      SameParse (parseDest e argv init) (parseDest e [prog, h, p] init) := by
  constructor
  · rw [parseDest_host hhelp]
    simp only [List.mem_cons, List.not_mem_nil, or_false]
    rintro argv (rfl | rfl)
    · rw [parseDest_flag_host hf]
      exact sameParse_host 1 h
    · rw [parseDest_host_flag hf hh]
      exact sameParse_host 2 h
  · rw [parseDest_both hh hp]
    simp only [List.mem_cons, List.not_mem_nil, or_false]
    rintro argv (rfl | rfl | rfl)
    · rw [parseDest_flag_both hf]
      exact sameParse_both 1 3 2 h p
    · rw [parseDest_host_flag_len hf hh]
      exact sameParse_both 2 3 2 h p
    · rw [parseDest_both_flag hf hh hp]
      exact sameParse_both 3 2 2 h p

def program : CString := argAt udpArgs 0

def hostArg : CString := argAt udpArgs 1

def lengthArg : CString := ⟨ascii "100", by decide⟩

theorem flag_position_host :
    (∀ argv ∈ [[program, icmpFlag, hostArg], [program, hostArg, icmpFlag]],
      SameParse (parseDest (silent target) argv init)
        (parseDest (silent target) [program, hostArg] init)) ∧
    ∀ argv ∈ [[program, icmpFlag, hostArg, lengthArg], [program, hostArg, icmpFlag, lengthArg],
        [program, hostArg, lengthArg, icmpFlag]],
      SameParse (parseDest (silent target) argv init)
        (parseDest (silent target) [program, hostArg, lengthArg] init) :=
  flag_position (silent target) program (.inl rfl) (by simp [IcmpFlag]; decide) (by decide)
    (by simp [IcmpFlag]; decide)

def HelpOnly (x : Except Halt World) : Prop :=
  ∃ v, x = .error (.exit 0 v) ∧ v.log = [.print .usage]

theorem helpOnly_printUsage (hw : w.log = []) : HelpOnly (printUsage w) :=
  ⟨_, rfl, by simp [say, hw]⟩

def Asks (x : Except Halt World) : Prop :=
  ∀ code v, x = .error (.exit code v) → ∃ arg, .getaddrinfo arg ∈ v.log

theorem not_helpOnly {x : Except Halt World} (hx : Asks x) : ¬ HelpOnly x := by
  rintro ⟨v, hv, hlog⟩
  obtain ⟨arg, hmem⟩ := hx 0 v hv
  simp [hlog] at hmem

theorem asks_testDest (arg : CString) (w : World) : Asks (testDest e arg w) := by
  intro code v hv
  cases hr : e.getaddrinfo arg with
  | error ret =>
    simp only [testDest, hr, Except.error.injEq, Halt.exit.injEq] at hv
    obtain ⟨-, rfl⟩ := hv
    exact ⟨arg, by simp [say]⟩
  | ok dest =>
    rw [testDest_resolved hr] at hv
    cases hv

theorem asks_both (arg plen : CString) (index : Nat) (w : World) :
    Asks (testDest e arg w >>= testPacketlen plen index) := by
  intro code v hv
  cases hr : e.getaddrinfo arg with
  | error ret =>
    have hasks := asks_testDest (e := e) arg w code v
    simp only [testDest, hr] at hasks hv
    exact hasks hv
  | ok dest =>
    have hmem : .getaddrinfo arg ∈ (resolved arg dest w).log := by simp [resolved]
    rw [testDest_resolved hr, ok_bind, testPacketlen_eq] at hv
    split at hv
    · cases hv
    · split at hv
      · cases hv
        exact ⟨arg, List.mem_append_left _ hmem⟩
      · split at hv
        · cases hv
          exact ⟨arg, List.mem_append_left _ hmem⟩
        · cases hv

/-- A run ends with code 0 before its loop only if the parse does. -/
theorem helpOnly_main : HelpOnly (main e argv) ↔ HelpOnly (parseDest e argv init) := by
  constructor
  · rintro ⟨v, hv, hlog⟩
    cases hp : parseDest e argv init with
    | error x =>
      rw [main_refused hp] at hv
      exact ⟨v, hv, hlog⟩
    | ok w₀ =>
      obtain ⟨s, host, hs⟩ := parseDest_ok hp
      obtain hfd | hfd := lt_or_ge e.socket 0
      · obtain ⟨u, hmain, -⟩ := main_noSocket hp hs hfd
        rw [hmain] at hv
        cases hv
      · obtain ⟨-, w, hmain, -⟩ := main_ok hp hs hfd
        rw [hmain] at hv
        cases hv
  · rintro ⟨v, hv, hlog⟩
    exact ⟨v, main_refused hv, hlog⟩

/-- `--help` is looked for in a command line of one argument only; for two and three
arguments the usage is printed for their number, or not at all. -/
theorem help_iff (h : helpFlag ∈ argv.tail) : HelpOnly (main e argv) ↔
    argv.length = 2 ∨ 5 ≤ argv.length ∨ argv.length = 4 ∧ ∀ a ∈ argv.tail, ¬ IcmpFlag a := by
  rw [helpOnly_main]
  match argv, h with
  | [], h => simp at h
  | [_], h => simp at h
  | [prog, a], h =>
    obtain rfl : a = helpFlag := by simpa [eq_comm] using h
    have hparse : parseDest e [prog, helpFlag] init = printUsage init := by simp [parseDest, argAt]
    rw [hparse]
    simpa using helpOnly_printUsage rfl
  | [prog, a, b], _ =>
    refine iff_of_false (not_helpOnly ?_) (by simp)
    simp only [parseDest, List.length_cons, List.length_nil, Nat.reduceAdd, Nat.reduceEqDiff,
      reduceIte]
    split
    · exact asks_testDest _ _
    · exact asks_both _ _ _ _
  | [prog, a, b, c], _ =>
    by_cases hflag : ∀ x ∈ [a, b, c], ¬ IcmpFlag x
    · have hnone : checkIcmpTraceroute 4 [prog, a, b, c] init = (0, init) :=
        checkIcmpTraceroute_none fun j hj hlt => by
          interval_cases j <;> exact hflag _ (by simp [argAt])
      have hparse : parseDest e [prog, a, b, c] init = printUsage init := by simp [parseDest, hnone]
      rw [hparse]
      exact iff_of_true (helpOnly_printUsage rfl) (.inr (.inr ⟨rfl, hflag⟩))
    · refine iff_of_false (not_helpOnly ?_) (by simpa using hflag)
      have hfound : (checkIcmpTraceroute 4 [prog, a, b, c] init).1 ≠ 0 := by
        intro hzero
        have hnone := checkIcmpTraceroute_zero hzero
        apply hflag
        intro x hx
        simp only [List.mem_cons, List.not_mem_nil, or_false] at hx
        obtain rfl | rfl | rfl := hx
        · exact hnone 1 le_rfl (by decide)
        · exact hnone 2 (by decide) (by decide)
        · exact hnone 3 (by decide) (by decide)
      simp only [parseDest, List.length_cons, List.length_nil, Nat.reduceAdd, Nat.reduceEqDiff,
        reduceIte, if_neg hfound]
      exact asks_both _ _ _ _
  | prog :: a :: b :: c :: d :: rest, _ =>
    have hparse : parseDest e (prog :: a :: b :: c :: d :: rest) init = printUsage init := by
      simp [parseDest]
    rw [hparse]
    exact iff_of_true (helpOnly_printUsage rfl) (.inr (.inl (by simp)))

theorem help_iff_alone : HelpOnly (main (silent target) [program, helpFlag]) ↔
    [program, helpFlag].length = 2 ∨ 5 ≤ [program, helpFlag].length ∨
      [program, helpFlag].length = 4 ∧ ∀ a ∈ [program, helpFlag].tail, ¬ IcmpFlag a :=
  help_iff (.head _)

def unresolving : Env := { silent target with getaddrinfo := fun _ => .error (-2) }

/-- Next to one other argument `--help` is looked up as the host. -/
theorem help_looked_up : helpFlag ∈ [program, helpFlag, hostArg].tail ∧
    ¬ HelpOnly (main unresolving [program, helpFlag, hostArg]) ∧
    ∃ v, main unresolving [program, helpFlag, hostArg] = .error (.exit 0 v) ∧
      v.log = [.getaddrinfo helpFlag, .print (.gaiError helpFlag (-2))] := by
  have hmain : ∃ v, main unresolving [program, helpFlag, hostArg] = .error (.exit 0 v) ∧
      v.log = [.getaddrinfo helpFlag, .print (.gaiError helpFlag (-2))] := ⟨_, rfl, rfl⟩
  refine ⟨.head _, ?_, hmain⟩
  rintro ⟨u, hu, hlog⟩
  obtain ⟨v, hv, hlog'⟩ := hmain
  rw [hv] at hu
  cases hu
  simp [hlog'] at hlog

end FtTraceroute.Arguments

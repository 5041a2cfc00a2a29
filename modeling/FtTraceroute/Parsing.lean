import FtTraceroute.Inet

namespace FtTraceroute.Parsing

open Library.Scan Libft Header Inet Numbers

def helpFlag : CString := ⟨ascii "--help", by decide⟩

def icmpFlag : CString := ⟨ascii "-I", by decide⟩

def icmpLongFlag : CString := ⟨ascii "--icmp", by decide⟩

-- A comparison with a flag always returns (`ftStrcmp_ok`), so a test for `.ok 0` hides no fault.

@[simp] theorem ftStrcmp_helpFlag {arg : CString} :
    ftStrcmp arg helpFlag = .ok 0 ↔ arg = helpFlag := ftStrcmp_eq_zero (by decide) arg

@[simp] theorem ftStrcmp_icmpFlag {arg : CString} :
    ftStrcmp arg icmpFlag = .ok 0 ↔ arg = icmpFlag := ftStrcmp_eq_zero (by decide) arg

@[simp] theorem ftStrcmp_icmpLongFlag {arg : CString} :
    ftStrcmp arg icmpLongFlag = .ok 0 ↔ arg = icmpLongFlag := ftStrcmp_eq_zero (by decide) arg

def argAt (argv : List CString) (k : Nat) : CString := argv.getD k ⟨[], by simp⟩

/-- `print_usage` ends in `exit(0)`. -/
def printUsage (w : World) : Except Halt World := .error (.exit 0 (say .usage w))

def testDest (e : Env) (arg : CString) (w : World) : Except Halt World :=
  let w := note (.getaddrinfo arg) w
  match e.getaddrinfo arg with
  | .error ret => .error (.exit 0 (say (.gaiError arg ret) w))
  | .ok h =>
    let totalSize := 60
    .ok { w with data := { w.data with
      inputDest := some arg, destIp := some (inetNtop h.sinAddr), networkIp := some h,
      totalSize := totalSize, payloadSize := totalSize - 28 } }

def isNumLoop (i : Nat) : List UInt8 → Except Fault Int
  | [] => .ok 1
  | c :: cs => if isDigit c then next i >>= fun j => isNumLoop j cs else .ok (-1)

def isNum (arg : CString) : Except Fault Int := isNumLoop 0 arg.bytes

def testPacketlen (plen : CString) (index : Nat) (w : World) : Except Halt World := do
  let len ← (ftAtoi plen).mapError fun _ => .overrun w
  let num ← (isNum plen).mapError fun _ => .overrun w
  if num = -1 ∨ len < 0 then .error (.exit 0 (say (.badPacketlen plen index) w))
  else if len > maxPacketSize then .error (.exit 0 (say (.bigPacketlen len) w))
  else
    let totalSize := if len < 28 then 28 else len.toNat
    .ok { w with data := { w.data with totalSize := totalSize, payloadSize := totalSize - 28 } }

def checkIcmpTraceroute (argc : Nat) (argv : List CString) (w : World) : Nat × World :=
  match (List.range' 1 (argc - 1)).find? fun i =>
      ftStrcmp (argAt argv i) icmpFlag = .ok 0 || ftStrcmp (argAt argv i) icmpLongFlag = .ok 0 with
  | some i => (1, { w with data := { w.data with icmpRoute := true, icmpRouteIndex := i } })
  | none => (0, w)

def parseDest (e : Env) (argv : List CString) (w : World) : Except Halt World :=
  let argc := argv.length
  if argc = 2 then
    if ftStrcmp (argAt argv 1) helpFlag = .ok 0 then printUsage w
    else testDest e (argAt argv 1) w
  else if argc = 3 then
    let (found, w) := checkIcmpTraceroute argc argv w
    if found = 1 then
      let indexDest := if w.data.icmpRouteIndex = 1 then 2 else 1
      testDest e (argAt argv indexDest) w
    else do
      let w ← testDest e (argAt argv 1) w
      testPacketlen (argAt argv 2) 2 w
  else if argc = 4 then
    let (found, w) := checkIcmpTraceroute argc argv w
    if found = 0 then printUsage w
    else do
      let indexDest := if w.data.icmpRouteIndex ≥ 2 then 1 else 2
      let indexPacketlen := if w.data.icmpRouteIndex ≤ 2 then 3 else 2
      let w ← testDest e (argAt argv indexDest) w
      testPacketlen (argAt argv indexPacketlen) indexPacketlen w
  else printUsage w

def udpArgs : List CString := [⟨ascii "ft_traceroute", by decide⟩, ⟨ascii "host", by decide⟩]

def icmpArgs : List CString :=
  [⟨ascii "ft_traceroute", by decide⟩, icmpFlag, ⟨ascii "host", by decide⟩]

variable {xs : List UInt8} {i : Nat}

theorem isNumLoop_eq (hi : i < 2 ^ 31) : isNumLoop i xs =
    within (i + (xs.takeWhile isDigit).length) (if xs.all isDigit then 1 else -1) := by
  induction xs generalizing i with
  | nil => exact (within_of_lt hi).symm
  | cons c cs ih =>
    by_cases hc : isDigit c = true
    · rw [isNumLoop, if_pos hc, add_length_takeWhile hc, List.all_cons, hc, Bool.true_and]
      apply within_bind (by omega)
      intro hnext
      exact ih hnext
    · rw [isNumLoop, if_neg hc, List.takeWhile_cons_of_neg hc, List.all_cons,
        Bool.eq_false_of_not_eq_true hc, Bool.false_and]
      exact (within_of_lt hi).symm

theorem isNum_eq (arg : CString) : isNum arg =
    within (arg.bytes.takeWhile isDigit).length (if arg.bytes.all isDigit then 1 else -1) := by
  rw [isNum, isNumLoop_eq (by decide), Nat.zero_add]

theorem length_digits_le (xs : List UInt8) : (xs.takeWhile isDigit).length ≤ scanned xs := by
  cases xs with
  | nil => decide
  | cons c cs =>
    by_cases hc : isDigit c = true
    · have hdrop : (c :: cs).dropWhile isBlank = c :: cs :=
        List.dropWhile_cons_of_neg (by simp [isDigit_not_blank hc])
      have hsign : signLength (c :: cs) = 0 := signLength_digit hc cs
      dsimp only [scanned]
      rw [hdrop, hsign, List.drop_zero]
      omega
    · rw [List.takeWhile_cons_of_neg hc]
      exact Nat.zero_le _

def sized (total : Nat) (w : World) : World :=
  { w with data := { w.data with totalSize := total, payloadSize := total - 28 } }

/-- Once `ft_atoi` has returned, `isNum` returns too. -/
theorem testPacketlen_eq (plen : CString) (index : Nat) (w : World) :
    testPacketlen plen index w =
      if 2 ^ 31 ≤ scanned plen.bytes then .error (.overrun w)
      else if plen.bytes.all isDigit = false ∨ atoiValue plen < 0 then
        .error (.exit 0 (say (.badPacketlen plen index) w))
      else if atoiValue plen > maxPacketSize then
        .error (.exit 0 (say (.bigPacketlen (atoiValue plen)) w))
      else .ok (sized (if atoiValue plen < 28 then 28 else (atoiValue plen).toNat) w) := by
  obtain hshort | hlong := lt_or_ge (scanned plen.bytes) (2 ^ 31)
  · have hatoi : ftAtoi plen = .ok (atoiValue plen) := by rw [ftAtoi_eq, within_of_lt hshort]
    have hnum := isNum_eq plen
    rw [within_of_lt (lt_of_le_of_lt (length_digits_le plen.bytes) hshort)] at hnum
    rw [if_neg (not_le.mpr hshort), testPacketlen, hatoi, hnum]
    cases plen.bytes.all isDigit <;> simp [Except.mapError, sized]
  · have hatoi : ftAtoi plen = .error .outOfBounds := by rw [ftAtoi_eq, within_of_le hlong]
    rw [if_pos hlong, testPacketlen, hatoi]
    rfl

end FtTraceroute.Parsing

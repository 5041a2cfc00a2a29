import FtTraceroute.Inet
import FtTraceroute.Library.Rounding

namespace FtTraceroute.Text

open Library.Rounding Libft Header Inet Numbers

/-- `%d` of a number that is not negative. -/
def decimal (n : Nat) : List UInt8 := ascii (toString n)

/-- `%.3lf`: `printf` rounds the exact value. -/
def fixed3 (q : ℚ) : List UInt8 :=
  let n := (roundEven (|q| * 1000)).toNat
  (if q < 0 then ascii "-" else []) ++ decimal (n / 1000) ++ ascii "." ++
    [digit (n / 100), digit (n / 10), digit n]

/-- `%s`; glibc writes a null pointer as `(null)`. -/
def string (s : Option CString) : List UInt8 := (s.map CString.bytes).getD (ascii "(null)")

def usageText : List UInt8 :=
  ascii "Usage:\n" ++
  ascii "\ttraceroute <destination> [optional_packet_size]\n\n" ++
  ascii "Options:\n" ++
  ascii "\t--help\t\t\tRead this help and exit\n\n" ++
  ascii "\t-I  --icmp \t\tRead this help and exit\n\n" ++
  ascii "Arguments:\n" ++
  ascii "+\thost\t\t\tThe host to traceroute to\n" ++
  ascii "\tpacketlen\t\tThe full packet length (default is the length of an IP\n" ++
  ascii "\t\t\t\theader plus 40). Can be ignored or increased to a minimal\n" ++
  ascii "\t\t\t\tallowed value\n"

/-- What `o` writes on the standard output. The errors go to the standard error. -/
def stdout : Out → List UInt8
  | .usage => usageText
  | .head inputDest destIp maxHops totalSize =>
    ascii "traceroute to " ++ string inputDest ++ ascii " (" ++ string destIp ++ ascii "): " ++
      decimal maxHops ++ ascii " hops max, " ++ decimal totalSize ++ ascii " bytes packets\n"
  | .ttl n => decimal n ++ ascii " "
  | .star => ascii "* "
  | .again time => fixed3 time ++ ascii " ms "
  | .route target ip time =>
    target.bytes ++ ascii " (" ++ ip.bytes ++ ascii ") " ++ fixed3 time ++ ascii " ms "
  | .newline => ascii "\n"
  | .gaiError _ _ | .badPacketlen _ _ | .bigPacketlen _ | .socketError | .notSent => []

def printed (l : List Event) : List Out :=
  l.filterMap fun ev => match ev with
    | .print o => some o
    | _ => none

example : fixed3 (1234567 / 1000) = ascii "1234.567" := by decide +kernel

example : fixed3 (-1 / 2000) = ascii "-0.000" := by decide +kernel

theorem isDigit_digit (k : Nat) : isDigit (digit k) = true := by
  rw [isDigit_iff, digit_toNat]
  omega

theorem isDigit_decimal {n : Nat} {c : UInt8} (h : c ∈ decimal n) : isDigit c = true := by
  obtain ⟨d, hd, rfl⟩ := List.mem_map.mp h
  rw [Nat.toString_eq_ofList_toDigits, String.toList_ofList] at hd
  have hdigit := Nat.isDigit_of_mem_toDigits (by decide) (by decide) hd
  simp only [Char.isDigit_iff_toNat, Char.reduceToNat] at hdigit
  rw [isDigit_iff, UInt8.toNat_ofNat']
  omega

theorem mem_fixed3 {q : ℚ} {c : UInt8} (h : c ∈ fixed3 q) : isDigit c = true ∨ c = 45 ∨ c = 46 := by
  simp only [fixed3, List.mem_append, List.mem_cons, List.not_mem_nil, or_false] at h
  obtain ((h | h) | h) | h | h | h := h
  · split at h
    · exact .inr (.inl (List.mem_singleton.mp h))
    · cases h
  · exact .inl (isDigit_decimal h)
  · exact .inr (.inr (List.mem_singleton.mp h))
  all_goals
    rw [h]
    exact .inl (isDigit_digit _)

theorem point_mem_fixed3 (q : ℚ) : 46 ∈ fixed3 q := by
  simp [fixed3, show ascii "." = [46] by decide]

theorem printed_append (l l' : List Event) : printed (l ++ l') = printed l ++ printed l' :=
  List.filterMap_append

end FtTraceroute.Text

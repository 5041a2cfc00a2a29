import FtTraceroute.Header
import FtTraceroute.Numbers
import FtTraceroute.Library.Split

namespace FtTraceroute.Inet

open Library.Split Libft Header Numbers

def digit (k : Nat) : UInt8 := UInt8.ofNat (48 + k % 10)

theorem digit_toNat (k : Nat) : (digit k).toNat = 48 + k % 10 := by
  simp only [digit, UInt8.toNat_ofNat']
  omega

def octet (n : UInt8) : List UInt8 :=
  if n.toNat < 10 then [digit n.toNat]
  else if n.toNat < 100 then [digit (n.toNat / 10), digit n.toNat]
  else [digit (n.toNat / 100), digit (n.toNat / 10), digit n.toNat]

theorem value_octet (n : UInt8) : value (octet n) = n.toNat := by
  have hn := n.toNat_lt
  unfold octet
  split
  · simp only [value, List.foldl_cons, List.foldl_nil, digit_toNat]
    omega
  · split
    · simp only [value, List.foldl_cons, List.foldl_nil, digit_toNat]
      omega
    · simp only [value, List.foldl_cons, List.foldl_nil, digit_toNat]
      omega

theorem octet_injective : Function.Injective octet := by
  intro m n h
  have hv := congrArg value h
  rw [value_octet, value_octet] at hv
  exact UInt8.toNat_inj.mp hv

theorem notMem_octet {c : UInt8} (hc : c.toNat < 48) (n : UInt8) : c ∉ octet n := by
  have hne : ∀ k, c ≠ digit k := by
    intro k h
    have hd := digit_toNat k
    rw [← h] at hd
    omega
  unfold octet
  split
  · simp [hne]
  · split <;> simp [hne]

/-- `inet_ntop(AF_INET, ..)`: dotted decimal. -/
def inetNtop (addr : InAddr) : CString where
  bytes := octet addr.a ++ 46 :: (octet addr.b ++ 46 :: (octet addr.c ++ 46 :: octet addr.d))
  nulFree := by simp [notMem_octet]

theorem split_dot {m n : UInt8} {xs ys : List UInt8}
    (h : octet m ++ 46 :: xs = octet n ++ 46 :: ys) : m = n ∧ xs = ys := by
  have hm : (46 : UInt8) ∉ octet m := notMem_octet (by decide) m
  have hn : (46 : UInt8) ∉ octet n := notMem_octet (by decide) n
  obtain ⟨hoctet, hrest⟩ := line_unique hm hn h
  exact ⟨octet_injective hoctet, hrest⟩

theorem inetNtop_injective : Function.Injective inetNtop := by
  intro x y h
  have hb := congrArg CString.bytes h
  simp only [inetNtop] at hb
  obtain ⟨ha, hb⟩ := split_dot hb
  obtain ⟨hb, hc⟩ := split_dot hb
  obtain ⟨hc, hd⟩ := split_dot hc
  cases x
  cases y
  simp_all [octet_injective.eq_iff]

@[simp] theorem inetNtop_inj {x y : InAddr} : inetNtop x = inetNtop y ↔ x = y :=
  inetNtop_injective.eq_iff

theorem length_octet_le (n : UInt8) : (octet n).length ≤ 3 := by
  unfold octet
  split
  · simp
  · split <;> simp

theorem length_inetNtop_le (x : InAddr) : (inetNtop x).bytes.length ≤ 15 := by
  have ha := length_octet_le x.a
  have hb := length_octet_le x.b
  have hc := length_octet_le x.c
  have hd := length_octet_le x.d
  simp only [inetNtop, List.length_append, List.length_cons]
  omega

@[simp] theorem ftStrcmp_inetNtop (s : CString) (x : InAddr) :
    ftStrcmp s (inetNtop x) = .ok (strcmpBytes s.bytes (inetNtop x).bytes) :=
  ftStrcmp_ok (lt_of_le_of_lt (length_inetNtop_le x) (by decide)) s

example : (inetNtop ⟨192, 168, 0, 1⟩).bytes = ascii "192.168.0.1" := by decide

end FtTraceroute.Inet

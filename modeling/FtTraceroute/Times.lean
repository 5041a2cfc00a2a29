import FtTraceroute.Network

namespace FtTraceroute.Times

open Library.Rounding Libft Header Inet Numbers Parsing Recieve Main Script Accept Run
open Text Decode Transcript Network

/-- Reads a time in milliseconds as microseconds: all its digits, and a sign in front. -/
def micros (text : List UInt8) : Int :=
  (if text.head? = some 45 then -1 else 1) * value (text.filter isDigit)

def elapsed (time base : Timeval) : Int :=
  (time.tvUsec - base.tvUsec) + (time.tvSec - base.tvSec) * 1000000

variable {s : Session} {e : Env} {host : CString} {argv : List CString} {t : Nat} {i : Probe}
  {n : Int} {q : ℚ} {time base : Timeval} {w : World}

/-- Of the two roundings only that of the division loses something. -/
theorem convertToMilliseconds_near (h : |elapsed time base| < 2 ^ 52) :
    |convertToMilliseconds time base - elapsed time base / 1000| ≤
      |(elapsed time base : ℚ) / 1000| * 2 ^ (-53 : ℤ) := by
  have hexact : double (elapsed time base) = elapsed time base :=
    roundDigits_int (h.trans (by norm_num))
  change |double (double (elapsed time base) / 1000) - _| ≤ _
  rw [hexact]
  exact roundDigits_relative 53 _

theorem neg_of_near (h : |q - n / 1000| ≤ |(n : ℚ) / 1000| * 2 ^ (-53 : ℤ)) : q < 0 ↔ n < 0 := by
  have hhalf : |q - n / 1000| ≤ |(n : ℚ) / 1000| / 2 := by
    refine h.trans ?_
    rw [div_eq_mul_inv _ (2 : ℚ)]
    apply mul_le_mul_of_nonneg_left _ (abs_nonneg _)
    norm_num
  obtain ⟨hlow, hhigh⟩ := abs_le.mp hhalf
  constructor
  · intro hq
    by_contra hn
    have hpos : (0 : ℚ) ≤ n := by exact_mod_cast not_lt.mp hn
    rw [abs_of_nonneg (by positivity)] at hlow
    linarith
  · intro hn
    have hneg : (n : ℚ) < 0 := by exact_mod_cast hn
    rw [abs_of_neg (by linarith)] at hhigh
    linarith

/-- The error is too small for a third decimal to change. -/
theorem thousandths_near (hn : |n| < 2 ^ 52)
    (h : |q - n / 1000| ≤ |(n : ℚ) / 1000| * 2 ^ (-53 : ℤ)) :
    roundEven (|q| * 1000) = (n.natAbs : Int) := by
  have hbound : |(n : ℚ)| < 2 ^ 52 := by exact_mod_cast hn
  have habs : ((n.natAbs : Int) : ℚ) = |(n : ℚ)| := by
    rw [← Int.abs_eq_natAbs, Int.cast_abs]
  have hthousand : |(n : ℚ) / 1000| = |(n : ℚ)| / 1000 := by
    rw [abs_div]
    norm_num
  have hscale : |q| * 1000 - |(n : ℚ)| = (|q| - |(n : ℚ)| / 1000) * 1000 := by ring
  have hsub := (abs_abs_sub_abs_le q (n / 1000)).trans h
  rw [hthousand] at hsub
  apply roundEven_of_near
  rw [habs]
  calc |(|q| * 1000 - |(n : ℚ)|)| = |(|q| - |(n : ℚ)| / 1000)| * 1000 := by
        rw [hscale, abs_mul, abs_of_pos (show (0 : ℚ) < 1000 by norm_num)]
    _ ≤ |(n : ℚ)| / 1000 * 2 ^ (-53 : ℤ) * 1000 :=
        mul_le_mul_of_nonneg_right hsub (by norm_num)
    _ = |(n : ℚ)| * 2 ^ (-53 : ℤ) := by ring
    _ < 2 ^ 52 * 2 ^ (-53 : ℤ) := mul_lt_mul_of_pos_right hbound (by norm_num)
    _ = 1 / 2 := by norm_num

theorem fixed3_thousandths (hn : |n| < 2 ^ 52)
    (h : |q - n / 1000| ≤ |(n : ℚ) / 1000| * 2 ^ (-53 : ℤ)) :
    fixed3 q = (if n < 0 then [45] else []) ++ decimal (n.natAbs / 1000) ++ 46 ::
      [digit (n.natAbs / 100), digit (n.natAbs / 10), digit n.natAbs] := by
  have hminus : ascii "-" = [45] := by decide
  have hpoint : ascii "." = [46] := by decide
  rw [fixed3, thousandths_near hn h, Int.toNat_natCast, hminus, hpoint]
  simp only [neg_of_near h, List.append_assoc, List.singleton_append]

theorem value_thousandths (m : Nat) :
    value (decimal (m / 1000) ++ [digit (m / 100), digit (m / 10), digit m]) = m := by
  have hsplit : decimal (m / 1000) ++ [digit (m / 100), digit (m / 10), digit m] =
      decimal (m / 1000) ++ [digit (m / 100)] ++ [digit (m / 10)] ++ [digit m] := by simp
  rw [hsplit, value_concat, value_concat, value_concat, value_decimal, digit_toNat, digit_toNat,
    digit_toNat]
  omega

theorem micros_fixed3 (hn : |n| < 2 ^ 52)
    (h : |q - n / 1000| ≤ |(n : ℚ) / 1000| * 2 ^ (-53 : ℤ)) : micros (fixed3 q) = n := by
  have hdecimal : (decimal (n.natAbs / 1000)).filter isDigit = decimal (n.natAbs / 1000) :=
    List.filter_eq_self.mpr fun _ hc => isDigit_decimal hc
  have hpoint : isDigit 46 = false := by decide
  have hvalue := value_thousandths n.natAbs
  by_cases hneg : n < 0
  · have hminus : isDigit 45 = false := by decide
    rw [micros, fixed3_thousandths hn h, if_pos hneg]
    simp [hdecimal, hpoint, hminus, isDigit_digit, hvalue, abs_of_neg hneg]
  · have hhead : (decimal (n.natAbs / 1000) ++ 46 ::
        [digit (n.natAbs / 100), digit (n.natAbs / 10), digit n.natAbs]).head? ≠ some 45 := by
      intro hhead
      rw [List.head?_append] at hhead
      cases hd : (decimal (n.natAbs / 1000)).head? with
      | none => simp [hd] at hhead
      | some c =>
        have hc := isDigit_decimal (List.mem_of_mem_head? hd)
        rw [hd, Option.some_or, Option.some_inj] at hhead
        rw [hhead] at hc
        exact absurd hc (by decide)
    rw [micros, fixed3_thousandths hn h, if_neg hneg, List.nil_append, if_neg hhead]
    simp [hdecimal, hpoint, isDigit_digit, hvalue]
    omega

/-- The clocks of a probe are less than 2^52 microseconds apart, some 142 years. -/
def Near (e : Env) : Prop :=
  ∀ t i d, e.recvfrom t i = some d → |elapsed (e.recievedAt t i) (e.sentAt t i)| < 2 ^ 52

theorem outcome_micros (hnear : Near e) (t : Nat) (i : Probe) :
    (outcome e t i).map (fun reading => (reading.1, micros reading.2)) =
      (e.recvfrom t i).map fun d => (d.saddr, elapsed (e.recievedAt t i) (e.sentAt t i)) := by
  rw [outcome, Option.map_map]
  cases hr : e.recvfrom t i with
  | none => rfl
  | some d =>
    have hbound := hnear t i d hr
    simp only [Option.map_some, Function.comp_apply,
      micros_fixed3 hbound (convertToMilliseconds_near hbound)]

/-- The standard output gives the round-trip time of every answer to the microsecond, a
negative one included, which a clock that is set back gives. The two roundings of the
program do not show. -/
theorem delays_exact (hmain : main e argv = .ok w) (hnames : Named e) (hnear : Near e)
    (hhost : ∀ host, .getaddrinfo host ∈ w.log → 10 ∉ host.bytes) :
    ∃ trace, readTrace (output w) = some trace ∧ ∀ hop ∈ trace.hops,
      hop.2.map (Option.map fun reading => (reading.1, micros reading.2)) =
        probes.map fun i => (e.recvfrom hop.1 i).map fun d =>
          (d.saddr, elapsed (e.recievedAt hop.1 i) (e.sentAt hop.1 i)) := by
  obtain ⟨w₀, s, host, T, hp, hs, hend⟩ := ended_of_main hmain
  have hfeed : 10 ∉ host.bytes := hhost host (by simp [hend.log, prologue])
  refine ⟨_, readTrace_output hnames hfeed hend, ?_⟩
  intro hop hmem
  obtain ⟨k, -, rfl⟩ := List.mem_map.mp hmem
  rw [List.map_map]
  apply List.map_congr_left
  intro i _
  exact outcome_micros hnear (k + 1) i

def clocked : Env :=
  { gateway with
    sentAt := fun _ _ => ⟨1000000000, 999999⟩
    recievedAt := fun _ _ => ⟨1000000002, 234566⟩ }

theorem delays_exact_clocked : ∃ w trace, main clocked udpArgs = .ok w ∧
    readTrace (output w) = some trace ∧ ∀ hop ∈ trace.hops,
      hop.2.map (Option.map fun reading => (reading.1, micros reading.2)) =
        probes.map fun i => (clocked.recvfrom hop.1 i).map fun d =>
          (d.saddr, elapsed (clocked.recievedAt hop.1 i) (clocked.sentAt hop.1 i)) := by
  have hp : parseDest clocked udpArgs init = .ok _ := rfl
  obtain ⟨s, host, hs⟩ := parseDest_ok hp
  obtain ⟨T, w, hmain, hend⟩ := main_ok hp hs (by decide)
  have hnear : Near clocked := by
    intro t i d _
    change |elapsed ⟨1000000002, 234566⟩ ⟨1000000000, 999999⟩| < 2 ^ 52
    decide
  have hhost : ∀ arg, .getaddrinfo arg ∈ w.log → 10 ∉ arg.bytes := by
    intro arg harg
    obtain rfl := Option.some.inj hs.inputDest
    rw [(getaddrinfo_mem_log hend).mp harg]
    decide
  obtain ⟨trace, hread, hexact⟩ := delays_exact hmain named_gateway hnear hhost
  exact ⟨w, trace, hmain, hread, hexact⟩

end FtTraceroute.Times

import FtTraceroute.Events
import FtTraceroute.Library.Split
import FtTraceroute.Replies
import FtTraceroute.Text

namespace FtTraceroute.Decode

open Library.Split
open Libft Header Inet Numbers Packet Parsing Recieve Main Script Probes Columns Accept Run
open Events Replies Text

/-- What a column says of its probe: nothing came, or a source and a time. -/
abbrev Reading := Option (InAddr × List UInt8)

def address (word : List UInt8) : Option InAddr :=
  if word.head? = some 40 ∧ word.getLast? = some 41 then
    match word.tail.dropLast.splitOn 46 with
    | [a, b, c, d] => some ⟨.ofNat (value a), .ofNat (value b), .ofNat (value c),
        .ofNat (value d)⟩
    | _ => none
  else none

/-- Reads one column: `*`, a time of the source `prev`, or a name, a source and a time. -/
def readColumn (prev : Option InAddr) : List (List UInt8) → Option (Reading × List (List UInt8))
  | [] => none
  | first :: words =>
    if first = ascii "*" then some (none, words)
    else match words with
      | [] => none
      | second :: words =>
        if second = ascii "ms" then prev.map fun a => (some (a, first), words)
        else match words with
          | time :: unit :: words =>
            if unit = ascii "ms" then (address second).map fun a => (some (a, time), words)
            else none
          | _ => none

def readColumns : Nat → Option InAddr → List (List UInt8) → Option (List Reading)
  | 0, _, words => if words = [ascii "\n"] then some [] else none
  | n + 1, prev, words => do
    let (reading, words) ← readColumn prev words
    let readings ← readColumns n (reading.map Prod.fst) words
    pure (reading :: readings)

def decode (line : List UInt8) : Option (List Reading) :=
  readColumns probes.length none (line.splitOn 32)

def IsName (name : CString) : Prop :=
  name.bytes ≠ [] ∧ ∀ c ∈ name.bytes, isLetter c = true ∨ isDigit c = true ∨ c ∈ [45, 95, 46]

/-- Reverse DNS gives such names only. -/
def Named (e : Env) : Prop := ∀ t i addr name, e.getnameinfo t i addr = some name → IsName name

def outcome (e : Env) (t : Nat) (i : Probe) : Reading :=
  (e.recvfrom t i).map fun d =>
    (d.saddr, fixed3 (convertToMilliseconds (e.recievedAt t i) (e.sentAt t i)))

def words : Out → List (List UInt8)
  | .star => [ascii "*"]
  | .again time => [fixed3 time, ascii "ms"]
  | .route target ip time => [target.bytes, 40 :: (ip.bytes ++ [41]), fixed3 time, ascii "ms"]
  | _ => []

variable {e : Env} {argv : List CString} {t : Nat} {i : Probe} {past rest : List Probe} {c : UInt8}
  {w : World}

theorem mem_octet {n : UInt8} (h : c ∈ octet n) : isDigit c = true := by
  unfold octet at h
  split at h
  · obtain rfl := List.mem_singleton.mp h
    exact isDigit_digit _
  · split at h
    all_goals
      simp only [List.mem_cons, List.not_mem_nil, or_false] at h
      obtain rfl | rfl | rfl := h <;> exact isDigit_digit _

theorem isName_inetNtop (addr : InAddr) : IsName (inetNtop addr) := by
  refine ⟨by simp [inetNtop], fun c hc => ?_⟩
  simp only [inetNtop, List.mem_append, List.mem_cons] at hc
  obtain hc | rfl | hc | rfl | hc | rfl | hc := hc
  all_goals first
    | exact .inr (.inl (mem_octet hc))
    | exact .inr (.inr (by decide))

theorem notMem_name {name : CString} (h : IsName name) :
    32 ∉ name.bytes ∧ name.bytes ≠ ascii "*" := by
  have hchar : ∀ c : UInt8, c = 32 ∨ c = 42 →
      ¬ (isLetter c = true ∨ isDigit c = true ∨ c ∈ [45, 95, 46]) := by
    rintro c (rfl | rfl) <;> decide
  refine ⟨fun hmem => hchar 32 (.inl rfl) (h.2 32 hmem), fun heq => ?_⟩
  exact hchar 42 (.inr rfl) (h.2 42 (heq ▸ by decide))

theorem notMem_fixed3 (q : ℚ) : 32 ∉ fixed3 q ∧ fixed3 q ≠ ascii "*" := by
  refine ⟨fun h => absurd (mem_fixed3 h) (by decide), fun h => ?_⟩
  exact absurd (h ▸ point_mem_fixed3 q) (by decide)

theorem notMem_inetNtop (addr : InAddr) : 32 ∉ 40 :: ((inetNtop addr).bytes ++ [41]) := by
  simp [(notMem_name (isName_inetNtop addr)).1]

theorem address_inetNtop (addr : InAddr) :
    address (40 :: ((inetNtop addr).bytes ++ [41])) = some addr := by
  have hdot : ∀ n, (46 : UInt8) ∉ octet n := notMem_octet (by decide)
  have hsplit : (inetNtop addr).bytes.splitOn 46 =
      [octet addr.a, octet addr.b, octet addr.c, octet addr.d] := by
    rw [inetNtop, List.splitOn_append_cons_self_of_not_mem (hdot _),
      List.splitOn_append_cons_self_of_not_mem (hdot _),
      List.splitOn_append_cons_self_of_not_mem (hdot _), List.splitOn_eq_singleton (hdot _)]
  have hlast : (40 :: ((inetNtop addr).bytes ++ [41])).getLast? = some 41 :=
    List.getLast?_concat (l := 40 :: (inetNtop addr).bytes)
  rw [address, if_pos ⟨rfl, hlast⟩, List.tail_cons, List.dropLast_concat, hsplit]
  simp only [value_octet, UInt8.ofNat_toNat]

theorem stdout_columnOut (e : Env) (t : Nat) (i : Probe) :
    stdout (columnOut e t i) = (words (columnOut e t i)).flatMap (· ++ [32]) := by
  have hstar : ascii "* " = ascii "*" ++ [32] := by decide
  have hms : ascii " ms " = 32 :: ascii "ms" ++ [32] := by decide
  have hopen : ascii " (" = [32, 40] := by decide
  have hclose : ascii ") " = [41, 32] := by decide
  cases hr : e.recvfrom t i with
  | none => simp [columnOut, hr, stdout, words, hstar]
  | some d =>
    cases hrep : repeats e t i with
    | true => simp [columnOut, hr, hrep, stdout, words, hms]
    | false => simp [columnOut, hr, hrep, stdout, words, hms, hopen, hclose]

theorem isName_target (hnames : Named e) (t : Nat) (i : Probe) (addr : InAddr) :
    IsName ((e.getnameinfo t i addr).getD (inetNtop addr)) := by
  cases hn : e.getnameinfo t i addr with
  | none => exact isName_inetNtop addr
  | some name => exact hnames t i addr name hn

theorem notMem_words (hnames : Named e) (t : Nat) (i : Probe) :
    ∀ word ∈ words (columnOut e t i), 32 ∉ word := by
  have hstar : (32 : UInt8) ∉ ascii "*" := by decide
  have hms : (32 : UInt8) ∉ ascii "ms" := by decide
  have htime := fun q => (notMem_fixed3 q).1
  unfold columnOut
  split
  · simpa [words] using hstar
  · next d hr =>
    have hname := (notMem_name (isName_target hnames t i d.saddr)).1
    have hip := notMem_inetNtop d.saddr
    cases repeats e t i with
    | true => simp [words, htime, hms]
    | false => simpa [words, htime, hms, hname] using hip

theorem source_of_repeats (hrep : repeats e t i = true) {d : Datagram}
    (hr : e.recvfrom t i = some d) :
    i ≠ 0 ∧ ((e.recvfrom t (i - 1)).map fun d => d.saddr) = some d.saddr := by
  simp only [repeats, hr, Option.any_some, Bool.and_eq_true, decide_eq_true_eq,
    Option.any_eq_true] at hrep
  obtain ⟨hi, d', hr', hsame⟩ := hrep
  exact ⟨hi, by rw [hr', Option.map_some, eq_of_beq hsame]⟩

theorem readColumn_words (hnames : Named e) {prev : Option InAddr}
    (hprev : i ≠ 0 → prev = (e.recvfrom t (i - 1)).map fun d => d.saddr)
    (rest : List (List UInt8)) :
    readColumn prev (words (columnOut e t i) ++ rest) = some (outcome e t i, rest) := by
  cases hr : e.recvfrom t i with
  | none => simp [columnOut, hr, words, readColumn, outcome]
  | some d =>
    have htime := (notMem_fixed3 (convertToMilliseconds (e.recievedAt t i) (e.sentAt t i))).2
    cases hrep : repeats e t i with
    | true =>
      -- the source is that of the previous column, which the reader kept
      obtain ⟨hi, hsame⟩ := source_of_repeats hrep hr
      have hsource : prev = some d.saddr := (hprev hi).trans hsame
      simp [columnOut, hr, hrep, words, readColumn, outcome, htime, hsource]
    | false =>
      have hname := (notMem_name (isName_target hnames t i d.saddr)).2
      have haddr : 40 :: ((inetNtop d.saddr).bytes ++ [41]) ≠ ascii "ms" := by
        intro h
        have hhead : some 40 = (ascii "ms").head? := congrArg List.head? h
        revert hhead
        decide
      simp [columnOut, hr, hrep, words, readColumn, outcome, hname, haddr, address_inetNtop]

theorem getLast?_before (hi : i ≠ 0) : (before i).getLast? = some (i - 1) := by
  revert i
  decide

def lastSource (e : Env) (t : Nat) (past : List Probe) : Option InAddr :=
  past.getLast?.bind fun i => (e.recvfrom t i).map fun d => d.saddr

theorem readColumns_words (hnames : Named e) (h : past ++ rest = probes) :
    readColumns rest.length (lastSource e t past)
        (rest.flatMap (fun i => words (columnOut e t i)) ++ [ascii "\n"]) =
      some (rest.map (outcome e t)) := by
  induction rest generalizing past with
  | nil => rfl
  | cons i rest ih =>
    have hprev : i ≠ 0 → lastSource e t past = (e.recvfrom t (i - 1)).map fun d => d.saddr := by
      intro hi
      rw [lastSource, before_of_split h, getLast?_before hi, Option.bind_some]
    have hnext : (outcome e t i).map Prod.fst = lastSource e t (past ++ [i]) := by
      simp [outcome, lastSource, Function.comp_def]
    have hsplit : (past ++ [i]) ++ rest = probes := by
      rw [← h, List.append_assoc, List.singleton_append]
    have hrest := ih hsplit
    rw [List.flatMap_cons, List.append_assoc, List.length_cons, readColumns,
      readColumn_words hnames hprev]
    simp [hnext, hrest]

def line (out : Probe → Out) : List Out := probes.map out ++ [.newline]

theorem decode_line (hnames : Named e) (t : Nat) :
    decode ((line (columnOut e t)).flatMap stdout) = some (probes.map (outcome e t)) := by
  have htext : (line (columnOut e t)).flatMap stdout =
      (probes.flatMap fun i => words (columnOut e t i)).flatMap (· ++ [32]) ++ ascii "\n" := by
    simp only [line, List.flatMap_append, List.flatMap_map, stdout_columnOut, List.flatMap_assoc]
    rfl
  have hwords : ∀ word ∈ probes.flatMap fun i => words (columnOut e t i), 32 ∉ word := by
    simp only [List.mem_flatMap]
    rintro word ⟨i, -, hmem⟩
    exact notMem_words hnames t i word hmem
  rw [decode, htext, splitOn_words hwords, List.splitOn_eq_singleton (by decide)]
  exact readColumns_words hnames (List.nil_append probes)

theorem printed_columnEvents (e : Env) (t : Nat) :
    printed (probes.flatMap (columnEvents e t)) = line (columnOut e t) := by
  have hhandled : ∀ p, printed (handled e p) = [] := by
    intro p
    cases h : e.handler p <;> simp [handled, h, printed]
  simp only [probes, List.flatMap_cons, List.flatMap_nil, columnEvents, printed_append,
    List.append_nil, hhandled]
  rfl

theorem answered_before {time : ℚ} (h : columnOut e t i = .again time) :
    i ≠ 0 ∧ columnOut e t (i - 1) ≠ .star := by
  cases hr : e.recvfrom t i with
  | none => simp [columnOut, hr] at h
  | some d =>
    cases hrep : repeats e t i with
    | false => simp [columnOut, hr, hrep] at h
    | true =>
      obtain ⟨hi, hsame⟩ := source_of_repeats hrep hr
      refine ⟨hi, fun hstar => ?_⟩
      cases hr' : e.recvfrom t (i - 1) with
      | none => simp [hr'] at hsame
      | some d' =>
        rw [columnOut, hr'] at hstar
        dsimp only at hstar
        split at hstar <;> cases hstar

/-- The three columns of a hop can be read back: who was lost, and the source and the
time of who was not. -/
theorem columns_decoded (hnames : Named e) (h : AtColumn e argv 0 w) :
    ∃ w' out, printProbesOutput e w = .ok w' ∧ printed w'.log = printed w.log ++ line out ∧
      decode ((line out).flatMap stdout) = some (probes.map (outcome e w.data.ttl)) ∧
      ∀ i time, out i = .again time → i ≠ 0 ∧ out (i - 1) ≠ .star := by
  have ⟨_, _, _, _, hhead, _⟩ := h
  obtain ⟨w₀, s, host, hp, hs⟩ := parsed_of_atHead hhead
  obtain ⟨n, past, rest, a, -, hsplit, hprinting⟩ := atColumn_ok hp hs h
  obtain rfl : past = [] := before_of_split hsplit
  obtain ⟨w', hrun, hdone⟩ := columns_ok List.prefix_rfl hprinting
  refine ⟨w', columnOut e (n + 1), hrun, ?_, ?_, fun i time => answered_before⟩
  · rw [hdone.log, hprinting.log, List.flatMap_nil, List.append_nil, printed_append,
      printed_columnEvents]
  · rw [hprinting.ttl]
    exact decode_line hnames (n + 1)

def gatewayName : CString := ⟨ascii "gw-1.example", by decide⟩

/-- A router that answers the first probe and has a name. -/
def gateway : Env := { firstRouter with getnameinfo := fun _ _ _ => some gatewayName }

theorem columns_decoded_gateway :
    ∃ w w' out, AtColumn gateway udpArgs 0 w ∧ printProbesOutput gateway w = .ok w' ∧
      printed w'.log = printed w.log ++ line out ∧
      decode ((line out).flatMap stdout) = some (probes.map (outcome gateway w.data.ttl)) ∧
      ∀ i time, out i = .again time → i ≠ 0 ∧ out (i - 1) ≠ .star := by
  have hnames : Named gateway := by
    rintro t i addr name h
    cases h
    exact ⟨by decide, by decide +kernel⟩
  have hp : parseDest gateway udpArgs init = .ok _ := rfl
  obtain ⟨s, host, hs⟩ := parseDest_ok hp
  have halive : aliveAfter s gateway 0 = true := rfl
  obtain ⟨w, hw, -⟩ := exists_atColumn hp hs (by decide) (performed_succ (by decide) halive)
    (split_probes 0)
  obtain ⟨w', out, h⟩ := columns_decoded hnames hw
  exact ⟨w, w', out, hw, h⟩

end FtTraceroute.Decode

import FtTraceroute.Decode
import FtTraceroute.Stop

namespace FtTraceroute.Transcript

open Library.Split
open Libft Header Inet Numbers Packet Parsing Main Script Accept Run Events Stop Text Decode

structure Head where
  host : List UInt8
  dest : InAddr
  limit : Nat
  total : Nat
deriving DecidableEq

/-- What a whole trace says: its head, and for each hop its number and its columns. -/
structure Trace where
  head : Head
  hops : List (Nat × List Reading)
deriving DecidableEq

def output (w : World) : List UInt8 := (printed w.log).flatMap stdout

/-- Reads the head line. A host may hold any word, so it is what the two words in front
of it and the seven behind it leave. -/
def readHead (text : List UInt8) : Option Head :=
  match ((text.splitOn 32).drop 2).reverse with
  | _ :: _ :: total :: _ :: _ :: limit :: dest :: host =>
    (address dest.dropLast).map fun dest =>
      ⟨[32].intercalate host.reverse, dest, value limit, value total⟩
  | _ => none

def readHop (text : List UInt8) : Option (Nat × List Reading) :=
  match text.splitOn 32 with
  | [] => none
  | number :: words =>
    (readColumns probes.length none (words.dropLast ++ [ascii "\n"])).map fun readings =>
      (value number, readings)

def readTrace (text : List UInt8) : Option Trace :=
  match lines 10 text with
  | [] => none
  | head :: hops => do
    let head ← readHead head
    let hops ← hops.mapM readHop
    pure ⟨head, hops⟩

def headText (s : Session) (host : CString) : List UInt8 :=
  ascii "traceroute to " ++ host.bytes ++ ascii " (" ++ (inetNtop s.dest.sinAddr).bytes ++
    ascii "): " ++ decimal maxHops ++ ascii " hops max, " ++ decimal (s.size + 28) ++
    ascii " bytes packets"

def hopText (e : Env) (t : Nat) : List UInt8 :=
  (decimal t :: probes.flatMap fun i => words (columnOut e t i)).flatMap (· ++ [32])

variable {s : Session} {e : Env} {host : CString} {argv : List CString} {t n T : Nat} {i : Probe}
  {ip : SockaddrIn} {c : UInt8} {w w₀ : World}

theorem value_decimal (n : Nat) : value (decimal n) = n := by
  have hbyte : ∀ c ∈ Nat.toDigits 10 n, (UInt8.ofNat c.toNat).toNat = c.toNat := by
    intro c hc
    have hdigit := Nat.isDigit_of_mem_toDigits (by decide) (by decide) hc
    simp only [Char.isDigit_iff_toNat, Char.reduceToNat] at hdigit
    rw [UInt8.toNat_ofNat']
    omega
  have hvalue := Nat.ofDigitChars_toDigits (b := 10) (n := n) (by decide) (by decide)
  rw [Nat.ofDigitChars_eq_foldl] at hvalue
  rw [decimal, ascii, Nat.toString_eq_ofList_toDigits, String.toList_ofList, value, List.foldl_map]
  conv_rhs => rw [← hvalue]
  apply List.foldl_ext
  intro m c hc
  rw [hbyte c hc]
  rfl

theorem notMem_decimal (hc : isDigit c = false) (n : Nat) : c ∉ decimal n := fun h => by
  rw [isDigit_decimal h] at hc
  cases hc

def headWords (s : Session) : List (List UInt8) :=
  [40 :: ((inetNtop s.dest.sinAddr).bytes ++ [41]) ++ [58], decimal maxHops, ascii "hops",
    ascii "max,", decimal (s.size + 28), ascii "bytes"]

theorem headText_eq (s : Session) (host : CString) : headText s host =
    ascii "traceroute" ++ 32 :: (ascii "to" ++ 32 ::
      (host.bytes ++ 32 :: ((headWords s).flatMap (· ++ [32]) ++ ascii "packets"))) := by
  have hstart : ascii "traceroute to " =
      ascii "traceroute" ++ 32 :: (ascii "to" ++ [32]) := by decide
  have hopen : ascii " (" = [32, 40] := by decide
  have hclose : ascii "): " = [41, 58, 32] := by decide
  have hhops : ascii " hops max, " =
      32 :: (ascii "hops" ++ 32 :: (ascii "max," ++ [32])) := by decide
  have hend : ascii " bytes packets" = 32 :: (ascii "bytes" ++ 32 :: ascii "packets") := by decide
  simp [headText, headWords, hstart, hopen, hclose, hhops, hend]

theorem notMem_headWords (s : Session) : ∀ word ∈ headWords s, 32 ∉ word := by
  have hip := notMem_inetNtop s.dest.sinAddr
  have hlimit : (32 : UInt8) ∉ decimal maxHops := notMem_decimal (by decide) maxHops
  have htotal : (32 : UInt8) ∉ decimal (s.size + 28) := notMem_decimal (by decide) (s.size + 28)
  intro word hword
  simp only [headWords, List.mem_cons, List.not_mem_nil, or_false] at hword
  obtain rfl | rfl | rfl | rfl | rfl | rfl := hword
  · rw [List.mem_append]
    exact fun h => h.elim hip (by decide)
  · exact hlimit
  · decide
  · decide
  · exact htotal
  · decide

/-- The head line can be read whatever the host is called. -/
theorem readHead_headText (s : Session) (host : CString) :
    readHead (headText s host) = some ⟨host.bytes, s.dest.sinAddr, maxHops, s.size + 28⟩ := by
  have hstart : (32 : UInt8) ∉ ascii "traceroute" := by decide
  have hto : (32 : UInt8) ∉ ascii "to" := by decide
  have hend : (32 : UInt8) ∉ ascii "packets" := by decide
  have hsplit : (headText s host).splitOn 32 =
      ascii "traceroute" :: ascii "to" ::
        (host.bytes.splitOn 32 ++ (headWords s ++ [ascii "packets"])) := by
    rw [headText_eq, List.splitOn_append_cons_self_of_not_mem hstart,
      List.splitOn_append_cons_self_of_not_mem hto, List.splitOn_append_cons_self,
      splitOn_words (notMem_headWords s), List.splitOn_eq_singleton hend]
  have hcolon : (40 :: ((inetNtop s.dest.sinAddr).bytes ++ [41, 58])).dropLast =
      40 :: ((inetNtop s.dest.sinAddr).bytes ++ [41]) := by
    rw [← @List.dropLast_concat _ (40 :: ((inetNtop s.dest.sinAddr).bytes ++ [41])) 58]
    simp
  simp [readHead, hsplit, headWords, hcolon, address_inetNtop, value_decimal,
    List.intercalate_splitOn]

theorem notMem_columns (hnames : Named e) (t : Nat) :
    ∀ word ∈ probes.flatMap fun i => words (columnOut e t i), 32 ∉ word := by
  simp only [List.mem_flatMap]
  rintro word ⟨i, -, hmem⟩
  exact notMem_words hnames t i word hmem

theorem readHop_hopText (hnames : Named e) (t : Nat) :
    readHop (hopText e t) = some (t, probes.map (outcome e t)) := by
  have hnumber : (32 : UInt8) ∉ decimal t := notMem_decimal (by decide) t
  have hwords : ∀ word ∈ decimal t :: probes.flatMap fun i => words (columnOut e t i), 32 ∉ word :=
    List.forall_mem_cons.mpr ⟨hnumber, notMem_columns hnames t⟩
  have hsplit : (hopText e t).splitOn 32 =
      decimal t :: ((probes.flatMap fun i => words (columnOut e t i)) ++ [[]]) := by
    rw [hopText, ← List.append_nil (List.flatMap _ _), splitOn_words hwords]
    rfl
  have hcolumns := readColumns_words hnames (List.nil_append probes) (t := t)
  rw [readHop, hsplit]
  simp only [List.dropLast_concat]
  change (readColumns _ none _).map _ = _
  change readColumns _ none _ = _ at hcolumns
  rw [hcolumns, Option.map_some, value_decimal]

theorem lineFeed_notMem_words (hnames : Named e) (t : Nat) (i : Probe) :
    ∀ word ∈ words (columnOut e t i), 10 ∉ word := by
  have hstar : (10 : UInt8) ∉ ascii "*" := by decide
  have hms : (10 : UInt8) ∉ ascii "ms" := by decide
  have htime : ∀ q, (10 : UInt8) ∉ fixed3 q := fun q h => absurd (mem_fixed3 h) (by decide)
  have hname : ∀ name, IsName name → 10 ∉ name.bytes := fun name h hmem =>
    absurd (h.2 10 hmem) (by decide)
  unfold columnOut
  split
  · simpa [words] using hstar
  · next d hr =>
    have htarget := hname _ (isName_target hnames t i d.saddr)
    have hip := hname _ (isName_inetNtop d.saddr)
    cases repeats e t i with
    | true => simp [words, htime, hms]
    | false => simp [words, htime, hms, htarget, hip]

theorem lineFeed_notMem_hopText (hnames : Named e) (t : Nat) : 10 ∉ hopText e t := by
  have hnumber : (10 : UInt8) ∉ decimal t := notMem_decimal (by decide) t
  simp only [hopText, List.mem_flatMap, List.mem_append, List.mem_singleton]
  rintro ⟨word, hword, hmem | hspace⟩
  · obtain rfl | hcolumn := List.mem_cons.mp hword
    · exact hnumber hmem
    · obtain ⟨i, -, hi⟩ := List.mem_flatMap.mp hcolumn
      exact lineFeed_notMem_words hnames t i word hi hmem
  · revert hspace
    decide

theorem lineFeed_notMem_headText (hhost : 10 ∉ host.bytes) (s : Session) : 10 ∉ headText s host := by
  have hstart : (10 : UInt8) ∉ ascii "traceroute to " := by decide
  have hopen : (10 : UInt8) ∉ ascii " (" := by decide
  have hclose : (10 : UInt8) ∉ ascii "): " := by decide
  have hhops : (10 : UInt8) ∉ ascii " hops max, " := by decide
  have hend : (10 : UInt8) ∉ ascii " bytes packets" := by decide
  have hip : (10 : UInt8) ∉ (inetNtop s.dest.sinAddr).bytes := fun h =>
    absurd ((isName_inetNtop s.dest.sinAddr).2 10 h) (by decide)
  have hnumber : ∀ n, (10 : UInt8) ∉ decimal n := notMem_decimal (by decide)
  simp [headText, hstart, hhost, hopen, hip, hclose, hnumber, hhops, hend]

def said : Event → Option Out
  | .print o => some o
  | _ => none

theorem printed_eq (log : List Event) : printed log = log.filterMap said := by
  apply List.filterMap_congr
  intro ev _
  cases ev <;> rfl

theorem said_handler (p : Point) : said (.handler p) = none := rfl

theorem printed_sendEvents : (sendEvents s e t ip i).filterMap said =
    if e.sendto t i then [] else [.notSent] := by
  cases hs : e.sendto t i <;> rw [sendEvents, hs] <;> rfl

theorem printed_probeEvents : (probeEvents s e t ip i).filterMap said =
    if e.sendto t i then [] else [.notSent] := by
  rw [probeEvents, List.filterMap_append, List.filterMap_append, filterMap_event,
    filterMap_handled said_handler, filterMap_handled said_handler, printed_sendEvents]
  simp [said]

theorem stdout_line (e : Env) (t : Nat) : (line (columnOut e t)).flatMap stdout =
    (probes.flatMap fun i => words (columnOut e t i)).flatMap (· ++ [32]) ++ [10] := by
  simp only [line, List.flatMap_append, List.flatMap_map, stdout_columnOut, List.flatMap_assoc]
  rfl

/-- What a hop writes on the standard output is its line: a failed `sendto` is reported
elsewhere. -/
theorem stdout_hopEvents :
    ((hopEvents s e t ip).filterMap said).flatMap stdout = hopText e t ++ [10] := by
  have hcolumn : ∀ i, (columnEvents e t i).filterMap said =
      columnOut e t i :: if i = 2 then [.newline] else [] := by
    intro i
    rw [filterMap_columnEvents said_handler]
    rfl
  have hline : (probes.flatMap fun i =>
      columnOut e t i :: if i = 2 then [Out.newline] else []) = line (columnOut e t) := rfl
  have hlost : (probes.flatMap fun i => if e.sendto t i then ([] : List Out) else [.notSent]).flatMap
      stdout = [] := by
    simp only [List.flatMap_eq_nil_iff, List.mem_flatMap]
    rintro o ⟨i, -, ho⟩
    split at ho
    · cases ho
    · rw [List.mem_singleton.mp ho]
      rfl
  have htitle : ((said (.print (.ttl t))).toList).flatMap stdout = decimal t ++ [32] := by
    rw [said, Option.toList_some, List.flatMap_singleton]
    rfl
  rw [filterMap_hopEvents said_handler (fun _ _ => printed_probeEvents) hcolumn, hline,
    List.flatMap_append, List.flatMap_append, hlost, htitle, stdout_line, List.append_nil, hopText,
    List.flatMap_cons, List.append_assoc, List.append_assoc, List.append_assoc]

theorem stdout_hopsEvents (n : Nat) : ((hopsEvents s e n).filterMap said).flatMap stdout =
    ((List.range n).map fun k => hopText e (k + 1)).flatMap (· ++ [10]) := by
  rw [hopsEvents, List.filterMap_flatMap, List.flatMap_assoc, List.flatMap_map]
  exact List.flatMap_congr fun k _ => stdout_hopEvents

theorem stdout_prologue : ((prologue s e host).filterMap said).flatMap stdout =
    headText s host ++ [10] := by
  have hend : ascii " bytes packets\n" = ascii " bytes packets" ++ [10] := by decide
  simp only [prologue, List.filterMap_append, List.filterMap_cons, said,
    filterMap_handled said_handler, List.nil_append, List.append_nil, List.filterMap_nil]
  simp [stdout, Text.string, headText, hend]

theorem output_eq (hend : Ended s e (prologue s e host) T w) : output w =
    (headText s host :: (List.range T).map fun k => hopText e (k + 1)).flatMap (· ++ [10]) := by
  rw [output, printed_eq, hend.log, List.filterMap_append, List.filterMap_append,
    List.flatMap_append, List.flatMap_append, stdout_prologue, stdout_hopsEvents, List.flatMap_cons]
  simp [said]

theorem mapM_readHop (hnames : Named e) (ks : List Nat) :
    (ks.map fun k => hopText e (k + 1)).mapM readHop =
      some (ks.map fun k => (k + 1, probes.map (outcome e (k + 1)))) := by
  induction ks with
  | nil => rfl
  | cons k ks ih =>
    rw [List.map_cons, List.mapM_cons, readHop_hopText hnames, ih]
    rfl

theorem readTrace_output (hnames : Named e) (hhost : 10 ∉ host.bytes)
    (hend : Ended s e (prologue s e host) T w) : readTrace (output w) =
      some ⟨⟨host.bytes, s.dest.sinAddr, maxHops, s.size + 28⟩,
        (List.range T).map fun k => (k + 1, probes.map (outcome e (k + 1)))⟩ := by
  have hlines : ∀ l ∈ headText s host :: (List.range T).map fun k => hopText e (k + 1), 10 ∉ l := by
    intro l hl
    obtain rfl | hl := List.mem_cons.mp hl
    · exact lineFeed_notMem_headText hhost s
    · obtain ⟨k, -, rfl⟩ := List.mem_map.mp hl
      exact lineFeed_notMem_hopText hnames (k + 1)
  rw [readTrace, output_eq hend, lines_flatMap hlines]
  change (readHead (headText s host) >>= fun head => _) = _
  rw [readHead_headText, Option.bind_eq_bind, Option.bind_some, mapM_readHop hnames]
  rfl

/-- The standard output of a run can be read back: what was traced, every hop that was
performed, and of each of its probes who answered and when. -/
theorem transcript_read (hp : parseDest e argv init = .ok w₀) (hfd : 0 ≤ e.socket)
    (hnames : Named e) (hhost : ∀ host, w₀.data.inputDest = some host → 10 ∉ host.bytes) :
    ∃ w T host dest, main e argv = .ok w ∧ w₀.data.inputDest = some host ∧
      w₀.data.networkIp = some dest ∧ LastHop e dest.sinAddr w₀.data.icmpRoute T ∧
      readTrace (output w) = some ⟨⟨host.bytes, dest.sinAddr, maxHops, w₀.data.totalSize⟩,
        (List.range T).map fun k => (k + 1, probes.map (outcome e (k + 1)))⟩ := by
  obtain ⟨s, host, hs⟩ := parseDest_ok hp
  obtain ⟨T, w, hmain, hend⟩ := main_ok hp hs hfd
  have hlast := lastHop_of_ended hend
  rw [← hs.held.icmp] at hlast
  refine ⟨w, T, host, s.dest, hmain, hs.inputDest, hs.network, hlast, ?_⟩
  rw [hs.held.total]
  exact readTrace_output hnames (hhost host hs.inputDest) hend

theorem named_gateway : Named gateway := by
  rintro t i addr name h
  cases h
  exact ⟨by decide, by decide +kernel⟩

theorem transcript_read_gateway :
    ∃ w T host dest, main gateway udpArgs = .ok w ∧ some (argAt udpArgs 1) = some host ∧
      some target = some dest ∧ LastHop gateway dest.sinAddr false T ∧
      readTrace (output w) = some ⟨⟨host.bytes, dest.sinAddr, maxHops, 60⟩,
        (List.range T).map fun k => (k + 1, probes.map (outcome gateway (k + 1)))⟩ := by
  have hp : parseDest gateway udpArgs init = .ok _ := rfl
  refine transcript_read hp (by decide) named_gateway ?_
  rintro host h
  cases h
  decide

end FtTraceroute.Transcript

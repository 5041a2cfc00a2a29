import FtTraceroute.Strings

namespace FtTraceroute.Dump

open Libft Strings

/-- `if (*p & mask) octet[i]++` for the masks from `0x80` to `0x1` -/
def setOctet (octet : List UInt8) (p : UInt8) : List UInt8 :=
  octet.zipWith (fun o mask => if p &&& mask ≠ 0 then o + 1 else o)
    [0x80, 0x40, 0x20, 0x10, 0x8, 0x4, 0x2, 0x1]

def printOctet (p : UInt8) : List UInt8 :=
  (setOctet (List.replicate 8 48) p).zipIdx.flatMap fun o => if o.2 = 4 then [32, o.1] else [o.1]

/-- The loop of `print_memory_binary`. The turn that ends a line goes on to the next byte. -/
def binaryLoop : Nat → List UInt8 → List UInt8
  | _, [] => []
  | i, p :: mem => (if i = 4 then ascii " * \n" else []) ++ printOctet p ++ ascii " || " ++
      binaryLoop ((if i = 4 then 0 else i) + 1) mem

def printMemoryBinary (mem : List UInt8) : List UInt8 := binaryLoop 0 mem

def hexChar (v : UInt8) : UInt8 := (ascii "0123456789abcdef").getD v.toNat 0

def fillHexRes : Nat → List UInt8 → UInt8 → List UInt8 × UInt8
  | 0, res, val => (res, val)
  | rem + 1, res, val => fillHexRes rem (res.set rem (hexChar (val % 16))) (val / 16)

/-- What is written, and the byte that is left in memory. -/
def printOctetHex (p : UInt8) : List UInt8 × UInt8 := fillHexRes 2 [48, 48] p

def hexaTurn (i : Nat) (p : UInt8) : List UInt8 × UInt8 :=
  if i % 16 = 0 ∧ i ≠ 0 then ([10], p) else printOctetHex p

def hexaLoop : Nat → List UInt8 → List UInt8 × List UInt8
  | _, [] => ([], [])
  | i, p :: mem => ((hexaTurn i p).1 ++ [32] ++ (hexaLoop (i + 1) mem).1,
      (hexaTurn i p).2 :: (hexaLoop (i + 1) mem).2)

/-- The text, and what is left in memory. The size is cast to an `int`. -/
def printMemoryHexa (mem : List UInt8) : List UInt8 × List UInt8 :=
  let size := (wrap 32 mem.length).toNat
  ((hexaLoop 0 (mem.take size)).1, (hexaLoop 0 (mem.take size)).2 ++ mem.drop size)

def printMemory (mem : List UInt8) (base : Int) : List UInt8 :=
  (if base = 2 then printMemoryBinary mem
    else if base = 16 then (printMemoryHexa mem).1
    else ascii "Wrong base\n") ++ [10]

def hex2 (c : UInt8) : List UInt8 := [hexChar (c / 16), hexChar (c % 16)]

def packetLoop : Nat → List UInt8 → List UInt8
  | _, [] => [10]
  | i, c :: string => (if i % 8 = 0 ∧ i % 16 ≠ 0 then ascii "][" else []) ++
      (if i % 16 = 0 then [10] else []) ++ hex2 c ++ [32] ++ packetLoop (i + 1) string

def printPacket (string : List UInt8) : List UInt8 := packetLoop 0 string

def isBit (c : UInt8) : Bool := c == 48 || c == 49

def readOctets : List UInt8 → List UInt8
  | a :: b :: c :: d :: e :: f :: g :: h :: rest =>
    [a, b, c, d, e, f, g, h].foldl (fun n c => 2 * n + (c - 48)) 0 :: readOctets rest
  | _ => []

/-- The bytes of a binary dump: eight binary digits each, whatever stands between them. -/
def readBits (text : List UInt8) : List UInt8 := readOctets (text.filter isBit)

def isHex (c : UInt8) : Bool := isDigit c || (97 ≤ c && c ≤ 102)

def hexValue (c : UInt8) : UInt8 := if isDigit c then c - 48 else c - 87

def readPairs : List UInt8 → List UInt8
  | a :: b :: rest => (16 * hexValue a + hexValue b) :: readPairs rest
  | _ => []

def readHex (text : List UInt8) : List UInt8 := readPairs (text.filter isHex)

/-- The indices whose bytes `print_memory_hexa` prints. -/
def shown (i : Nat) : Bool := decide (¬ (i % 16 = 0 ∧ i ≠ 0))

variable {i : Nat} {mem : List UInt8}

theorem forall_byte {p : UInt8 → Prop} (h : ∀ n : Fin 256, p (UInt8.ofNat n)) (b : UInt8) : p b := by
  have hb := h ⟨b.toNat, b.toNat_lt⟩
  rwa [UInt8.ofNat_toNat] at hb

theorem printOctetHex_eq (b : UInt8) : printOctetHex b = (hex2 b, 0) := by
  revert b
  exact forall_byte (by decide +kernel)

theorem filter_hex2 (b : UInt8) : (hex2 b).filter isHex = hex2 b := by
  revert b
  exact forall_byte (by decide +kernel)

theorem hexValue_hex2 (b : UInt8) :
    16 * hexValue (hexChar (b / 16)) + hexValue (hexChar (b % 16)) = b := by
  revert b
  exact forall_byte (by decide +kernel)

theorem filter_printOctet (b : UInt8) :
    (printOctet b).filter isBit = setOctet (List.replicate 8 48) b := by
  revert b
  exact forall_byte (by decide +kernel)

theorem foldl_setOctet (b : UInt8) :
    (setOctet (List.replicate 8 48) b).foldl (fun n c => 2 * n + (c - 48)) 0 = b := by
  revert b
  exact forall_byte (by decide +kernel)

theorem readHex_hex2 (b : UInt8) (text : List UInt8) :
    readHex (hex2 b ++ text) = b :: readHex text := by
  rw [readHex, List.filter_append, filter_hex2, readHex]
  exact congrArg (· :: readPairs (text.filter isHex)) (hexValue_hex2 b)

theorem readBits_printOctet (b : UInt8) (text : List UInt8) :
    readBits (printOctet b ++ text) = b :: readBits text := by
  rw [readBits, List.filter_append, filter_printOctet, readBits]
  exact congrArg (· :: readOctets (text.filter isBit)) (foldl_setOctet b)

theorem readHex_skip (sep : List UInt8) (h : sep.filter isHex = []) (text : List UInt8) :
    readHex (sep ++ text) = readHex text := by
  rw [readHex, List.filter_append, h, List.nil_append, readHex]

theorem readBits_skip (sep : List UInt8) (h : sep.filter isBit = []) (text : List UInt8) :
    readBits (sep ++ text) = readBits text := by
  rw [readBits, List.filter_append, h, List.nil_append, readBits]

theorem readBits_binaryLoop (i : Nat) (mem text : List UInt8) :
    readBits (binaryLoop i mem ++ text) = mem ++ readBits text := by
  induction mem generalizing i with
  | nil => rfl
  | cons b mem ih =>
    rw [binaryLoop, List.append_assoc, List.append_assoc, List.append_assoc, readBits_skip,
      readBits_printOctet, readBits_skip _ (by decide +kernel), ih, List.cons_append]
    split
    · decide +kernel
    · rfl

theorem readHex_packetLoop (i : Nat) (mem : List UInt8) : readHex (packetLoop i mem) = mem := by
  induction mem generalizing i with
  | nil => rfl
  | cons b mem ih =>
    rw [packetLoop, List.append_assoc, List.append_assoc, List.append_assoc, readHex_skip,
      readHex_skip, readHex_hex2, readHex_skip _ (by decide +kernel), ih]
    · split <;> decide +kernel
    · split <;> decide +kernel

theorem hexaTurn_shown (h : shown i = true) (b : UInt8) : hexaTurn i b = (hex2 b, 0) := by
  rw [hexaTurn, if_neg (of_decide_eq_true h), printOctetHex_eq]

theorem hexaTurn_break (h : shown i = false) (b : UInt8) : hexaTurn i b = ([10], b) :=
  if_pos (not_not.mp (of_decide_eq_false h))

theorem readHex_hexaLoop (i : Nat) (mem text : List UInt8) : readHex ((hexaLoop i mem).1 ++ text) =
    ((mem.zipIdx i).filter fun b => shown b.2).map Prod.fst ++ readHex text := by
  induction mem generalizing i with
  | nil => rfl
  | cons b mem ih =>
    rw [hexaLoop, List.append_assoc, List.append_assoc, List.zipIdx_cons, List.filter_cons]
    cases hi : shown i with
    | true =>
      rw [hexaTurn_shown hi, readHex_hex2, readHex_skip _ (by decide +kernel), ih, if_pos rfl,
        List.map_cons, List.cons_append]
    | false =>
      rw [hexaTurn_break hi, readHex_skip [10] (by decide +kernel),
        readHex_skip _ (by decide +kernel), ih, if_neg Bool.false_ne_true]

theorem hexaLoop_left (i : Nat) (mem : List UInt8) :
    (hexaLoop i mem).2 = (mem.zipIdx i).map fun b => if shown b.2 then 0 else b.1 := by
  induction mem generalizing i with
  | nil => rfl
  | cons b mem ih =>
    rw [hexaLoop, List.zipIdx_cons, List.map_cons, ih]
    cases hi : shown i with
    | true => rw [hexaTurn_shown hi, if_pos rfl]
    | false => rw [hexaTurn_break hi, if_neg Bool.false_ne_true]

/-- The binary dump and the dump of a packet can be read back. The hexadecimal dump of the
library leaves out every sixteenth byte, and it clears what it prints. -/
theorem dumps_read (h : mem.length < 2 ^ 31) :
    readBits (printMemory mem 2) = mem ∧ readHex (printPacket mem) = mem ∧
      readHex (printMemory mem 16) = (mem.zipIdx.filter fun b => shown b.2).map Prod.fst ∧
      (printMemoryHexa mem).2 = mem.zipIdx.map fun b => if shown b.2 then 0 else b.1 := by
  have hsize : (wrap 32 mem.length).toNat = mem.length := by rw [wrap_of_lt h, Int.toNat_natCast]
  have hhexa : printMemoryHexa mem = hexaLoop 0 mem := by
    simp only [printMemoryHexa, hsize, List.take_length, List.drop_length, List.append_nil]
  have hbinary := readBits_binaryLoop 0 mem [10]
  have hshown := readHex_hexaLoop 0 mem [10]
  have hend : readBits [10] = [] := by decide +kernel
  have hend' : readHex [10] = [] := by decide +kernel
  rw [hend, List.append_nil] at hbinary
  rw [hend', List.append_nil] at hshown
  refine ⟨hbinary, readHex_packetLoop 0 mem, ?_, ?_⟩
  · rw [printMemory, if_neg (by decide), if_pos rfl, hhexa, hshown]
  · rw [hhexa, hexaLoop_left]

def line : List UInt8 := (List.range' 1 17).map UInt8.ofNat

/-- The seventeenth byte is lost. -/
theorem dumps_read_line :
    readBits (printMemory line 2) = line ∧ readHex (printPacket line) = line ∧
      readHex (printMemory line 16) = (line.zipIdx.filter fun b => shown b.2).map Prod.fst ∧
      (printMemoryHexa line).2 = line.zipIdx.map fun b => if shown b.2 then 0 else b.1 :=
  dumps_read (by decide)

end FtTraceroute.Dump

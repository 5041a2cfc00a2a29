import FtTraceroute.NextLine

namespace FtTraceroute.Lines

open Library.Loops Library.Split Libft Strings NextLine

structure Call where
  fd : Int
  line : Str

def opened (files : Int → Option (List Chunk)) : Input := ⟨files, []⟩

def runCalls : List Call → Input → Except Fault (List (Int × Option (List UInt8)))
  | [], _ => .ok []
  | c :: calls, w => do
    let (ret, line, w) ← getNextLine c.fd (some c.line) w
    let rest ← runCalls calls w
    pure ((ret, line.join.map CString.bytes) :: rest)

/-- Each call with the number of earlier calls on its descriptor, which are `past`. -/
def numbered : List Int → List Call → List (Nat × Call)
  | _, [] => []
  | past, c :: calls => (past.count c.fd, c) :: numbered (c.fd :: past) calls

def contentOf (files : Int → Option (List Chunk)) (fd : Int) : List UInt8 :=
  content ((files fd).getD [])

def due (all : List UInt8) (k : Nat) : Option (List UInt8) := (lines newline all)[k]?

def answer (all : List UInt8) (k : Nat) (line : Str) : Int × Option (List UInt8) :=
  match due all k with
  | some l => (1, some l)
  | none => (0, line.map CString.bytes)

/-- There is something to read, and an `int` can measure the line that is due. -/
def Deliverable (all : List UInt8) (k : Nat) : Prop := all ≠ [] ∧ ∀ l ∈ due all k, l.length < 2 ^ 31

structure Delivered (all : List UInt8) (k : Nat) (chunks : List Chunk) (ct : Str) : Prop where
  left : lines newline (remaining chunks ct) = (lines newline all).drop k
  stash : (text ct).length < buffSize
  started : ct ≠ none → all ≠ []
  fresh : ct = none → k = 0

def stashOf (fd : Int) (nodes : List File) : Str :=
  (nodes.find? fun node => node.fd = fd).bind File.str

/-- Every open descriptor after the calls on the descriptors `past`. -/
def Consistent (files : Int → Option (List Chunk)) (past : List Int) (w : Input) : Prop :=
  ∀ fd initial, files fd = some initial → ∃ chunks, w.unread fd = some chunks ∧
    Delivered (content initial) (past.count fd) chunks (stashOf fd w.beginList)

variable {files : Int → Option (List Chunk)} {all : List UInt8} {k : Nat}
  {chunks chunks' : List Chunk} {ct ct' line line' : Str} {ret fd fd' : Int} {past : List Int}
  {w : Input}

theorem nothing_left (h : Delivered all k chunks ct) (hdue : due all k = none) :
    remaining chunks ct = [] := by
  rw [due, List.getElem?_eq_none_iff] at hdue
  rw [← lines_eq_nil, h.left, List.drop_eq_nil_of_le hdue]

theorem readLine_delivered (h : Delivered all k chunks ct) (hgood : Deliverable all k)
    (line : Str) :
    ∃ ret chunks' ct' line', readLine chunks ct line = .ok (ret, chunks', ct', line') ∧
      (ret, line'.map CString.bytes) = answer all k line ∧ Delivered all (k + 1) chunks' ct' := by
  cases hdue : due all k with
  | some l =>
    obtain ⟨hlt, hget⟩ := List.getElem?_eq_some_iff.mp hdue
    have hlines : lines newline (remaining chunks ct) = l :: (lines newline all).drop (k + 1) := by
      rw [h.left, List.drop_eq_getElem_cons hlt, hget]
    obtain ⟨chunks', u, t, hrun, rfl, hrest, hfits⟩ :=
      readLine_line line hlines (hgood.2 l hdue) h.stash
    refine ⟨1, chunks', some u, some t, hrun, by simp [answer, hdue], ?_⟩
    exact ⟨hrest, hfits, fun _ => hgood.1, fun hnone => by cases hnone⟩
  | none =>
    have hnothing := nothing_left h hdue
    have hsome : ct ≠ none := by
      intro hnone
      have hall := h.left
      rw [hnothing, h.fresh hnone, List.drop_zero, lines_nil, eq_comm, lines_eq_nil] at hall
      exact hgood.1 hall
    have hrun := readLine_nothing line hnothing
    rw [if_neg hsome] at hrun
    refine ⟨0, chunks, ct, line, hrun, by simp [answer, hdue], ?_, h.stash, h.started, fun hnone =>
      absurd hnone hsome⟩
    rw [hnothing, lines_nil, eq_comm, List.drop_eq_nil_iff]
    rw [due, List.getElem?_eq_none_iff] at hdue
    exact Nat.le_succ_of_le hdue

theorem readLine_undeliverable (h : Delivered all k chunks ct) (hbad : ¬ Deliverable all k)
    (hrun : readLine chunks ct line = .ok (ret, chunks', ct', line')) :
    (ret, line'.map CString.bytes) ≠ answer all k line := by
  intro hanswer
  by_cases hall : all = []
  · obtain rfl : ct = none := by
      by_contra hsome
      exact h.started hsome hall
    have hnothing : remaining chunks none = [] := by
      rw [← lines_eq_nil, h.left, hall, lines_nil, List.drop_nil]
    rw [readLine_nothing line hnothing, if_pos rfl] at hrun
    cases hrun
  · obtain ⟨l, hdue, hlong⟩ : ∃ l, due all k = some l ∧ 2 ^ 31 ≤ l.length := by
      by_contra hnone
      apply hbad
      refine ⟨hall, fun l hl => ?_⟩
      by_contra hlong
      exact hnone ⟨l, hl, not_lt.mp hlong⟩
    rw [answer, hdue, Prod.mk.injEq, Option.map_eq_some_iff] at hanswer
    obtain ⟨rfl, t, rfl, rfl⟩ := hanswer
    exact absurd (readLine_short hrun) (not_lt.mpr hlong)

theorem stashOf_cons (fd : Int) (node : File) (nodes : List File) :
    stashOf fd (node :: nodes) = if node.fd = fd then node.str else stashOf fd nodes := by
  by_cases h : node.fd = fd <;> simp [stashOf, h]

theorem stashOf_getTheNode (fd : Int) (nodes : List File) :
    (getTheNode ⟨fd, none⟩ nodes).1.str = stashOf fd nodes := by
  cases h : nodes.find? fun node => node.fd = fd <;> simp [getTheNode, stashOf, h]

theorem stashOf_setStr_ne (hne : fd' ≠ fd) (ct : Str) (nodes : List File) :
    stashOf fd' (setStr fd ct nodes) = stashOf fd' nodes := by
  induction nodes with
  | nil => rfl
  | cons node nodes ih =>
    rw [setStr]
    split
    · next h =>
      have hother : node.fd ≠ fd' := h ▸ hne.symm
      rw [stashOf_cons, stashOf_cons, if_neg hother, if_neg hother]
    · rw [stashOf_cons, stashOf_cons, ih]

theorem stashOf_setStr {nodes : List File} (h : ∃ node ∈ nodes, node.fd = fd) (ct : Str) :
    stashOf fd (setStr fd ct nodes) = ct := by
  induction nodes with
  | nil => simp at h
  | cons node nodes ih =>
    rw [setStr]
    split
    · next hfd => rw [stashOf_cons, if_pos hfd]
    · next hfd =>
      rw [stashOf_cons, if_neg hfd, ih]
      simpa [hfd] using h

theorem stashOf_store (fd fd' : Int) (ct : Str) (nodes : List File) :
    stashOf fd' (setStr fd ct (getTheNode ⟨fd, none⟩ nodes).2) =
      if fd' = fd then ct else stashOf fd' nodes := by
  cases hfind : nodes.find? fun node => node.fd = fd with
  | some node =>
    have hnodes : (getTheNode ⟨fd, none⟩ nodes).2 = nodes := by simp [getTheNode, hfind]
    rw [hnodes]
    split
    · next h =>
      have hmem := List.mem_of_find?_eq_some hfind
      have hfd : node.fd = fd := by simpa using List.find?_some hfind
      rw [h, stashOf_setStr ⟨node, hmem, hfd⟩]
    · next h => exact stashOf_setStr_ne h ct nodes
  | none =>
    have hnodes : (getTheNode ⟨fd, none⟩ nodes).2 = ⟨fd, none⟩ :: nodes := by
      simp [getTheNode, hfind]
    rw [hnodes, setStr, if_pos rfl, stashOf_cons]
    simp [eq_comm]

theorem getNextLine_eq (hfd : 0 ≤ fd) (hopen : w.unread fd = some chunks) (line : Str) :
    getNextLine fd (some line) w = (readLine chunks (stashOf fd w.beginList) line >>= fun r =>
      pure (r.1, some r.2.2.2,
        { unread := Function.update w.unread fd (some r.2.1)
          beginList := setStr fd r.2.2.1 (getTheNode ⟨fd, none⟩ w.beginList).2 })) := by
  unfold getNextLine
  rw [hopen]
  dsimp only
  rw [if_neg (not_lt.mpr hfd), stashOf_getTheNode]

theorem consistent_call (h : Consistent files past w) {initial : List Chunk}
    (hfile : files fd = some initial)
    (hd : Delivered (content initial) (past.count fd + 1) chunks' ct') :
    Consistent files (fd :: past)
      { unread := Function.update w.unread fd (some chunks')
        beginList := setStr fd ct' (getTheNode ⟨fd, none⟩ w.beginList).2 } := by
  intro fd' initial' hfile'
  obtain rfl | hne := eq_or_ne fd' fd
  · rw [hfile] at hfile'
    cases hfile'
    refine ⟨chunks', Function.update_self _ _ _, ?_⟩
    rw [stashOf_store, if_pos rfl, List.count_cons_self]
    exact hd
  · obtain ⟨chunks, hunread, hdelivered⟩ := h fd' initial' hfile'
    refine ⟨chunks, (Function.update_of_ne hne _ _).trans hunread, ?_⟩
    rw [stashOf_store, if_neg hne, List.count_cons_of_ne hne.symm]
    exact hdelivered

theorem consistent_opened (files : Int → Option (List Chunk)) :
    Consistent files [] (opened files) := by
  intro fd initial hfile
  exact ⟨initial, hfile, rfl, Nat.zero_lt_succ 999, fun h => absurd rfl h, fun _ => rfl⟩

/-- The answers of a whole run are those due, whatever the order of the calls, if and only
if every line that is due can be delivered. -/
theorem runCalls_iff_of_consistent (h : Consistent files past w) {calls : List Call}
    (hopen : ∀ c ∈ calls, 0 ≤ c.fd ∧ (files c.fd).isSome = true) :
    runCalls calls w =
        .ok ((numbered past calls).map fun c => answer (contentOf files c.2.fd) c.1 c.2.line) ↔
      ∀ c ∈ numbered past calls, Deliverable (contentOf files c.2.fd) c.1 := by
  induction calls generalizing past w with
  | nil => exact iff_of_true rfl (by simp [numbered])
  | cons c calls ih =>
    obtain ⟨hfd, hsome⟩ := hopen c List.mem_cons_self
    obtain ⟨initial, hfile⟩ := Option.isSome_iff_exists.mp hsome
    obtain ⟨chunks, hunread, hdelivered⟩ := h c.fd initial hfile
    have hcontent : contentOf files c.fd = content initial := by simp [contentOf, hfile]
    rw [numbered, List.map_cons, List.forall_mem_cons, runCalls, getNextLine_eq hfd hunread]
    dsimp only
    rw [hcontent]
    by_cases hgood : Deliverable (content initial) (past.count c.fd)
    · obtain ⟨ret, chunks', ct', line', hrun, hanswer, hnext⟩ :=
        readLine_delivered hdelivered hgood c.line
      have hih := ih (consistent_call h hfile hnext) fun d hd => hopen d (List.mem_cons_of_mem c hd)
      rw [hrun, ok_bind, and_iff_right hgood, ← hih, ← hanswer]
      exact cons_eq_ok
    · refine iff_of_false (fun hrun => ?_) fun hall => hgood hall.1
      obtain ⟨r, hcall, hrun⟩ := bind_eq_ok.mp hrun
      obtain ⟨r', hread, hcall⟩ := bind_eq_ok.mp hcall
      cases hcall
      obtain ⟨rest, -, hrun⟩ := bind_eq_ok.mp hrun
      have hhead := (List.cons.inj (Except.ok.inj hrun)).1
      exact readLine_undeliverable hdelivered hgood hread hhead

/-- Each call delivers the line that is due on its descriptor, or 0 after the last line, as
long as there is something to read and an `int` can measure the lines that are due. -/
theorem runCalls_iff (files : Int → Option (List Chunk)) {calls : List Call}
    (hopen : ∀ c ∈ calls, 0 ≤ c.fd ∧ (files c.fd).isSome = true) :
    runCalls calls (opened files) =
        .ok ((numbered [] calls).map fun c => answer (contentOf files c.2.fd) c.1 c.2.line) ↔
      ∀ c ∈ numbered [] calls, Deliverable (contentOf files c.2.fd) c.1 :=
  runCalls_iff_of_consistent (consistent_opened files) hopen

def greeting : Chunk := ⟨⟨ascii "one\ntwo", by decide⟩, by decide, by decide⟩

def pair : Int → Option (List Chunk) := fun fd => if fd = 3 ∨ fd = 4 then some [greeting] else none

def pairCalls : List Call := [⟨3, none⟩, ⟨4, none⟩, ⟨3, none⟩, ⟨3, none⟩]

theorem runCalls_iff_pair :
    runCalls pairCalls (opened pair) =
        .ok ((numbered [] pairCalls).map fun c => answer (contentOf pair c.2.fd) c.1 c.2.line) ↔
      ∀ c ∈ numbered [] pairCalls, Deliverable (contentOf pair c.2.fd) c.1 :=
  runCalls_iff pair (by decide)

example : runCalls pairCalls (opened pair) =
    .ok [(1, some (ascii "one")), (1, some (ascii "one")), (1, some (ascii "two")), (0, none)] :=
  rfl

def nothing : Int → Option (List Chunk) := fun fd => if fd = 0 then some [] else none

/-- The first call on an empty descriptor follows the null pointer of its stash. -/
theorem empty_faults : runCalls [⟨0, none⟩] (opened nothing) = .error .nullPointer ∧
    runCalls [⟨0, none⟩] (opened nothing) ≠ .ok ((numbered [] [⟨0, none⟩]).map fun c =>
      answer (contentOf nothing c.2.fd) c.1 c.2.line) := by
  have hrun : runCalls [⟨0, none⟩] (opened nothing) = .error .nullPointer := rfl
  refine ⟨hrun, fun h => ?_⟩
  rw [hrun] at h
  cases h

end FtTraceroute.Lines

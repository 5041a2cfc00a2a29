import FtTraceroute.Library.Split
import FtTraceroute.Strings

namespace FtTraceroute.NextLine

open Library.Loops Library.Split Libft Strings

def buffSize : Nat := 1000

structure Chunk extends CString where
  nonempty : bytes ≠ []
  fits : bytes.length ≤ buffSize

structure File where
  fd : Int
  str : Str

/-- What `get_next_line` works on: what `read` will return for each open descriptor
before it returns 0, and the nodes of the static list. -/
structure Input where
  unread : Int → Option (List Chunk)
  beginList : List File

def charAt (s : CString) (i : Int) : Except Fault UInt8 :=
  if 0 ≤ i ∧ i ≤ s.bytes.length then .ok (s.bytes.getD i.toNat 0) else .error .outOfBounds

def afterLine (s : CString) (lenLine : Int) : Except Fault Str := do
  let c ← charAt s lenLine
  if c = newline then ftStrdup (some (drop (lenLine.toNat + 1) s)) else pure none

/-- The line is returned with the new stash. -/
def trimAndDel (ct : Str) : Except Fault (Str × Str) :=
  match ct with
  | none => .error .nullPointer
  | some s =>
    if s.bytes = [] then .ok (none, ct)
    else do
      let tail ← ftStrchr ct newline
      let lenLine := wrap 32 (ftStrlen ct - ftStrlen tail)
      let ret ← ftStrndup ct (toSize lenLine)
      let tmp ← afterLine s lenLine
      let ct ← ftStrdup tmp
      if lenLine = 0 then do
        let blank ← ftStrnew 1
        pure (blank, ct)
      else pure (ret, ct)

/-- Returns the result, the stash and the line. -/
def checksEof (ct line : Str) : Except Fault (Int × Str × Str) :=
  match ct with
  | none => .error .nullPointer
  | some s =>
    if s.bytes = [] then .ok (0, ct, line)
    else do
      match ← ftStrchr ct newline with
      | none => do
        let line ← ftStrdup ct
        let ct ← ftStrnew 1
        pure (1, ct, line)
      | some _ => pure (1, ct, line)

/-- The loop of `read_line`: returns the last `rd_bytes`, what is left to read and the stash. -/
def readLoop : List Chunk → Str → Except Fault (Nat × List Chunk × Str)
  | [], ct => .ok (0, [], ct)
  | buf :: chunks, ct => do
    let tmp ← ftStrdup ct
    let ct ← ftStrjoin tmp (some buf.toCString)
    match ← ftStrchr ct newline with
    | some _ => pure (buf.bytes.length, chunks, ct)
    | none => readLoop chunks ct

/-- `ft_strlen(*ct) != 0 && ft_strchr(*ct, '\n')` -/
def hasLine (ct : Str) : Except Fault Bool :=
  if ftStrlen ct = 0 then .ok false
  else do
    let tail ← ftStrchr ct newline
    pure tail.isSome

/-- Returns the result, what is left to read, the stash and the line. -/
def readLine (chunks : List Chunk) (ct line : Str) :
    Except Fault (Int × List Chunk × Str × Str) := do
  if ← hasLine ct then
    let (line, ct) ← trimAndDel ct
    pure (1, chunks, ct, line)
  else
    let (rdBytes, chunks, ct) ← readLoop chunks ct
    if rdBytes = 0 then
      let (ret, ct, line) ← checksEof ct line
      pure (ret, chunks, ct, line)
    else
      let (line, ct) ← trimAndDel ct
      pure (1, chunks, ct, line)

/-- The node of a descriptor, added in front if there is none yet. -/
def getTheNode (elem : File) (nodes : List File) : File × List File :=
  match nodes.find? fun node => node.fd = elem.fd with
  | some node => (node, nodes)
  | none => (elem, elem :: nodes)

/-- The store of a stash through the pointer that `get_the_node` returned. -/
def setStr (fd : Int) (str : Str) : List File → List File
  | [] => []
  | node :: nodes =>
    if node.fd = fd then { node with str := str } :: nodes else node :: setStr fd str nodes

/-- `line` is the `char *` that the second argument points to, if that is not null. -/
def getNextLine (fd : Int) (line : Option Str) (w : Input) :
    Except Fault (Int × Option Str × Input) :=
  match line, w.unread fd with
  | some line, some chunks =>
    if fd < 0 then .ok (-1, some line, w)
    else do
      let (curr, nodes) := getTheNode ⟨fd, none⟩ w.beginList
      let (ret, chunks, str, line) ← readLine chunks curr.str line
      pure (ret, some line,
        { unread := Function.update w.unread fd (some chunks), beginList := setStr fd str nodes })
  | _, _ => .ok (-1, line, w)

def text : Str → List UInt8
  | none => []
  | some s => s.bytes

def content (chunks : List Chunk) : List UInt8 := chunks.flatMap fun chunk => chunk.bytes

/-- What is left of a descriptor's content: its stash, then what `read` still returns. -/
def remaining (chunks : List Chunk) (ct : Str) : List UInt8 := text ct ++ content chunks

variable {chunks chunks' : List Chunk} {ct ct' line line' : Str} {s t : CString} {l : List UInt8}
  {ls : List (List UInt8)} {before after : List UInt8} {n : Nat}

theorem content_eq_nil : content chunks = [] ↔ chunks = [] := by
  cases chunks with
  | nil => simp [content]
  | cons buf chunks => simp [content, buf.nonempty]

theorem ftStrchr_line (h : s.bytes = before ++ newline :: after) (hbefore : newline ∉ before) :
    ∃ t, ftStrchr (some s) newline = .ok (some t) ∧ t.bytes = newline :: after := by
  have htake : s.bytes.takeWhile (· ≠ newline) = before := by
    rw [h, List.takeWhile_append_of_pos fun c hc => by
      simpa using ne_of_mem_of_not_mem hc hbefore]
    simp
  refine ⟨drop before.length s, ?_, by simp [drop, h]⟩
  simp only [ftStrchr, htake]
  rw [if_neg (by decide), if_pos (by simp [h])]

theorem ftStrchr_none (h : newline ∉ s.bytes) : ftStrchr (some s) newline = .ok none := by
  have htake : s.bytes.takeWhile (· ≠ newline) = s.bytes :=
    List.takeWhile_eq_self_iff.mpr fun c hc => by simpa using ne_of_mem_of_not_mem hc h
  simp only [ftStrchr, htake, lt_self_iff_false, ↓reduceIte]
  exact if_neg (by decide)

theorem afterLine_ok (h : s.bytes = before ++ newline :: after) (hrest : after.length < 2 ^ 31) :
    ∃ t, afterLine s before.length = .ok (some t) ∧ t.bytes = after := by
  have hle : (before.length : Int) ≤ s.bytes.length := by
    rw [h, List.length_append]
    omega
  have hchar : charAt s before.length = .ok newline := by
    rw [charAt, if_pos ⟨Int.natCast_nonneg _, hle⟩, Int.toNat_natCast, h,
      List.getD_append_right _ _ _ _ le_rfl, Nat.sub_self]
    rfl
  have hdrop : (drop (before.length + 1) s).bytes = after := by simp [drop, h]
  refine ⟨_, ?_, hdrop⟩
  rw [afterLine, hchar, ok_bind, if_pos rfl, Int.toNat_natCast]
  apply ftStrdup_ok
  rw [hdrop]
  exact hrest

theorem notMem_of_ftStrchr (h : ftStrchr ct newline = .ok none) : newline ∉ text ct := by
  cases ct with
  | none => cases h
  | some s =>
    intro hmem
    obtain ⟨before, after, hsplit, hbefore⟩ := List.eq_append_cons_of_mem hmem
    obtain ⟨tail, hchr, -⟩ := ftStrchr_line hsplit hbefore
    rw [hchr] at h
    cases h

theorem lenLine_eq (h : s.bytes = before ++ newline :: after) (ht : t.bytes = newline :: after)
    (hline : before.length < 2 ^ 31) :
    wrap 32 (ftStrlen (some s) - ftStrlen (some t)) = before.length := by
  have hdiff : (ftStrlen (some s) : Int) - ftStrlen (some t) = before.length := by
    simp [ftStrlen, h, ht]
  rw [hdiff, wrap_of_lt hline]

theorem trimAndDel_ok (h : s.bytes = before ++ newline :: after) (hbefore : newline ∉ before)
    (hline : before.length < 2 ^ 31) (hrest : after.length < 2 ^ 31) :
    ∃ t u, trimAndDel (some s) = .ok (some t, some u) ∧ t.bytes = before ∧ u.bytes = after := by
  obtain ⟨tail, hchr, htail⟩ := ftStrchr_line h hbefore
  have hlen := lenLine_eq h htail hline
  have hsize : toSize before.length = before.length := toSize_natCast (lt_trans hline (by decide))
  obtain ⟨rest, htmp, hbytes⟩ := afterLine_ok h hrest
  have hdup : ftStrdup (some rest) = .ok (some rest) := ftStrdup_ok (by rw [hbytes]; exact hrest)
  have hne : s.bytes ≠ [] := by simp [h]
  rw [trimAndDel, if_neg hne, hchr, ok_bind]
  dsimp only
  rw [hlen, hsize, htmp]
  obtain hzero | hpos := Nat.eq_zero_or_pos before.length
  · refine ⟨emptyString, rest, ?_, (List.eq_nil_of_length_eq_zero hzero).symm, hbytes⟩
    rw [hzero, ftStrndup_zero, ok_bind, ok_bind, hdup, ok_bind, if_pos Nat.cast_zero, ftStrnew_one]
    rfl
  · refine ⟨take before.length s, rest, ?_, by simp [take, h], hbytes⟩
    rw [ftStrndup_ok hpos hline, ok_bind, ok_bind, hdup, ok_bind, if_neg (by omega)]
    rfl

theorem trimAndDel_short (h : trimAndDel ct = .ok (some t, ct')) : t.bytes.length < 2 ^ 31 := by
  unfold trimAndDel at h
  split at h
  · cases h
  · split at h
    · cases h
    · obtain ⟨tail, -, h⟩ := bind_eq_ok.mp h
      obtain ⟨ret, hret, h⟩ := bind_eq_ok.mp h
      obtain ⟨tmp, -, h⟩ := bind_eq_ok.mp h
      obtain ⟨u, -, h⟩ := bind_eq_ok.mp h
      split at h
      · rw [ftStrnew_one, ok_bind] at h
        cases h
        exact Nat.two_pow_pos 31
      · cases h
        exact ftStrndup_short hret

theorem checksEof_last (hne : s.bytes ≠ []) (hs : newline ∉ s.bytes)
    (hlen : s.bytes.length < 2 ^ 31) :
    checksEof (some s) line = .ok (1, some emptyString, some s) := by
  rw [checksEof, if_neg hne, ftStrchr_none hs, ok_bind]
  dsimp only
  rw [ftStrdup_ok hlen, ok_bind, ftStrnew_one]
  rfl

theorem checksEof_short (hct : newline ∉ text ct) (h : checksEof ct line = .ok (1, ct', some t)) :
    t.bytes.length < 2 ^ 31 := by
  unfold checksEof at h
  split at h
  · cases h
  · next s =>
    split at h
    · cases h
    · rw [ftStrchr_none hct, ok_bind] at h
      dsimp only at h
      obtain ⟨u, hdup, h⟩ := bind_eq_ok.mp h
      rw [ftStrnew_one, ok_bind] at h
      cases h
      exact ftStrdup_short hdup

theorem ftStrdup_text (h : (text ct).length < 2 ^ 31) :
    ∃ s, ftStrdup ct = .ok (some s) ∧ s.bytes = text ct := by
  cases ct with
  | none => exact ⟨emptyString, ftStrnew_one, rfl⟩
  | some s => exact ⟨s, ftStrdup_ok h, rfl⟩

theorem readLoop_cons (buf : Chunk) (chunks : List Chunk) (h : (text ct).length < 2 ^ 31) :
    ∃ s, s.bytes = text ct ++ buf.bytes ∧ readLoop (buf :: chunks) ct =
      if newline ∈ s.bytes then .ok (buf.bytes.length, chunks, some s)
      else readLoop chunks (some s) := by
  obtain ⟨s, hdup, hs⟩ := ftStrdup_text h
  have hfits := buf.fits
  have hbuff : buffSize = 1000 := rfl
  have hjoin : ftStrjoin (some s) (some buf.toCString) = .ok (some (append s buf.toCString)) :=
    ftStrjoin_ok (by rw [hs]; omega)
  refine ⟨append s buf.toCString, congrArg (· ++ buf.bytes) hs, ?_⟩
  rw [readLoop, hdup, ok_bind, hjoin, ok_bind]
  by_cases hmem : newline ∈ (append s buf.toCString).bytes
  · obtain ⟨before, after, hsplit, hbefore⟩ := List.eq_append_cons_of_mem hmem
    obtain ⟨tail, hchr, -⟩ := ftStrchr_line hsplit hbefore
    rw [hchr, if_pos hmem]
    rfl
  · rw [ftStrchr_none hmem, if_neg hmem]
    rfl

theorem readLoop_line (hct : newline ∉ text ct)
    (h : remaining chunks ct = before ++ newline :: after) (hbefore : newline ∉ before)
    (hline : before.length < 2 ^ 31) :
    ∃ n chunks' s rest, readLoop chunks ct = .ok (n, chunks', some s) ∧ n ≠ 0 ∧
      s.bytes = before ++ newline :: rest ∧ rest ++ content chunks' = after ∧
      rest.length < buffSize := by
  induction chunks generalizing ct with
  | nil =>
    have hmem : newline ∈ text ct := by
      rw [remaining, content, List.flatMap_nil, List.append_nil] at h
      simp [h]
    exact absurd hmem hct
  | cons buf chunks ih =>
    have hcons : remaining (buf :: chunks) ct = text ct ++ (buf.bytes ++ content chunks) := rfl
    obtain ⟨middle, hmiddle, -⟩ := append_eq_line hct (hcons ▸ h)
    have hshort : (text ct).length < 2 ^ 31 := by
      rw [hmiddle, List.length_append] at hline
      omega
    obtain ⟨s, hs, hloop⟩ := readLoop_cons buf chunks hshort
    have hrest : s.bytes ++ content chunks = before ++ newline :: after := by
      rw [← h, hcons, hs, List.append_assoc]
    rw [hloop]
    by_cases hmem : newline ∈ s.bytes
    · obtain ⟨before', rest, hsplit, hbefore'⟩ := List.eq_append_cons_of_mem hmem
      rw [hsplit, List.append_assoc, List.cons_append] at hrest
      obtain ⟨rfl, hafter⟩ := line_unique hbefore' hbefore hrest
      -- the stash had no newline, so what follows the line came with this chunk
      obtain ⟨_, -, hbuf⟩ := append_eq_line hct (hs.symm.trans hsplit)
      have hfits := buf.fits
      rw [hbuf, List.length_append, List.length_cons] at hfits
      refine ⟨_, chunks, s, rest, if_pos hmem, ?_, hsplit, hafter, by omega⟩
      exact fun hzero => buf.nonempty (List.eq_nil_of_length_eq_zero hzero)
    · rw [if_neg hmem]
      exact ih hmem hrest

theorem readLoop_end (h : newline ∉ remaining chunks ct)
    (hlen : (remaining chunks ct).length < 2 ^ 31) :
    ∃ ct', readLoop chunks ct = .ok (0, [], ct') ∧ text ct' = remaining chunks ct := by
  induction chunks generalizing ct with
  | nil => exact ⟨ct, rfl, by simp [remaining, content]⟩
  | cons buf chunks ih =>
    have hcons : remaining (buf :: chunks) ct = text ct ++ (buf.bytes ++ content chunks) := rfl
    have hshort : (text ct).length < 2 ^ 31 := by
      rw [hcons, List.length_append] at hlen
      omega
    obtain ⟨s, hs, hloop⟩ := readLoop_cons buf chunks hshort
    have hrest : remaining (buf :: chunks) ct = remaining chunks (some s) := by
      rw [hcons, remaining, text, hs, List.append_assoc]
    rw [hrest] at h hlen ⊢
    have hmem : newline ∉ s.bytes := fun hmem => h (List.mem_append_left _ hmem)
    rw [hloop, if_neg hmem]
    exact ih h hlen

theorem readLoop_zero (hct : newline ∉ text ct) (h : readLoop chunks ct = .ok (0, chunks', ct')) :
    newline ∉ text ct' := by
  induction chunks generalizing ct with
  | nil =>
    cases h
    exact hct
  | cons buf chunks ih =>
    obtain ⟨tmp, -, h⟩ := bind_eq_ok.mp h
    obtain ⟨u, -, h⟩ := bind_eq_ok.mp h
    obtain ⟨tail, hchr, h⟩ := bind_eq_ok.mp h
    cases tail with
    | some tail =>
      have hzero : buf.bytes.length = 0 := congrArg Prod.fst (Except.ok.inj h)
      exact absurd (List.eq_nil_of_length_eq_zero hzero) buf.nonempty
    | none => exact ih (notMem_of_ftStrchr hchr) h

theorem hasLine_eq (ct : Str) : hasLine ct = .ok (decide (newline ∈ text ct)) := by
  cases ct with
  | none => rfl
  | some s =>
    by_cases hmem : newline ∈ s.bytes
    · obtain ⟨before, after, hsplit, hbefore⟩ := List.eq_append_cons_of_mem hmem
      obtain ⟨tail, hchr, -⟩ := ftStrchr_line hsplit hbefore
      rw [hasLine, if_neg (by simp [ftStrlen, hsplit]), hchr]
      simp [text, hmem, pure, Except.pure]
    · by_cases hnil : s.bytes = []
      · rw [hasLine, if_pos (by simp [ftStrlen, hnil])]
        simp [text, hnil]
      · rw [hasLine, if_neg (by simp [ftStrlen, hnil]), ftStrchr_none hmem]
        simp [text, hmem, pure, Except.pure]

theorem readLine_stashed (chunks : List Chunk) (line : Str)
    (hs : s.bytes = before ++ newline :: after) (hbefore : newline ∉ before)
    (hline : before.length < 2 ^ 31) (hafter : after.length < 2 ^ 31) :
    ∃ u t, readLine chunks (some s) line = .ok (1, chunks, some u, some t) ∧ t.bytes = before ∧
      u.bytes = after := by
  obtain ⟨t, u, htrim, ht, hu⟩ := trimAndDel_ok hs hbefore hline hafter
  have hmem : newline ∈ text (some s) := by simp [text, hs]
  refine ⟨u, t, ?_, ht, hu⟩
  rw [readLine, hasLine_eq, ok_bind, if_pos (decide_eq_true hmem), htrim]
  rfl

theorem readLine_unread (line : Str) (hct : newline ∉ text ct)
    (h : remaining chunks ct = before ++ newline :: after) (hbefore : newline ∉ before)
    (hline : before.length < 2 ^ 31) :
    ∃ chunks' u t, readLine chunks ct line = .ok (1, chunks', some u, some t) ∧ t.bytes = before ∧
      remaining chunks' (some u) = after ∧ u.bytes.length < buffSize := by
  obtain ⟨n, chunks', s, rest, hloop, hn, hs, hrest, hfits⟩ := readLoop_line hct h hbefore hline
  obtain ⟨t, u, htrim, ht, rfl⟩ := trimAndDel_ok hs hbefore hline (lt_trans hfits (by decide))
  refine ⟨chunks', u, t, ?_, ht, hrest, hfits⟩
  rw [readLine, hasLine_eq, ok_bind, if_neg (by simpa using hct), hloop, ok_bind]
  dsimp only
  rw [if_neg hn, htrim]
  rfl

theorem readLine_last (line : Str) (h : newline ∉ remaining chunks ct)
    (hne : remaining chunks ct ≠ []) (hlen : (remaining chunks ct).length < 2 ^ 31) :
    ∃ t, readLine chunks ct line = .ok (1, [], some emptyString, some t) ∧
      t.bytes = remaining chunks ct := by
  obtain ⟨ct', hloop, htext⟩ := readLoop_end h hlen
  have hct : newline ∉ text ct := fun hmem => h (List.mem_append_left _ hmem)
  cases ct' with
  | none => exact absurd htext.symm hne
  | some s =>
    have hs : s.bytes = remaining chunks ct := htext
    have heof := @checksEof_last line s (hs ▸ hne) (hs ▸ h) (hs ▸ hlen)
    refine ⟨s, ?_, hs⟩
    rw [readLine, hasLine_eq, ok_bind, if_neg (by simpa using hct), hloop, ok_bind]
    dsimp only
    rw [if_pos rfl, heof]
    rfl

theorem readLine_line (line : Str) (hlines : lines newline (remaining chunks ct) = l :: ls)
    (hl : l.length < 2 ^ 31) (hct : (text ct).length < buffSize) :
    ∃ chunks' u t, readLine chunks ct line = .ok (1, chunks', some u, some t) ∧ t.bytes = l ∧
      lines newline (remaining chunks' (some u)) = ls ∧ u.bytes.length < buffSize := by
  by_cases hmem : newline ∈ text ct
  · cases ct with
    | none => cases hmem
    | some s =>
      obtain ⟨before, after, hs, hbefore⟩ := List.eq_append_cons_of_mem hmem
      have hremaining :
          remaining chunks (some s) = before ++ newline :: (after ++ content chunks) := by
        rw [remaining, hs, List.append_assoc, List.cons_append]
      rw [hremaining, lines_append_cons hbefore] at hlines
      cases hlines
      have hafter : after.length < buffSize := by
        rw [hs, List.length_append, List.length_cons] at hct
        omega
      obtain ⟨u, t, hrun, ht, rfl⟩ := readLine_stashed chunks line hs hbefore hl
        (lt_trans hafter (by decide))
      exact ⟨chunks, u, t, hrun, ht, rfl, hafter⟩
  · obtain ⟨hnl, ⟨rest, hremaining, rfl⟩ | ⟨hremaining, hne, rfl⟩⟩ := lines_eq_cons hlines
    · obtain ⟨chunks', u, t, hrun, ht, rfl, hfits⟩ := readLine_unread line hmem hremaining hnl hl
      exact ⟨chunks', u, t, hrun, ht, rfl, hfits⟩
    · rw [← hremaining] at hnl hl hne
      obtain ⟨t, hrun, ht⟩ := readLine_last line hnl hne hl
      exact ⟨[], emptyString, t, hrun, ht.trans hremaining, rfl, by decide⟩

/-- With nothing left `read_line` looks at the stash, which must be there. -/
theorem readLine_nothing (line : Str) (h : remaining chunks ct = []) : readLine chunks ct line =
    if ct = none then .error .nullPointer else .ok (0, chunks, ct, line) := by
  obtain ⟨htext, hcontent⟩ := List.append_eq_nil_iff.mp h
  obtain rfl := content_eq_nil.mp hcontent
  rw [readLine, hasLine_eq, ok_bind, if_neg (by simp [htext]), readLoop, ok_bind]
  dsimp only
  rw [if_pos rfl]
  cases ct with
  | none => rfl
  | some s =>
    have hs : s.bytes = [] := htext
    rw [checksEof, if_pos hs]
    rfl

theorem readLine_short (h : readLine chunks ct line = .ok (1, chunks', ct', some t)) :
    t.bytes.length < 2 ^ 31 := by
  rw [readLine, hasLine_eq, ok_bind] at h
  split at h
  · obtain ⟨⟨ret, u⟩, htrim, h⟩ := bind_eq_ok.mp h
    cases h
    exact trimAndDel_short htrim
  · next hmem =>
    have hct : newline ∉ text ct := by simpa using hmem
    obtain ⟨⟨n, rest, u⟩, hloop, h⟩ := bind_eq_ok.mp h
    dsimp only at h
    split at h
    · next hzero =>
      subst hzero
      obtain ⟨⟨ret, u', t'⟩, heof, h⟩ := bind_eq_ok.mp h
      cases h
      exact checksEof_short (readLoop_zero hct hloop) heof
    · obtain ⟨⟨ret, u'⟩, htrim, h⟩ := bind_eq_ok.mp h
      cases h
      exact trimAndDel_short htrim

end FtTraceroute.NextLine

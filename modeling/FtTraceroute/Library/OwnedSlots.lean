import Mathlib

namespace FtTraceroute.Library.OwnedSlots

/-- A heap buffer: the identity `malloc` gave it and what it holds. -/
structure Buffer (α : Type*) where
  id : Nat
  val : α
deriving DecidableEq

inductive MemEvent (S : Type)
  | store (s : S) (old new : Option Nat)
  | access (id : Nat)
  | release (id : Nat)
deriving DecidableEq

/-- Pointer variables that own the buffers they point to, with the history of
every store, access and release, newest first. -/
structure Slots (S : Type) (β : S → Type) where
  slot : ∀ s, Option (Buffer (β s))
  next : Nat
  trace : List (MemEvent S)

variable {S : Type} {β : S → Type}

def empty : Slots S β := ⟨fun _ => none, 0, []⟩

def val (m : Slots S β) (s : S) : Option (β s) := (m.slot s).map Buffer.val

def held (m : Slots S β) (s : S) : Option Nat := (m.slot s).map Buffer.id

/-- `free(s)`. -/
def release (s : S) (m : Slots S β) : Slots S β :=
  ⟨m.slot, m.next, ((held m s).map MemEvent.release).toList ++ m.trace⟩

/-- A read through the pointer in `s`. -/
def touch (s : S) (m : Slots S β) : Slots S β :=
  ⟨m.slot, m.next, ((held m s).map MemEvent.access).toList ++ m.trace⟩

@[simp] theorem val_empty (s : S) : val (empty : Slots S β) s = none := rfl

@[simp] theorem val_touch (s : S) (m : Slots S β) : val (touch s m) = val m := rfl

theorem held_eq_none {m : Slots S β} {s : S} (h : val m s = none) : held m s = none := by
  simpa [held, val] using h

/-- What an event needs of the history before it: a slot is overwritten only
after its buffer was released, and nothing released is used again. -/
def Allowed (past : List (MemEvent S)) : MemEvent S → Prop
  | .store _ (some old) _ => .release old ∈ past
  | .store _ none _ => True
  | .access id => .release id ∉ past
  | .release id => .release id ∉ past

def Orderly : List (MemEvent S) → Prop
  | [] => True
  | e :: past => Allowed past e ∧ Orderly past

theorem orderly_append {later past : List (MemEvent S)} (h : Orderly (later ++ past)) :
    Orderly past := by
  induction later with
  | nil => exact h
  | cons e later ih => exact ih h.2

theorem orderly_split {later past : List (MemEvent S)} {e : MemEvent S}
    (h : Orderly (later ++ e :: past)) : Allowed past e :=
  (orderly_append h).1

/-- The ownership invariant: live buffers sit in exactly one slot each, and every
buffer that left its slot was released. -/
structure Sound (m : Slots S β) : Prop where
  held_lt : ∀ s id, held m s = some id → id < m.next
  released_lt : ∀ id, .release id ∈ m.trace → id < m.next
  live : ∀ s id, held m s = some id → .release id ∉ m.trace
  unique : ∀ s t id, held m s = some id → held m t = some id → s = t
  settled : ∀ s old id, .store s old (some id) ∈ m.trace →
    .release id ∈ m.trace ∨ ∃ t, held m t = some id
  orderly : Orderly m.trace

theorem sound_empty : Sound (empty : Slots S β) :=
  ⟨by simp [held, empty], by simp [empty], by simp [held, empty], by simp [held, empty],
    by simp [empty], trivial⟩

/-- An event that neither releases nor installs a buffer keeps the invariant. -/
theorem Sound.event {m n : Slots S β} (hm : Sound m) (e : MemEvent S)
    (hheld : ∀ t, held n t = held m t) (hnext : n.next = m.next) (htrace : n.trace = e :: m.trace)
    (hrelease : ∀ id, e ≠ .release id) (hstore : ∀ s old id, e ≠ .store s old (some id))
    (he : Allowed m.trace e) : Sound n := by
  have hrel : ∀ id, MemEvent.release id ∈ n.trace ↔ .release id ∈ m.trace := by
    simp [htrace, Ne.symm (hrelease _)]
  refine ⟨?_, ?_, ?_, ?_, ?_, ?_⟩
  · intro t id
    rw [hheld, hnext]
    exact hm.held_lt t id
  · intro id
    rw [hrel, hnext]
    exact hm.released_lt id
  · intro t id
    rw [hheld, hrel]
    exact hm.live t id
  · intro t u id
    rw [hheld, hheld]
    exact hm.unique t u id
  · intro s old id h
    have h : MemEvent.store s old (some id) ∈ m.trace := by
      simpa [htrace, Ne.symm (hstore _ _ _)] using h
    simpa only [hrel, hheld] using hm.settled s old id h
  · rw [htrace]
    exact ⟨he, hm.orderly⟩

theorem Sound.touch {m : Slots S β} (hm : Sound m) (s : S) : Sound (touch s m) := by
  cases hs : held m s with
  | none => simpa [OwnedSlots.touch, hs] using hm
  | some id =>
    exact hm.event (.access id) (fun _ => rfl) rfl (by simp [OwnedSlots.touch, hs])
      (by simp) (by simp) (hm.live s id hs)

variable [DecidableEq S]

/-- `s = malloc(..)`, filled with `v`. Whatever the slot held before is lost. -/
def fill (s : S) (v : β s) (m : Slots S β) : Slots S β :=
  ⟨Function.update m.slot s (some ⟨m.next, v⟩), m.next + 1,
    .store s (held m s) (some m.next) :: m.trace⟩

/-- `s = NULL`. -/
def clear (s : S) (m : Slots S β) : Slots S β :=
  ⟨Function.update m.slot s none, m.next, .store s (held m s) none :: m.trace⟩

/-- `if (s != NULL) { free(s); s = NULL; }` -/
def dispose (s : S) (m : Slots S β) : Slots S β :=
  if (m.slot s).isSome then clear s (release s m) else m

/-- A write through the pointer in `s`. -/
def modify (s : S) (v : β s) (m : Slots S β) : Slots S β :=
  ⟨Function.update m.slot s ((m.slot s).map fun b => ⟨b.id, v⟩), m.next, (touch s m).trace⟩

@[simp] theorem val_fill_self (s : S) (v : β s) (m : Slots S β) : val (fill s v m) s = some v := by
  simp [val, fill]

@[simp] theorem val_fill_ne {s t : S} (h : t ≠ s) (v : β s) (m : Slots S β) :
    val (fill s v m) t = val m t := by
  simp [val, fill, h]

@[simp] theorem val_clear_self (s : S) (m : Slots S β) : val (clear s m) s = none := by
  simp [val, clear]

@[simp] theorem val_clear_ne {s t : S} (h : t ≠ s) (m : Slots S β) :
    val (clear s m) t = val m t := by
  simp [val, clear, h]

@[simp] theorem val_dispose_self (s : S) (m : Slots S β) : val (dispose s m) s = none := by
  unfold dispose
  split
  · exact val_clear_self s _
  · next h => simpa [val] using h

@[simp] theorem val_dispose_ne {s t : S} (h : t ≠ s) (m : Slots S β) :
    val (dispose s m) t = val m t := by
  unfold dispose
  split
  · rw [val_clear_ne h]
    rfl
  · rfl

@[simp] theorem val_modify_self (s : S) (v : β s) (m : Slots S β) :
    val (modify s v m) s = (val m s).map fun _ => v := by
  cases h : m.slot s <;> simp [val, modify, h]

@[simp] theorem val_modify_ne {s t : S} (h : t ≠ s) (v : β s) (m : Slots S β) :
    val (modify s v m) t = val m t := by
  simp [val, modify, h]

theorem held_fill (s t : S) (v : β s) (m : Slots S β) :
    held (fill s v m) t = if t = s then some m.next else held m t := by
  by_cases h : t = s
  · subst h
    simp [held, fill]
  · simp [held, fill, h]

theorem held_clear (s t : S) (m : Slots S β) :
    held (clear s m) t = if t = s then none else held m t := by
  by_cases h : t = s
  · subst h
    simp [held, clear]
  · simp [held, clear, h]

theorem held_modify (s t : S) (v : β s) (m : Slots S β) : held (modify s v m) t = held m t := by
  by_cases h : t = s
  · subst h
    cases hs : m.slot t <;> simp [held, modify, hs]
  · simp [held, modify, h]

theorem Sound.clear {m : Slots S β} (hm : Sound m) {s : S} (hs : val m s = none) :
    Sound (clear s m) := by
  have hnone := held_eq_none hs
  refine hm.event (.store s none none) (fun t => ?_) rfl ?_ (by simp) (by simp) trivial
  · rw [held_clear]
    split
    · next h => rw [h, hnone]
    · rfl
  · simp [OwnedSlots.clear, hnone]

theorem Sound.modify {m : Slots S β} (hm : Sound m) {s : S} (v : β s) : Sound (modify s v m) := by
  cases hs : held m s with
  | none =>
    have hn : m.slot s = none := by simpa [held] using hs
    have he : OwnedSlots.modify s v m = m := by
      simp only [OwnedSlots.modify, OwnedSlots.touch, hs, hn, Option.map_none, Option.toList_none,
        List.nil_append]
      rw [← hn, Function.update_eq_self]
    rwa [he]
  | some id =>
    exact hm.event (.access id) (fun t => held_modify s t v m) rfl
      (by simp [OwnedSlots.modify, OwnedSlots.touch, hs]) (by simp) (by simp) (hm.live s id hs)

theorem Sound.fill {m : Slots S β} (hm : Sound m) {s : S} (v : β s) (hs : val m s = none) :
    Sound (fill s v m) := by
  have hnone := held_eq_none hs
  have hrel : ∀ id, MemEvent.release id ∈ (OwnedSlots.fill s v m).trace ↔ .release id ∈ m.trace := by
    simp [OwnedSlots.fill]
  refine ⟨?_, ?_, ?_, ?_, ?_, ?_⟩
  · intro t id ht
    rw [held_fill] at ht
    split at ht
    · cases ht
      exact Nat.lt_succ_self _
    · exact Nat.lt_succ_of_lt (hm.held_lt t id ht)
  · intro id hid
    exact Nat.lt_succ_of_lt (hm.released_lt id ((hrel id).mp hid))
  · intro t id ht hid
    rw [hrel] at hid
    rw [held_fill] at ht
    split at ht
    · cases ht
      exact absurd (hm.released_lt _ hid) (Nat.lt_irrefl _)
    · exact hm.live t id ht hid
  · intro t u id ht hu
    rw [held_fill] at ht hu
    split at ht <;> split at hu
    · simp_all
    · cases ht
      exact absurd (hm.held_lt u _ hu) (Nat.lt_irrefl _)
    · cases hu
      exact absurd (hm.held_lt t _ ht) (Nat.lt_irrefl _)
    · exact hm.unique t u id ht hu
  · intro t old id h
    obtain h | h := List.mem_cons.mp h
    · cases h
      exact .inr ⟨s, by simp [held_fill]⟩
    · obtain h | ⟨u, hu⟩ := hm.settled t old id h
      · exact .inl (List.mem_cons_of_mem _ h)
      · refine .inr ⟨u, ?_⟩
        have hne : u ≠ s := fun he => by rw [he, hnone] at hu; cases hu
        rw [held_fill, if_neg hne, hu]
  · refine ⟨?_, hm.orderly⟩
    rw [hnone]
    trivial

theorem Sound.dispose {m : Slots S β} (hm : Sound m) (s : S) : Sound (dispose s m) := by
  cases hs : m.slot s with
  | none => simpa [OwnedSlots.dispose, hs] using hm
  | some b =>
    have hb : held m s = some b.id := by simp [held, hs]
    have hd : OwnedSlots.dispose s m = OwnedSlots.clear s (OwnedSlots.release s m) := by
      simp [OwnedSlots.dispose, hs]
    have htrace : (OwnedSlots.dispose s m).trace =
        .store s (some b.id) none :: .release b.id :: m.trace := by
      simp [hd, OwnedSlots.clear, OwnedSlots.release, held, hs]
    have hheld : ∀ t, held (OwnedSlots.dispose s m) t = if t = s then none else held m t := by
      intro t
      rw [hd, held_clear]
      rfl
    have hnext : (OwnedSlots.dispose s m).next = m.next := by
      simp [hd, OwnedSlots.clear, OwnedSlots.release]
    have hrel : ∀ id, MemEvent.release id ∈ (OwnedSlots.dispose s m).trace ↔
        id = b.id ∨ .release id ∈ m.trace := by
      simp [htrace]
    refine ⟨?_, ?_, ?_, ?_, ?_, ?_⟩
    · intro t id ht
      rw [hheld] at ht
      split at ht
      · cases ht
      · exact hnext ▸ hm.held_lt t id ht
    · intro id hid
      rw [hnext]
      obtain rfl | hid := (hrel id).mp hid
      · exact hm.held_lt s b.id hb
      · exact hm.released_lt id hid
    · intro t id ht hid
      rw [hheld] at ht
      split at ht
      · cases ht
      · next hne =>
        obtain rfl | hid := (hrel id).mp hid
        · exact hne (hm.unique t s b.id ht hb)
        · exact hm.live t id ht hid
    · intro t u id ht hu
      rw [hheld] at ht hu
      split at ht
      · cases ht
      · split at hu
        · cases hu
        · exact hm.unique t u id ht hu
    · intro t old id h
      have h : MemEvent.store t old (some id) ∈ m.trace := by simpa [htrace] using h
      rw [hrel]
      obtain h | ⟨u, hu⟩ := hm.settled t old id h
      · exact .inl (.inr h)
      · by_cases hus : u = s
        · rw [hus, hb] at hu
          cases hu
          exact .inl (.inl rfl)
        · exact .inr ⟨u, by rw [hheld, if_neg hus, hu]⟩
    · rw [htrace]
      exact ⟨List.mem_cons_self, hm.live s b.id hb, hm.orderly⟩

theorem orderly_count_le (id : Nat) {tr : List (MemEvent S)} (h : Orderly tr) :
    tr.count (.release id) ≤ 1 := by
  induction tr with
  | nil => simp
  | cons e past ih =>
    by_cases he : e = .release id
    · subst he
      have hnot : MemEvent.release id ∉ past := h.1
      rw [List.count_cons_self, List.count_eq_zero_of_not_mem hnot]
    · rw [List.count_cons_of_ne he]
      exact ih h.2

/-- Once every slot is null again, each buffer ever stored was released once. -/
theorem Sound.released_once {m : Slots S β} (hm : Sound m) (hnull : ∀ s, val m s = none)
    {s : S} {old : Option Nat} {id : Nat} (h : .store s old (some id) ∈ m.trace) :
    m.trace.count (.release id) = 1 := by
  have hmem : MemEvent.release id ∈ m.trace := by
    obtain h | ⟨t, ht⟩ := hm.settled s old id h
    · exact h
    · rw [held_eq_none (hnull t)] at ht
      cases ht
  have hle := orderly_count_le id hm.orderly
  have hpos := List.count_pos_iff.mpr hmem
  omega

end FtTraceroute.Library.OwnedSlots

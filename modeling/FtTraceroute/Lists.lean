import FtTraceroute.Library.Linked

namespace FtTraceroute.Lists

open Library.Ram Library.Linked

/-- `t_list`. A pointer is the address it holds, or `none` for `NULL`. -/
structure TList where
  content : Option Nat
  contentSize : Nat
  next : Option Nat

/-- The variable `*alst` of the caller, the nodes that are allocated, and what else the
functions that are handed over work on. -/
structure World (σ : Type) where
  head : Option Nat
  cells : Cells TList
  env : σ

/-- What a `t_list **` points to. -/
inductive Place
  | head
  | next (a : Nat)

variable {σ : Type}

def load : Place → World σ → Option (Option Nat)
  | .head, w => some w.head
  | .next a, w => (w.cells a).map TList.next

def assign (p : Option Nat) : Place → World σ → Option (World σ)
  | .head, w => some { w with head := p }
  | .next a, w => (w.cells a).bind fun x =>
    (store a { x with next := p } w.cells).map fun cells => { w with cells := cells }

/-- `free` of a node, which must be allocated. -/
def freeNode (a : Nat) (w : World σ) : Option (World σ) :=
  (w.cells a).map fun _ => { w with cells := Function.update w.cells a none }

def ftLstadd (alst : Place) (new : Nat) (w : World σ) : Option (World σ) := do
  let first ← load alst w
  let w ← assign first (.next new) w
  assign (some new) alst w

/-- A result `none` is a fault: a null pointer, a node that is not allocated, or more calls
inside each other than the stack has room for, which is `depth`. -/
def ftLstiter (f : Nat → World σ → Option (World σ)) :
    Nat → Option Nat → World σ → Option (World σ)
  | 0, _, _ => none
  | _ + 1, none, w => some w
  | depth + 1, some lst, w => do
    let elem ← w.cells lst
    if elem.next.isSome then
      let w ← ftLstiter f depth elem.next w
      f lst w
    else f lst w

def ftLstdelone (del : Option Nat → Nat → σ → σ) (alst : Place) (w : World σ) :
    Option (World σ) := do
  let lst ← load alst w
  let a ← lst
  let elem ← w.cells a
  let w ← freeNode a { w with env := del elem.content elem.contentSize w.env }
  assign none alst w

def ftLstdel (del : Option Nat → Nat → σ → σ) : Nat → Option Place → World σ → Option (World σ)
  | 0, _, _ => none
  | _ + 1, none, w => some w
  | depth + 1, some alst, w => do
    let lst ← load alst w
    let a ← lst
    let elem ← w.cells a
    if elem.next.isSome then
      let w ← ftLstdel del depth (some (.next a)) w
      ftLstdelone del alst w
    else ftLstdelone del alst w

/-- The results of `f` and of the function itself are pointers. -/
def ftLstmap (f : Nat → World σ → Option (Option Nat × World σ)) :
    Nat → Option Nat → World σ → Option (Option Nat × World σ)
  | 0, _, _ => none
  | _ + 1, none, w => some (none, w)
  | depth + 1, some lst, w => do
    let (fresh, w) ← f lst w
    let elem ← w.cells lst
    if elem.next.isSome then
      let (rest, w) ← ftLstmap f depth elem.next w
      let a ← fresh
      let w ← assign rest (.next a) w
      pure (fresh, w)
    else pure (fresh, w)

def nodes : List (Nat × TList) := [(7, ⟨some 70, 1, some 3⟩), (3, ⟨some 30, 2, none⟩)]

def twoNodes (env : σ) : World σ where
  head := some 7
  cells := fun a => if a = 7 then some ⟨some 70, 1, some 3⟩ else
    if a = 3 then some ⟨some 30, 2, none⟩ else none
  env := env

theorem twoNodes_chain (env : σ) : Chain TList.next (twoNodes env).cells (some 7) nodes :=
  ⟨rfl, rfl, rfl, rfl, rfl⟩

variable {f : Nat → World σ → Option (World σ)} {del : Option Nat → Nat → σ → σ} {depth a : Nat}
  {p : Option Nat} {w : World σ} {x : TList} {xs ys : List (Nat × TList)} {alst : Place}

theorem next_isSome (h : Chain TList.next w.cells x.next xs) : x.next.isSome ↔ xs ≠ [] := by
  cases xs with
  | nil =>
    change x.next = none at h
    simp [h]
  | cons y ys => simp [h.1]

/-- All calls inside each other are made before the first call of `f`, so what `f` does to
the nodes is of no consequence. -/
theorem lstiter_backwards (h : Chain TList.next w.cells p xs) (hdepth : xs.length ≤ depth) :
    ftLstiter f (depth + 1) p w = (addresses xs).reverse.foldlM (fun w a => f a w) w := by
  induction xs generalizing depth p with
  | nil =>
    change p = none at h
    rw [h]
    rfl
  | cons x xs ih =>
    obtain ⟨rfl, hx, hxs⟩ := h
    have hnext := next_isSome hxs
    have hrec : (addresses (x :: xs)).reverse.foldlM (fun w a => f a w) w =
        (addresses xs).reverse.foldlM (fun w a => f a w) w >>= f x.1 := by
      rw [addresses_cons, List.reverse_cons, List.foldlM_append]
      congr 1
      funext w
      exact bind_pure (f x.1 w)
    rw [ftLstiter, hx, Option.bind_eq_bind, Option.bind_some, hrec]
    by_cases hend : xs = []
    · rw [if_neg (by simp [hnext, hend]), hend]
      rfl
    · obtain ⟨depth, rfl⟩ := Nat.exists_eq_add_one.mpr
        (lt_of_lt_of_le (Nat.succ_pos _) hdepth)
      rw [if_pos (hnext.mpr hend), ih hxs (Nat.le_of_succ_le_succ hdepth)]

/-- The addresses in the order of the calls. -/
theorem lstiter_backwards_twoNodes :
    ftLstiter (fun a w => some { w with env := w.env ++ [a] }) 3 (some 7) (twoNodes []) =
      (addresses nodes).reverse.foldlM (fun w a => some { w with env := w.env ++ [a] })
        (twoNodes []) :=
  lstiter_backwards (twoNodes_chain []) le_rfl

theorem lstdelone_eq (hload : load alst w = some (some a)) (hx : w.cells a = some x) :
    ftLstdelone del alst w = assign none alst
      ⟨w.head, release [a] w.cells, del x.content x.contentSize w.env⟩ := by
  have hcells : Function.update w.cells a none = release [a] w.cells := by
    funext b
    rw [Function.update_apply, release]
    simp
  simp [ftLstdelone, hload, hx, freeNode, hcells]

theorem load_frame (cells : Cells TList) (env : σ)
    (hsame : ∀ b, alst = .next b → cells b = w.cells b) :
    load alst ⟨w.head, cells, env⟩ = load alst w := by
  cases alst with
  | head => rfl
  | next b => exact congrArg (Option.map TList.next) (hsame b rfl)

theorem assign_next (hx : w.cells a = some x) : assign p (.next a) w =
    some ⟨w.head, Function.update w.cells a (some { x with next := p }), w.env⟩ := by
  rw [assign, hx, Option.bind_some, store_mapped (by rw [hx]; rfl), Option.map_some]

theorem lstdel_eq (h : Chain TList.next w.cells p xs) (hne : xs ≠ [])
    (hload : load alst w = some p) (hout : ∀ b, alst = .next b → b ∉ addresses xs)
    (hdepth : xs.length ≤ depth) : ftLstdel del (depth + 1) (some alst) w = assign none alst
      ⟨w.head, release (addresses xs) w.cells,
        xs.foldr (fun x env => del x.2.content x.2.contentSize env) w.env⟩ := by
  induction xs generalizing depth p w alst with
  | nil => exact absurd rfl hne
  | cons x xs ih =>
    obtain ⟨rfl, hx, hxs⟩ := h
    have hnext := next_isSome hxs
    have hback : x.1 ∉ addresses xs := by
      have hwhole : Chain TList.next w.cells (some x.1) (x :: xs) := ⟨rfl, hx, hxs⟩
      exact (List.nodup_cons.mp (chain_nodup hwhole)).1
    rw [ftLstdel, hload]
    simp only [Option.bind_eq_bind, Option.bind_some, hx]
    by_cases hend : xs = []
    · rw [if_neg (by simp [hnext, hend]), lstdelone_eq hload hx, hend]
      rfl
    · obtain ⟨depth, rfl⟩ := Nat.exists_eq_add_one.mpr
        (lt_of_lt_of_le (Nat.succ_pos _) hdepth)
      have hnode : load (.next x.1) w = some x.2.next := by rw [load, hx, Option.map_some]
      have hrest := ih hxs hend hnode (fun b hb => by rwa [← Place.next.inj hb])
        (Nat.le_of_succ_le_succ hdepth)
      have hkept : release (addresses xs) w.cells x.1 = some x.2 := by rw [release, if_neg hback, hx]
      have hframe : ∀ b, alst = .next b →
          Function.update (release (addresses xs) w.cells) x.1 (some { x.2 with next := none }) b =
            w.cells b := fun b hb => by
        have hb := hout b hb
        rw [addresses_cons, List.mem_cons, not_or] at hb
        obtain ⟨hfirst, hlater⟩ := hb
        rw [Function.update_of_ne hfirst, release, if_neg hlater]
      rw [if_pos (hnext.mpr hend), hrest, assign_next hkept, Option.bind_some,
        lstdelone_eq ((load_frame _ _ hframe).trans hload) (Function.update_self _ _ _)]
      congr 2
      funext b
      by_cases hb : b = x.1
      · simp [release, hb]
      · simp [release, hb]

/-- `ft_lstdel` frees every node once, the last one first, after `del` has had its content,
and nothing else; the pointer to the list is then null. It faults on an empty list. -/
theorem lstdel_frees (del : Option Nat → Nat → σ → σ) (h : Chain TList.next w.cells w.head xs)
    (hdepth : xs.length ≤ depth) : ftLstdel del (depth + 1) (some .head) w =
      if xs = [] then none
      else some ⟨none, release (addresses xs) w.cells,
        xs.foldr (fun x env => del x.2.content x.2.contentSize env) w.env⟩ := by
  split
  · next hempty =>
    rw [hempty] at h
    change w.head = none at h
    simp [ftLstdel, load, h]
  · next hne => rw [lstdel_eq h hne rfl (fun b hb => by cases hb) hdepth, assign]

theorem lstdel_frees_twoNodes :
    ftLstdel (fun content size env => (content, size) :: env) 3 (some .head) (twoNodes []) =
      if nodes = [] then none
      else some ⟨none, release (addresses nodes) (twoNodes ()).cells,
        nodes.foldr (fun x env => (x.2.content, x.2.contentSize) :: env) []⟩ :=
  lstdel_frees _ (twoNodes_chain []) le_rfl

/-- What `f` has to do for `ft_lstmap`: as long as `ready` holds it allocates a node that is
not linked yet, and `ready` goes on to hold. -/
def Copies (ready : World σ → Prop) (f : Nat → World σ → Option (Option Nat × World σ))
    (g : TList → TList) : Prop :=
  ∀ a x w, ready w → w.cells a = some x → ∃ b env, w.cells b = none ∧
    f a w = some (some b, ⟨w.head, Function.update w.cells b (some (g x)), env⟩) ∧
    ready ⟨w.head, Function.update w.cells b (some (g x)), env⟩

def unlinked (x : TList) : TList := { x with next := none }

/-- `ft_lstmap` returns a list of the nodes that `f` allocates, in order, and leaves the
nodes that were there as they are. -/
theorem lstmap_copies {f : Nat → World σ → Option (Option Nat × World σ)} {g : TList → TList}
    {ready : World σ → Prop} (hf : Copies ready f g) (hg : ∀ x, (g x).next = none)
    (hw : ready w) (h : Chain TList.next w.cells p xs) (hdepth : xs.length ≤ depth) :
    ∃ q w' ys, ftLstmap f (depth + 1) p w = some (q, w') ∧ Chain TList.next w'.cells q ys ∧
      ys.map (unlinked ∘ Prod.snd) = xs.map (g ∘ Prod.snd) ∧
      (∀ a ∈ addresses ys, w.cells a = none) ∧ ∀ a, (w.cells a).isSome → w'.cells a = w.cells a := by
  induction xs generalizing depth p w with
  | nil =>
    change p = none at h
    rw [h]
    exact ⟨none, w, [], rfl, rfl, rfl, fun a ha => absurd ha List.not_mem_nil, fun _ _ => rfl⟩
  | cons x xs ih =>
    obtain ⟨rfl, hx, hxs⟩ := h
    obtain ⟨b, env, hb, hcall, hready⟩ := hf x.1 x.2 w hw hx
    have hother : ∀ a, (w.cells a).isSome → Function.update w.cells b (some (g x.2)) a = w.cells a :=
      fun a ha => Function.update_of_ne (fun hab => by simp [hab, hb] at ha) _ _
    have hnext := next_isSome hxs
    rw [ftLstmap, hcall]
    simp only [Option.bind_eq_bind, Option.bind_some]
    rw [hother x.1 (by rw [hx]; rfl), hx, Option.bind_some]
    by_cases hend : xs = []
    · refine ⟨some b, _, [(b, g x.2)], if_neg (by simp [hnext, hend]), ⟨rfl, ?_, hg x.2⟩, ?_, ?_,
        hother⟩
      · exact Function.update_self _ _ _
      · simp [hend, unlinked, ← hg x.2]
      · intro a ha
        rwa [List.mem_singleton.mp ha]
    · obtain ⟨depth, rfl⟩ := Nat.exists_eq_add_one.mpr
        (lt_of_lt_of_le (Nat.succ_pos _) hdepth)
      have hchain : Chain TList.next (Function.update w.cells b (some (g x.2))) x.2.next xs :=
        chain_frame hxs fun a ha => hother a (chain_mapped hxs ha)
      obtain ⟨q, w', ys, hrec, hys, hdata, hfresh, hkept⟩ := ih (p := x.2.next)
        (w := ⟨w.head, Function.update w.cells b (some (g x.2)), env⟩) hready hchain
        (Nat.le_of_succ_le_succ hdepth)
      dsimp only at hfresh hkept
      have hnode : w'.cells b = some (g x.2) := by
        rw [hkept b (by simp), Function.update_self]
      have hout : b ∉ addresses ys := fun hmem => by
        have hnone := hfresh b hmem
        simp at hnone
      refine ⟨some b, ⟨w'.head, Function.update w'.cells b (some { g x.2 with next := q }), w'.env⟩,
        (b, { g x.2 with next := q }) :: ys, ?_, ⟨rfl, Function.update_self _ _ _, ?_⟩, ?_, ?_, ?_⟩
      · rw [if_pos (hnext.mpr hend), hrec]
        simp [assign_next hnode]
      · refine chain_frame hys fun a ha => Function.update_of_ne ?_ _ _
        rintro rfl
        exact hout ha
      · rw [List.map_cons, List.map_cons, hdata]
        simp [unlinked, ← hg x.2]
      · intro a ha
        obtain rfl | ha := List.mem_cons.mp ha
        · exact hb
        · have hnone := hfresh a ha
          rw [Function.update_apply] at hnone
          split at hnone
          · cases hnone
          · exact hnone
      · intro a ha
        have hab : a ≠ b := fun hab => by simp [hab, hb] at ha
        have hsame := hother a ha
        exact (Function.update_of_ne hab _ _).trans
          ((hkept a (by simpa only [hsame] using ha)).trans hsame)

/-- An allocator that counts upwards, and a copy with the size doubled. -/
def double (a : Nat) (w : World Nat) : Option (Option Nat × World Nat) :=
  (w.cells a).map fun x => (some w.env,
    ⟨w.head, Function.update w.cells w.env (some ⟨x.content, 2 * x.contentSize, none⟩), w.env + 1⟩)

theorem double_copies : Copies (fun w => ∀ a, w.env ≤ a → w.cells a = none) double
    fun x => ⟨x.content, 2 * x.contentSize, none⟩ := by
  intro a x w hready hx
  refine ⟨w.env, w.env + 1, hready w.env le_rfl, by rw [double, hx, Option.map_some], fun b hb => ?_⟩
  dsimp only at hb ⊢
  rw [Function.update_of_ne (by omega)]
  exact hready b (by omega)

theorem twoNodes_ready (a : Nat) (ha : (twoNodes 8).env ≤ a) : (twoNodes 8).cells a = none := by
  change 8 ≤ a at ha
  change (if a = 7 then _ else if a = 3 then _ else none) = none
  rw [if_neg (by omega), if_neg (by omega)]

theorem lstmap_copies_twoNodes :
    ∃ q w' ys, ftLstmap double 3 (some 7) (twoNodes 8) = some (q, w') ∧
      Chain TList.next w'.cells q ys ∧
      ys.map (unlinked ∘ Prod.snd) =
        nodes.map ((fun x => ⟨x.content, 2 * x.contentSize, none⟩) ∘ Prod.snd) ∧
      (∀ a ∈ addresses ys, (twoNodes 8).cells a = none) ∧
      ∀ a, ((twoNodes 8).cells a).isSome → w'.cells a = (twoNodes 8).cells a :=
  lstmap_copies double_copies (fun _ => rfl) twoNodes_ready (twoNodes_chain 8) le_rfl

/-- A chain that went through a node still gets there when the node is linked elsewhere. -/
theorem reaches_relinked {cells : Cells TList} {y : TList} (h : Chain TList.next cells p xs)
    (ha : a ∈ addresses xs) (h' : Chain TList.next (Function.update cells a (some y)) p ys) :
    a ∈ addresses ys := by
  induction xs generalizing p ys with
  | nil => cases ha
  | cons x xs ih =>
    obtain ⟨rfl, hx, hxs⟩ := h
    cases ys with
    | nil => cases h'
    | cons z ys =>
      obtain ⟨haddress, hz, hys⟩ := h'
      have haddress := Option.some_inj.mp haddress
      by_cases hfirst : x.1 = a
      · rw [addresses_cons, ← haddress, hfirst]
        exact List.mem_cons_self
      · have ha : a ∈ addresses xs := by
          obtain heq | ha := List.mem_cons.mp ha
          · exact absurd heq.symm hfirst
          · exact ha
        rw [← haddress, Function.update_of_ne hfirst, hx, Option.some_inj] at hz
        rw [← hz] at hys
        exact List.mem_cons_of_mem _ (ih hxs ha hys)

/-- `ft_lstadd` puts a node in front of the list. If the node is in the list already, what
it leaves has no end. -/
theorem lstadd_front {new : Nat} (h : Chain TList.next w.cells w.head xs)
    (hx : w.cells new = some x) : ∃ w', ftLstadd .head new w = some w' ∧
      ((∃ ys, Chain TList.next w'.cells w'.head ys) ↔ new ∉ addresses xs) ∧
      (new ∉ addresses xs →
        Chain TList.next w'.cells w'.head ((new, { x with next := w.head }) :: xs)) := by
  have hadd : ftLstadd .head new w = some
      ⟨some new, Function.update w.cells new (some { x with next := w.head }), w.env⟩ := by
    rw [ftLstadd, load, Option.bind_eq_bind, Option.bind_some, assign_next hx]
    rfl
  have hfront (hnew : new ∉ addresses xs) :
      Chain TList.next (Function.update w.cells new (some { x with next := w.head })) (some new)
        ((new, { x with next := w.head }) :: xs) := by
    refine ⟨rfl, Function.update_self _ _ _, chain_frame h fun a ha => ?_⟩
    refine Function.update_of_ne ?_ _ _
    rintro rfl
    exact hnew ha
  refine ⟨_, hadd, ⟨?_, fun hnew => ⟨_, hfront hnew⟩⟩, hfront⟩
  rintro ⟨ys, hys⟩ hnew
  have hnodup := chain_nodup hys
  cases ys with
  | nil => cases hys
  | cons y ys =>
    obtain ⟨haddress, hy, hrest⟩ := hys
    have haddress := Option.some_inj.mp haddress
    dsimp only at hy hrest
    rw [← haddress, Function.update_self, Option.some_inj] at hy
    rw [← hy] at hrest
    rw [addresses_cons, ← haddress] at hnodup
    exact (List.nodup_cons.mp hnodup).1 (reaches_relinked h hnew hrest)

theorem lstadd_front_twoNodes : ∃ w', ftLstadd .head 3 (twoNodes ()) = some w' ∧
    ((∃ ys, Chain TList.next w'.cells w'.head ys) ↔ 3 ∉ addresses nodes) ∧
    (3 ∉ addresses nodes →
      Chain TList.next w'.cells w'.head ((3, ⟨some 30, 2, some 7⟩) :: nodes)) := by
  have hlast : (twoNodes ()).cells 3 = some ⟨some 30, 2, none⟩ := rfl
  exact lstadd_front (twoNodes_chain ()) hlast

end FtTraceroute.Lists

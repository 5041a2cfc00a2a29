import Mathlib

namespace FtTraceroute.Library.Path

variable {Node Packet : Type*}

/-- Packets that carry an address and the number of nodes they may still reach. -/
structure Carrier (Node Packet : Type*) where
  target : Packet → Node
  limit : Packet → Nat
  age : Packet → Packet
  target_age : ∀ p, target (age p) = target p
  limit_age : ∀ p, 1 < limit p → limit (age p) = limit p - 1

/-- A way to `dest`: the routers in order, none of which is the destination. -/
structure Route (dest : Node) where
  routers : List Node
  notMem : dest ∉ routers

namespace Route

variable {dest : Node} (r : Route dest)

def nodes : List Node := r.routers ++ [dest]

def distance : Nat := r.routers.length + 1

/-- The `t`-th node of the way, counted from 1, and the destination from there on. -/
def node (t : Nat) : Node := r.routers.getD (t - 1) dest

theorem node_of_distance_le {t : Nat} (ht : r.distance ≤ t) : r.node t = dest := by
  rw [distance] at ht
  rw [node, List.getD_eq_default]
  omega

theorem node_mem_routers {t : Nat} (h : 1 ≤ t) (ht : t < r.distance) : r.node t ∈ r.routers := by
  rw [distance] at ht
  have hlt : t - 1 < r.routers.length := by omega
  rw [node, List.getD_eq_getElem _ _ hlt]
  exact List.getElem_mem hlt

theorem node_eq_dest_iff {t : Nat} (h : 1 ≤ t) : r.node t = dest ↔ r.distance ≤ t := by
  constructor
  · intro heq
    by_contra hlt
    have hmem := r.node_mem_routers h (not_le.mp hlt)
    rw [heq] at hmem
    exact r.notMem hmem
  · exact r.node_of_distance_le

theorem map_node {n : Nat} (hn : n ≤ r.distance) :
    ((List.range n).map fun k => r.node (k + 1)) = r.nodes.take n := by
  rw [distance] at hn
  apply List.ext_getElem
  · simp [nodes, hn]
  · intro k hk hk'
    rw [List.getElem_map, List.getElem_range, List.getElem_take, node, Nat.add_sub_cancel]
    simp only [List.length_map, List.length_range] at hk
    by_cases hlt : k < r.routers.length
    · rw [List.getD_eq_getElem _ _ hlt]
      exact (List.getElem_append_left hlt).symm
    · obtain rfl : k = r.routers.length := by omega
      rw [List.getD_eq_default _ _ le_rfl]
      simp [nodes]

end Route

inductive Fate (Node Packet : Type*)
  | delivered (node : Node) (p : Packet)
  | expired (node : Node) (p : Packet)
  | lost

variable [DecidableEq Node] (c : Carrier Node Packet)

/-- A packet goes from node to node. The one it is for takes it, every other one hands
it on a hop older, or drops it when its limit is used up. -/
def forward : List Node → Packet → Fate Node Packet
  | [], _ => .lost
  | node :: nodes, p =>
    if c.target p = node then .delivered node p
    else if c.limit p ≤ 1 then .expired node p
    else forward nodes (c.age p)

variable {c} {p : Packet} {nodes rest : List Node}

omit [DecidableEq Node] in
theorem target_iterate (k : Nat) : c.target (c.age^[k] p) = c.target p := by
  induction k with
  | zero => rfl
  | succ k ih => rw [Function.iterate_succ_apply', c.target_age, ih]

omit [DecidableEq Node] in
theorem limit_iterate {k : Nat} (hk : k < c.limit p) : c.limit (c.age^[k] p) = c.limit p - k := by
  induction k with
  | zero => rfl
  | succ k ih =>
    have hlimit := ih (Nat.lt_of_succ_lt hk)
    rw [Function.iterate_succ_apply', c.limit_age _ (by omega), hlimit]
    omega

/-- A packet with enough hops left passes the nodes that it is not for. -/
theorem forward_append (htarget : c.target p ∉ nodes) (hlimit : nodes.length < c.limit p) :
    forward c (nodes ++ rest) p = forward c rest (c.age^[nodes.length] p) := by
  induction nodes generalizing p with
  | nil => rfl
  | cons node nodes ih =>
    rw [List.mem_cons, not_or] at htarget
    rw [List.length_cons] at hlimit
    have hage : nodes.length < c.limit (c.age p) := by
      rw [c.limit_age p (by omega)]
      omega
    have hnext : c.target (c.age p) ∉ nodes := by
      rw [c.target_age]
      exact htarget.2
    rw [List.cons_append, forward, if_neg htarget.1, if_neg (by omega), ih hnext hage,
      List.length_cons, Function.iterate_succ_apply]

variable {dest : Node} {r : Route dest}

theorem forward_delivered (htarget : c.target p = dest) (hlimit : r.distance ≤ c.limit p) :
    forward c r.nodes p = .delivered dest (c.age^[r.routers.length] p) := by
  have hmem : c.target p ∉ r.routers := fun h => r.notMem (by rwa [htarget] at h)
  rw [Route.nodes, forward_append hmem hlimit, forward, target_iterate, if_pos htarget]

theorem forward_expired (htarget : c.target p = dest) (hpos : 1 ≤ c.limit p)
    (hlimit : c.limit p < r.distance) :
    forward c r.nodes p = .expired (r.node (c.limit p)) (c.age^[c.limit p - 1] p) := by
  rw [Route.distance] at hlimit
  have hlast : c.limit p - 1 < r.routers.length := by omega
  have hsplit : r.nodes = r.routers.take (c.limit p - 1) ++
      r.node (c.limit p) :: (r.routers.drop (c.limit p) ++ [dest]) := by
    have hdrop := List.drop_eq_getElem_cons hlast
    rw [Nat.sub_add_cancel hpos] at hdrop
    rw [Route.nodes, Route.node, List.getD_eq_getElem _ _ hlast, ← List.cons_append, ← hdrop,
      ← List.append_assoc, List.take_append_drop]
  have hnode : c.target p ≠ r.node (c.limit p) := by
    rw [htarget]
    intro heq
    have hmem := r.node_mem_routers hpos hlimit
    rw [← heq] at hmem
    exact r.notMem hmem
  have htake : c.target p ∉ r.routers.take (c.limit p - 1) := fun h =>
    r.notMem (List.mem_of_mem_take (by rwa [htarget] at h))
  have hlength : (r.routers.take (c.limit p - 1)).length = c.limit p - 1 := by
    rw [List.length_take]
    omega
  rw [hsplit, forward_append htake (by omega), hlength, forward, target_iterate, if_neg hnode,
    limit_iterate (by omega), if_pos (by omega)]

end FtTraceroute.Library.Path

import Mathlib

namespace FtTraceroute.Library.Loops

universe u v

variable {ε : Type u} {σ α β : Type v}

@[simp] theorem ok_bind (a : α) (f : α → Except ε β) : (Except.ok a >>= f) = f a := rfl

theorem bind_eq_ok {x : Except ε α} {f : α → Except ε β} {b : β} :
    (x >>= f) = .ok b ↔ ∃ a, x = .ok a ∧ f a = .ok b := by
  cases x with
  | error e => simp [bind, Except.bind]
  | ok a => simp

theorem cons_eq_ok {x : Except ε (List α)} {a : α} {as : List α} :
    (x >>= fun rest => .ok (a :: rest)) = .ok (a :: as) ↔ x = .ok as := by
  rw [bind_eq_ok]
  simp

/-- Total-correctness rule for a `for` loop over a list. The assertion is
indexed by the elements already handled. -/
theorem foldlM_ok {f : σ → α → Except ε σ} (P : List α → σ → Prop) (xs : List α)
    (hstep : ∀ past x rest s, xs = past ++ x :: rest → P past s →
      ∃ t, f s x = .ok t ∧ P (past ++ [x]) t)
    {s : σ} (h : P [] s) : ∃ t, xs.foldlM f s = .ok t ∧ P xs t := by
  suffices hgo : ∀ rest past s, xs = past ++ rest → P past s →
      ∃ t, rest.foldlM f s = .ok t ∧ P xs t from hgo xs [] s rfl h
  intro rest
  induction rest with
  | nil =>
    intro past s he hp
    rw [List.append_nil] at he
    exact ⟨s, rfl, he ▸ hp⟩
  | cons x rest ih =>
    intro past s he hp
    obtain ⟨t, ht, hpt⟩ := hstep past x rest s he hp
    obtain ⟨u, hu, hpu⟩ := ih (past ++ [x]) t (by simp [he]) hpt
    exact ⟨u, by rw [List.foldlM_cons, ht]; exact hu, hpu⟩

/-- `while (test) body`, stopped with `stuck` when the fuel runs out. -/
def whileM (test : σ → Bool) (body : σ → Except ε σ) (stuck : ε) : Nat → σ → Except ε σ
  | 0, _ => .error stuck
  | fuel + 1, s => if test s then body s >>= whileM test body stuck fuel else .ok s

/-- The states in which the loop entered at `s` evaluates its test. -/
inductive Visits (test : σ → Bool) (body : σ → Except ε σ) (s : σ) : σ → Prop
  | here : Visits test body s s
  | next {t u : σ} : Visits test body s t → test t = true → body t = .ok u →
      Visits test body s u

variable {test : σ → Bool} {body : σ → Except ε σ} {P : Nat → σ → Prop}

theorem visits_cons {s t u : σ} (ht : test s = true) (hb : body s = .ok t)
    (h : Visits test body t u) : Visits test body s u := by
  induction h with
  | here => exact .next .here ht hb
  | next _ htest hbody ih => exact .next ih htest hbody

theorem visits_inv
    (hstep : ∀ n s t, P n s → test s = true → body s = .ok t → P (n + 1) t)
    {n : Nat} {s t : σ} (h : P n s) (hv : Visits test body s t) : ∃ m, n ≤ m ∧ P m t := by
  induction hv with
  | here => exact ⟨n, le_rfl, h⟩
  | next _ ht hb ih =>
    obtain ⟨m, hm, hp⟩ := ih
    exact ⟨m + 1, by omega, hstep m _ _ hp ht hb⟩

/-- Total-correctness rule for `whileM`: an assertion that counts the turns and
bounds them. Every turn before the last one entered the body. -/
theorem whileM_ok {limit : Nat} (stuck : ε)
    (hbound : ∀ n s, P n s → test s = true → n < limit)
    (hstep : ∀ n s, P n s → test s = true → ∃ t, body s = .ok t ∧ P (n + 1) t)
    (fuel : Nat) {n : Nat} {s : σ} (h : P n s) (hfuel : limit < n + fuel) (hn : n ≤ limit) :
    ∃ m t, n ≤ m ∧ m ≤ limit ∧ whileM test body stuck fuel s = .ok t ∧ P m t ∧ test t = false ∧
      Visits test body s t ∧ ∀ k, n ≤ k → k < m → ∃ u, P k u ∧ test u = true := by
  induction fuel generalizing n s with
  | zero => omega
  | succ fuel ih =>
    cases ht : test s with
    | false =>
      exact ⟨n, s, le_rfl, hn, by simp [whileM, ht], h, ht, .here, fun k hk hkn => by omega⟩
    | true =>
      have hlt := hbound n s h ht
      obtain ⟨u, hu, hpu⟩ := hstep n s h ht
      obtain ⟨m, t, hnm, hm, hw, hp, hf, hv, hall⟩ := ih hpu (by omega) hlt
      refine ⟨m, t, by omega, hm, ?_, hp, hf, visits_cons ht hu hv, ?_⟩
      · rw [whileM, if_pos ht, hu]
        exact hw
      · intro k hk hkm
        obtain rfl | hk := Nat.eq_or_lt_of_le hk
        · exact ⟨s, h, ht⟩
        · exact hall k hk hkm

end FtTraceroute.Library.Loops

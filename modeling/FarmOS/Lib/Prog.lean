import Mathlib.Algebra.BigOperators.Ring.Finset

/-! Stateful programs that may fail, and their weakest preconditions. -/

namespace FarmOS.Lib

variable {σ ε α β : Type}

abbrev Prog (σ ε α : Type) := StateT σ (Except ε) α

@[irreducible] def wp (c : Prog σ ε α) (Q : α → σ → Prop) (E : ε → Prop) (s : σ) : Prop :=
  match c.run s with
  | .ok (a, s') => Q a s'
  | .error e => E e

section Rules

variable {c : Prog σ ε α} {f : α → Prog σ ε β} {Q Q' : α → σ → Prop} {R : β → σ → Prop}
  {E E' : ε → Prop} {s s' : σ} {a : α}

lemma wp_ok (h : c.run s = .ok (a, s')) : wp c Q E s ↔ Q a s' := by rw [wp, h]

def Prog.next (c : Prog σ ε α) (s : σ) : Option σ :=
  match c.run s with
  | .ok (_, s') => some s'
  | .error _ => none

lemma run_of_next {c : Prog σ ε Unit} (h : Prog.next c s = some s') : c.run s = .ok ((), s') := by
  unfold Prog.next at h
  split at h
  · next _ _ hs =>
      rw [Option.some_inj] at h
      exact h ▸ hs
  · cases h

lemma wp_of_ok (h : wp c Q E s) (hc : c.run s = .ok (a, s')) : Q a s' := (wp_ok hc).mp h

lemma wp_of_error {e : ε} (h : wp c Q E s) (hc : c.run s = .error e) : E e := by
  rw [wp, hc] at h
  exact h

lemma wp_total (h : wp c Q (fun _ => False) s) : ∃ a s', c.run s = .ok (a, s') ∧ Q a s' := by
  unfold wp at h
  split at h
  · next a s' hc => exact ⟨a, s', hc, h⟩
  · exact h.elim

lemma wp_mono (h : wp c Q E s) (hQ : ∀ a s', Q a s' → Q' a s') : wp c Q' E s := by
  unfold wp at h ⊢
  split at h
  · exact hQ _ _ h
  · exact h

lemma wp_mono_error (h : wp c Q E s) (hE : ∀ e, E e → E' e) : wp c Q E' s := by
  unfold wp at h ⊢
  split at h
  · exact h
  · exact hE _ h

lemma wp_any (h : ∀ a s', Q a s') : wp c Q (fun _ => True) s := by
  unfold wp
  split
  · exact h _ _
  · exact trivial

lemma wp_both {R : α → σ → Prop} {E1 : ε → Prop} (h : wp c Q E s) (h' : wp c Q' E' s)
    (hR : ∀ a s', Q a s' → Q' a s' → R a s') (hE : ∀ e, E e → E' e → E1 e) : wp c R E1 s := by
  unfold wp at h h' ⊢
  split at h <;> next hc =>
    rw [hc] at h'
    first | exact hR _ _ h h' | exact hE _ h h'

lemma wp_and (h : wp c Q E s) (h' : wp c Q' E' s) : wp c (fun a s' => Q a s' ∧ Q' a s') E s :=
  wp_both h h' (fun _ _ => .intro) fun _ he _ => he

@[simp] lemma wp_pure : wp (pure a) Q E s ↔ Q a s := by
  unfold wp
  exact Iff.rfl

@[simp] lemma wp_bind : wp (c >>= f) R E s ↔ wp c (fun a s' => wp (f a) R E s') E s := by
  unfold wp
  change (match StateT.run (StateT.bind c f) s with | .ok (b, s') => R b s' | .error e => E e) ↔ _
  unfold StateT.bind StateT.run
  simp only [bind, Except.bind]
  cases c s with
  | error e => rfl
  | ok x => rfl

lemma wp_seq (h : wp c Q E s) (hf : ∀ a s', Q a s' → wp (f a) R E s') : wp (c >>= f) R E s :=
  wp_bind.mpr (wp_mono h hf)

@[simp] lemma wp_get {Q : σ → σ → Prop} : wp (get : Prog σ ε σ) Q E s ↔ Q s s := by
  unfold wp
  exact Iff.rfl

@[simp] lemma wp_set {Q : Unit → σ → Prop} : wp (set s' : Prog σ ε Unit) Q E s ↔ Q () s' := by
  unfold wp
  exact Iff.rfl

@[simp] lemma wp_modify {g : σ → σ} {Q : Unit → σ → Prop} : wp (modify g : Prog σ ε Unit) Q E s ↔ Q () (g s) := by
  unfold wp
  exact Iff.rfl

@[simp] lemma wp_throw {e : ε} : wp (throw e : Prog σ ε α) Q E s ↔ E e := by
  unfold wp
  exact Iff.rfl

lemma wp_ite {p : Prop} [Decidable p] {d : Prog σ ε α} :
    wp (if p then c else d) Q E s ↔ (p → wp c Q E s) ∧ (¬ p → wp d Q E s) := by
  split <;> simp [*]

end Rules

def loop (body : ℕ → Prog σ ε ℤ) : ℕ → ℕ → Prog σ ε ℤ
  | _, 0 => pure 0
  | k, n + 1 => do
    let r ← body k
    if r ≠ 0 then pure r else loop body (k + 1) n

lemma wp_loop {body : ℕ → Prog σ ε ℤ} {I : ℕ → σ → Prop} {Q : ℤ → σ → Prop} {E : ε → Prop} (n : ℕ)
    {k : ℕ} {s : σ} (hI : I k s)
    (hbody : ∀ j s, k ≤ j → j < k + n → I j s →
      wp (body j) (fun r s' => if r ≠ 0 then Q r s' else I (j + 1) s') E s)
    (hQ : ∀ s, I (k + n) s → Q 0 s) : wp (loop body k n) Q E s := by
  induction n generalizing k s with
  | zero => exact wp_pure.mpr (hQ s hI)
  | succ n ih =>
    rw [loop, wp_bind]
    refine wp_mono (hbody k s (Nat.le_refl k) (by omega) hI) fun r s' hr => ?_
    by_cases h : r ≠ 0
    · rw [if_pos h] at hr
      rw [if_pos h, wp_pure]
      exact hr
    · rw [if_neg h] at hr
      rw [if_neg h]
      refine ih hr (fun j s hj hlt hIj => hbody j s (by omega) (by omega) hIj) fun s hs => hQ s ?_
      rwa [show k + (n + 1) = k + 1 + n by omega]

lemma wp_loop_zero {body : ℕ → Prog σ ε ℤ} {I : ℕ → σ → Prop} {E : ε → Prop} (n : ℕ) {s : σ} (hI : I 0 s)
    (hbody : ∀ j s, j < n → I j s → wp (body j) (fun r s' => r = 0 ∧ I (j + 1) s') E s) :
    wp (loop body 0 n) (fun r s' => r = 0 ∧ I n s') E s := by
  refine wp_loop (I := I) n hI (fun j s _ hj hIj => ?_) fun s hs => ⟨rfl, Nat.zero_add n ▸ hs⟩
  refine wp_mono (hbody j s (Nat.zero_add n ▸ hj) hIj) fun r s' h => ?_
  rw [if_neg fun hr => hr h.1]
  exact h.2

section Eval

variable {c : Prog σ ε α} {s : σ}

def returns (c : Prog σ ε α) (s : σ) (P : α → σ → Bool) : Bool :=
  match c.run s with
  | .ok (a, s') => P a s'
  | .error _ => false

lemma exists_of_returns {P : α → σ → Bool} (h : returns c s P = true) :
    ∃ a s', c.run s = .ok (a, s') ∧ P a s' = true := by
  unfold returns at h
  split at h
  · next a s' hc => exact ⟨a, s', hc, h⟩
  · cases h

def throws [DecidableEq ε] (c : Prog σ ε α) (s : σ) (e : ε) : Bool :=
  match c.run s with
  | .ok _ => false
  | .error e' => decide (e' = e)

lemma run_of_throws [DecidableEq ε] {e : ε} (h : throws c s e = true) : c.run s = .error e := by
  unfold throws at h
  split at h
  · cases h
  · next hc => rw [hc, of_decide_eq_true h]

end Eval

end FarmOS.Lib

import Mathlib.Algebra.BigOperators.Ring.Finset

/-! Singly linked lists in a memory: the cells that are visited by following `next` from a start cell. -/

namespace FarmOS.Lib

open List Nat

variable {α : Type*} {next next' : α → α} {stop : α → Prop} {a b : α} {l l' : List α} {k : ℕ}

def Chain (next : α → α) (stop : α → Prop) : α → List α → Prop
  | a, [] => stop a
  | a, b :: l => a = b ∧ ¬ stop b ∧ Chain next stop (next b) l

namespace Chain

section

variable (h : Chain next stop a l)
include h

lemma congr (hn : ∀ b ∈ l, next' b = next b) : Chain next' stop a l := by
  induction l generalizing a with
  | nil => exact h
  | cons b l ih =>
    refine ⟨h.1, h.2.1, ?_⟩
    rw [hn b mem_cons_self]
    exact ih h.2.2 fun c hc => hn c (mem_cons_of_mem b hc)

lemma push (hb : ¬ stop b) (hn : next b = a) : Chain next stop b (b :: l) :=
  ⟨rfl, hb, hn.symm ▸ h⟩

lemma eq_nil_iff : l = [] ↔ stop a := by
  cases l with
  | nil => exact iff_of_true rfl h
  | cons b l => exact iff_of_false nofun (h.1 ▸ h.2.1)

lemma next_mem (hb : b ∈ l) : next b ∈ l ∨ stop (next b) := by
  induction l generalizing a with
  | nil => exact absurd hb (not_mem_nil)
  | cons c l ih =>
    obtain rfl | hb := mem_cons.mp hb
    · cases l with
      | nil => exact .inr h.2.2
      | cons d l => exact .inl (mem_cons_of_mem _ (h.2.2.1 ▸ mem_cons_self))
    · exact (ih h.2.2 hb).imp_left (mem_cons_of_mem c)

lemma drop (hk : k < l.length) : Chain next stop l[k] (l.drop k) := by
  induction k generalizing a l with
  | zero =>
    cases l with
    | nil => exact absurd hk (not_lt_zero 0)
    | cons b l => exact h.1 ▸ h
  | succ k ih =>
    cases l with
    | nil => exact absurd hk (not_lt_zero _)
    | cons b l => exact ih h.2.2 (lt_of_succ_lt_succ hk)

lemma head_eq (hl : 0 < l.length) : a = l[0] := by
  cases l with
  | nil => exact absurd hl (not_lt_zero 0)
  | cons b l => exact h.1

lemma getElem_succ (hk : k + 1 < l.length) : next l[k] = l[k + 1] := by
  have hd := h.drop (lt_of_succ_lt hk)
  rw [drop_eq_getElem_cons (lt_of_succ_lt hk), drop_eq_getElem_cons hk] at hd
  exact hd.2.2.1

lemma splice (hk : k < l.length) (hn : ∀ b ∈ l.take k, next' b = next b)
    (h' : Chain next' stop (next' l[k]) l') : Chain next' stop a (l.take (k + 1) ++ l') := by
  induction k generalizing a l with
  | zero =>
    cases l with
    | nil => exact absurd hk (not_lt_zero 0)
    | cons b l => exact ⟨h.1, h.2.1, h'⟩
  | succ k ih =>
    cases l with
    | nil => exact absurd hk (not_lt_zero _)
    | cons b l =>
      refine ⟨h.1, h.2.1, ?_⟩
      change Chain next' stop (next' b) (l.take (k + 1) ++ l')
      rw [hn b mem_cons_self]
      exact ih h.2.2 (lt_of_succ_lt_succ hk) (fun c hc => hn c (mem_cons_of_mem b hc)) h'

end

end Chain

end FarmOS.Lib

import Mathlib.Algebra.Order.BigOperators.Group.List
import Mathlib.Algebra.Order.Group.Nat
import Mathlib.Algebra.BigOperators.Ring.Finset

/-! An interval of addresses cut into consecutive blocks, each as long as its class says. -/

namespace FarmOS.Lib

open List

variable {ι : Type*} {size : ι → ℕ} {base a b : ℕ} {i j : ι} {cs ds : List ι}

def total (size : ι → ℕ) (cs : List ι) : ℕ := (cs.map size).sum

def tiles (size : ι → ℕ) : ℕ → List ι → List (ℕ × ι)
  | _, [] => []
  | base, i :: cs => (base, i) :: tiles size (base + size i) cs

@[simp] lemma total_nil : total size [] = 0 := rfl

@[simp] lemma total_cons : total size (i :: cs) = size i + total size cs := sum_cons

@[simp] lemma total_append : total size (cs ++ ds) = total size cs + total size ds := by
  rw [total, map_append, sum_append]
  rfl

lemma tiles_append : tiles size base (cs ++ ds) = tiles size base cs ++ tiles size (base + total size cs) ds := by
  induction cs generalizing base with
  | nil => rfl
  | cons i cs ih => rw [cons_append, tiles, tiles, ih, total_cons, Nat.add_assoc, cons_append]

section

variable (h : (a, i) ∈ tiles size base cs)
include h

lemma bounds_of_mem_tiles : base ≤ a ∧ a + size i ≤ base + total size cs := by
  induction cs generalizing base with
  | nil => cases h
  | cons j cs ih =>
    rw [total_cons]
    rcases mem_cons.mp h with he | h
    · obtain ⟨rfl, rfl⟩ := Prod.mk.inj he
      omega
    · have := ih h
      omega

lemma class_of_mem_tiles : i ∈ cs := by
  induction cs generalizing base with
  | nil => cases h
  | cons j cs ih =>
    rcases mem_cons.mp h with he | h
    · rw [(Prod.mk.inj he).2]
      exact mem_cons_self
    · exact mem_cons_of_mem j (ih h)

lemma tiles_apart (h' : (b, j) ∈ tiles size base cs) :
    (a, i) = (b, j) ∨ a + size i ≤ b ∨ b + size j ≤ a := by
  induction cs generalizing base with
  | nil => cases h
  | cons k cs ih =>
    rcases mem_cons.mp h with he | h <;> rcases mem_cons.mp h' with he' | h'
    · exact .inl (he.trans he'.symm)
    · obtain ⟨rfl, rfl⟩ := Prod.mk.inj he
      exact .inr (.inl (bounds_of_mem_tiles h').1)
    · obtain ⟨rfl, rfl⟩ := Prod.mk.inj he'
      exact .inr (.inr (bounds_of_mem_tiles h).1)
    · exact ih h h'

end

lemma sum_tiles : ((tiles size base cs).map fun x => size x.2).sum = total size cs := by
  induction cs generalizing base with
  | nil => rfl
  | cons i cs ih => rw [tiles, map_cons, sum_cons, ih, total_cons]

lemma sum_le_total {l : List (ℕ × ι)} (hn : l.Nodup) (hl : ∀ x ∈ l, x ∈ tiles size base cs) :
    (l.map fun x => size x.2).sum ≤ total size cs := by
  obtain ⟨l', hperm, hsub⟩ := subperm_of_subset hn hl
  rw [← (hperm.map fun x => size x.2).sum_eq, ← @sum_tiles _ size base cs]
  exact (hsub.map _).sum_le_sum fun _ _ => Nat.zero_le _

end FarmOS.Lib

import Mathlib.Algebra.BigOperators.Ring.Finset

/-! Spin locks shared by several CPUs. A lock that may be re-entered counts how often its owner holds it, and
a CPU counts the locks it holds. -/

namespace FarmOS.Lib

open Function

variable {C X : Type*}

structure Locks (C X : Type*) where
  owner : X → Option C
  depth : X → ℕ
  nesting : C → ℕ

inductive Outcome (K : Type*)
  | done (k : K) | busy | error

namespace Locks

variable {k : Locks C X} {held : C → List X} {c c' : C} {x y : X}

structure Exact (k : Locks C X) (held : C → List X) : Prop where
  owner (c : C) (x : X) : k.owner x = some c ↔ x ∈ held c
  nodup (c : C) : (held c).Nodup
  nesting (c : C) : k.nesting c = (held c).length
  depth (c : C) (x : X) : x ∈ held c → k.depth x = 1

namespace Exact

lemma exclusive (h : Exact k held) (hc : x ∈ held c) (hc' : x ∈ held c') : c = c' :=
  Option.some.inj (((h.owner c x).mpr hc).symm.trans ((h.owner c' x).mpr hc'))

lemma not_mem (h : Exact k held) (hx : k.owner x = none) (c : C) : x ∉ held c := fun hc => by
  rw [← h.owner, hx] at hc
  cases hc

end Exact

variable [DecidableEq C] [DecidableEq X]

def take (k : Locks C X) (c : C) (x : X) : Locks C X where
  owner := update k.owner x (some c)
  depth := update k.depth x 1
  nesting := update k.nesting c (k.nesting c + 1)

def drop (k : Locks C X) (c : C) (x : X) : Locks C X where
  owner := update k.owner x none
  depth := update k.depth x 0
  nesting := update k.nesting c (k.nesting c - 1)

def acquire (recurse : X → Bool) (k : Locks C X) (c : C) (x : X) : Outcome (Locks C X) :=
  match k.owner x with
  | none => .done (k.take c x)
  | some c' =>
    if c' = c then
      if recurse x then .done { k with depth := update k.depth x (k.depth x + 1) } else .error
    else .busy

def release (k : Locks C X) (c : C) (x : X) : Outcome (Locks C X) :=
  if k.owner x = some c then
    if 1 < k.depth x then .done { k with depth := update k.depth x (k.depth x - 1) }
    else .done (k.drop c x)
  else .error

namespace Exact

section

variable (h : Exact k held)
include h

lemma take (hx : k.owner x = none) : Exact (k.take c x) (update held c (x :: held c)) := by
  have hne : ∀ c' y, y ∈ held c' → y ≠ x := fun c' y hy he => h.not_mem hx c' (he ▸ hy)
  refine ⟨fun c' y => ?_, fun c' => ?_, fun c' => ?_, fun c' y hy => ?_⟩
  · by_cases hc : c' = c
    · subst hc
      by_cases hy : y = x
      · subst hy
        simp [Locks.take]
      · simp [Locks.take, hy, h.owner]
    · rw [update_of_ne hc]
      by_cases hy : y = x
      · subst hy
        simpa [Locks.take, Ne.symm hc] using h.not_mem hx c'
      · simp [Locks.take, hy, h.owner]
  · by_cases hc : c' = c
    · subst hc
      rw [update_self]
      exact List.nodup_cons.mpr ⟨h.not_mem hx c', h.nodup c'⟩
    · rw [update_of_ne hc]
      exact h.nodup c'
  · by_cases hc : c' = c
    · subst hc
      simp [Locks.take, h.nesting]
    · simp [Locks.take, hc, h.nesting]
  · by_cases hyx : y = x
    · subst hyx
      simp [Locks.take]
    · have hold : y ∈ held c' := by
        by_cases hc : c' = c
        · subst hc
          rw [update_self] at hy
          exact (List.mem_cons.mp hy).resolve_left hyx
        · rwa [update_of_ne hc] at hy
      simpa [Locks.take, hyx] using h.depth c' y hold

lemma drop (hx : x ∈ held c) : Exact (k.drop c x) (update held c ((held c).erase x)) := by
  have hmem : ∀ c' y, y ∈ update held c ((held c).erase x) c' ↔ y ∈ held c' ∧ y ≠ x := by
    intro c' y
    by_cases hc : c' = c
    · subst hc
      rw [update_self, (h.nodup c').mem_erase_iff, and_comm]
    · rw [update_of_ne hc]
      exact ⟨fun hy => ⟨hy, fun he => hc (h.exclusive (he ▸ hy) hx)⟩, And.left⟩
  refine ⟨fun c' y => ?_, fun c' => ?_, fun c' => ?_, fun c' y hy => ?_⟩
  · rw [hmem, ← h.owner]
    by_cases hy : y = x
    · subst hy
      simp [Locks.drop]
    · simp [Locks.drop, hy]
  · by_cases hc : c' = c
    · subst hc
      rw [update_self]
      exact (h.nodup c').erase x
    · rw [update_of_ne hc]
      exact h.nodup c'
  · by_cases hc : c' = c
    · subst hc
      simp [Locks.drop, h.nesting, List.length_erase_of_mem hx]
    · simp [Locks.drop, hc, h.nesting]
  · obtain ⟨hy, hne⟩ := (hmem c' y).mp hy
    simpa [Locks.drop, hne] using h.depth c' y hy

lemma acquire (recurse : X → Bool) : (x ∉ held c ∧ Locks.acquire recurse k c x = .done (k.take c x) ∧
    k.owner x = none) ∨
    (x ∉ held c ∧ Locks.acquire recurse k c x = .busy) ∨ x ∈ held c := by
  unfold Locks.acquire
  cases ho : k.owner x with
  | none => exact .inl ⟨h.not_mem ho c, rfl, rfl⟩
  | some c' =>
    by_cases hc : c' = c
    · subst hc
      exact .inr (.inr ((h.owner c' x).mp ho))
    · refine .inr (.inl ⟨fun hx => hc ?_, if_neg hc⟩)
      rw [← h.owner, ho] at hx
      exact Option.some.inj hx

lemma release (hx : x ∈ held c) : Locks.release k c x = .done (k.drop c x) := by
  rw [Locks.release, if_pos ((h.owner c x).mpr hx), h.depth c x hx, if_neg (Nat.lt_irrefl 1)]

lemma release_error (hx : x ∉ held c) : Locks.release k c x = .error := by
  rw [Locks.release, if_neg fun ho => hx ((h.owner c x).mp ho)]

end

end Exact

end Locks

end FarmOS.Lib

import Mathlib.Data.Nat.ModEq
import Mathlib.Algebra.BigOperators.Ring.Finset

/-! Little-endian numbers, byte-wise copies in a memory indexed by natural numbers, and the same copies around a
ring. -/

namespace FarmOS.Lib

def leBytes : ℕ → ℕ → List (BitVec 8)
  | 0, _ => []
  | k + 1, x => BitVec.ofNat 8 x :: leBytes k (x / 256)

def leNat : List (BitVec 8) → ℕ
  | [] => 0
  | b :: bs => b.toNat + 256 * leNat bs

@[simp] lemma length_leBytes (k x : ℕ) : (leBytes k x).length = k := by
  induction k generalizing x with
  | zero => rfl
  | succ k ih => rw [leBytes, List.length_cons, ih]

lemma leNat_leBytes (k x : ℕ) : leNat (leBytes k x) = x % 256 ^ k := by
  induction k generalizing x with
  | zero => rw [leBytes, leNat, Nat.pow_zero, Nat.mod_one]
  | succ k ih =>
    have hp : 256 ^ (k + 1) = 256 * 256 ^ k := Nat.pow_succ'
    rw [leBytes, leNat, ih, BitVec.toNat_ofNat, hp, Nat.mod_mul]

open List

variable {α : Type*} {j k : ℕ}

def slice (m : ℕ → α) (a n : ℕ) : List α := (range n).map fun j => m (a + j)

def blit (m : ℕ → α) (a : ℕ) (l : List α) : ℕ → α :=
  fun k => if h : a ≤ k ∧ k - a < l.length then l[k - a] else m k

section Copy

variable (m : ℕ → α) (a n : ℕ) (l : List α)

@[simp] lemma length_slice : (slice m a n).length = n := by simp [slice]

@[simp] lemma slice_zero : slice m a 0 = [] := rfl

lemma getElem_slice (h : j < (slice m a n).length) : (slice m a n)[j] = m (a + j) := by
  simp [slice]

lemma slice_append (k : ℕ) : slice m a (n + k) = slice m a n ++ slice m (a + n) k := by
  simp [slice, range_add, Function.comp_def, Nat.add_assoc]

lemma blit_of_lt (h : k < a) : blit m a l k = m k := by
  rw [blit, dif_neg (by omega)]

lemma blit_of_ge (h : a + l.length ≤ k) : blit m a l k = m k := by
  rw [blit, dif_neg (by omega)]

lemma blit_add (h : j < l.length) : blit m a l (a + j) = l[j] := by
  rw [blit, dif_pos ⟨by omega, by omega⟩]
  simp only [Nat.add_sub_cancel_left]

@[simp] lemma blit_nil : blit m a [] = m := by
  funext k
  rw [blit, dif_neg (by simp)]

lemma blit_append (l' : List α) : blit m a (l ++ l') = blit (blit m a l) (a + l.length) l' := by
  funext k
  by_cases h : k < a + l.length
  · rw [blit_of_lt _ _ _ h]
    by_cases h' : a ≤ k
    · obtain ⟨j, rfl⟩ := Nat.exists_eq_add_of_le h'
      rw [blit_add m a l (by omega), blit_add m a _ (by rw [length_append]; omega), getElem_append_left]
    · rw [blit_of_lt _ _ _ (by omega), blit_of_lt _ _ _ (by omega)]
  · obtain ⟨j, rfl⟩ := Nat.exists_eq_add_of_le (Nat.le_of_not_lt h)
    by_cases h' : j < l'.length
    · rw [blit_add _ _ _ h', Nat.add_assoc, blit_add m a _ (by rw [length_append]; omega),
        getElem_append_right (by omega)]
      simp only [Nat.add_sub_cancel_left]
    · rw [blit_of_ge _ _ _ (by rw [length_append]; omega), blit_of_ge _ _ _ (by omega),
        blit_of_ge _ _ _ (by omega)]

lemma take_slice (k : ℕ) : (slice m a n).take k = slice m a (min k n) := by
  rw [slice, slice, ← map_take, take_range]

lemma slice_congr {m' : ℕ → α} (h : ∀ j < n, m' (a + j) = m (a + j)) : slice m' a n = slice m a n := by
  apply map_congr_left
  intro j hj
  exact h j (mem_range.mp hj)

lemma slice_blit : slice (blit m a l) a l.length = l := by
  apply ext_getElem
  · simp
  · intro j h1 h2
    rw [getElem_slice, blit_add m a l h2]

lemma slice_blit_append (l1 l2 l3 : List α) {n : ℕ} (hn : l2.length = n) :
    slice (blit m a (l1 ++ l2 ++ l3)) (a + l1.length) n = l2 := by
  subst hn
  apply ext_getElem
  · simp
  · intro j h1 h2
    rw [getElem_slice, Nat.add_assoc, blit_add m a _ (by simp; omega), getElem_append_left (by simp; omega),
      getElem_append_right (by omega)]
    simp only [Nat.add_sub_cancel_left]

end Copy

section Ring

variable {size b len : ℕ} (m : ℕ → α)

lemma ring_end (hb : b < size) (hlen : len ≤ size) :
    (b + len) % size = if b + len < size then b + len else b + len - size := by
  split
  · next h => exact Nat.mod_eq_of_lt h
  · next h => rw [Nat.mod_eq_sub_mod (by omega), Nat.mod_eq_of_lt (by omega)]

lemma ring_straight (hb : b < size) (hlen : len ≤ size) (h : b < (b + len) % size) :
    (b + len) % size = b + len ∧ b + len < size := by
  have he := ring_end hb hlen
  split at he <;> omega

lemma ring_wrapped (hb : b < size) (hpos : 0 < len) (hlen : len ≤ size)
    (h : ¬ b < (b + len) % size) : size - b + (b + len) % size = len := by
  have he := ring_end hb hlen
  split at he <;> omega

lemma ring_slice (hb : b < size) (hpos : 0 < len) (hlen : len ≤ size) : (if b < (b + len) % size then slice m b len
      else slice m b (size - b) ++ slice m 0 ((b + len) % size)) =
      (range len).map fun j => m ((b + j) % size) := by
  split
  · next h =>
    obtain ⟨-, hlt⟩ := ring_straight hb hlen h
    apply map_congr_left
    intro j hj
    rw [Nat.mod_eq_of_lt (by have := mem_range.mp hj; omega)]
  · next h =>
    have hw := ring_wrapped hb hpos hlen h
    apply ext_getElem
    · simp [hw]
    · intro j h1 h2
      have hj : j < len := by simpa using h2
      have he := ring_end hb (show j ≤ size by omega)
      rw [getElem_append, getElem_map, getElem_range]
      split
      · next hlt =>
        rw [length_slice] at hlt
        rw [getElem_slice, he, if_pos (by omega)]
      · next hge =>
        rw [length_slice] at hge
        rw [getElem_slice, he, if_neg (by omega), length_slice]
        congr 1
        omega

lemma ring_blit {l l1 l2 : List α} (hll : l.length = len) (hb : b < size) (hpos : 0 < len) (hlen : len ≤ size)
    (hl : ¬ b < (b + len) % size → l = l1 ++ l2 ∧ l1.length = size - b) (hj : j < size) :
    (if b < (b + len) % size then blit m b l else blit (blit m b l1) 0 l2) ((b + j) % size) =
      if h : j < l.length then l[j] else m ((b + j) % size) := by
  rw [ring_end hb (Nat.le_of_lt hj)]
  by_cases hc : b < (b + len) % size
  · obtain ⟨-, hlt⟩ := ring_straight hb hlen hc
    rw [if_pos hc]
    by_cases hjl : j < l.length
    · rw [if_pos (by omega), dif_pos hjl, blit_add m b l hjl]
    · rw [dif_neg hjl]
      split
      · exact blit_of_ge m b l (by omega)
      · exact blit_of_lt m b l (by omega)
  · obtain ⟨rfl, h1⟩ := hl hc
    have hw := ring_wrapped hb hpos hlen hc
    rw [length_append] at hll
    rw [if_neg hc]
    split
    · next hlt =>
      rw [blit_of_ge _ _ _ (by omega), blit_add m b l1 (by omega), dif_pos (by simp; omega),
        getElem_append_left]
    · next hge =>
      by_cases hjl : j < l1.length + l2.length
      · rw [dif_pos (by simpa using hjl), getElem_append_right (by omega)]
        have := blit_add (blit m b l1) 0 l2 (show b + j - size < l2.length by omega)
        rw [Nat.zero_add] at this
        rw [this]
        congr 1
        omega
      · rw [dif_neg (by simpa using hjl), blit_of_ge _ _ _ (by omega), blit_of_lt _ _ _ (by omega)]

end Ring

end FarmOS.Lib

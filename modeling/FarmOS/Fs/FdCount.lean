import FarmOS.Fs.FdTable
import FarmOS.Lib.Pool

/-! Counting the slots of all process tables that hold one kernel descriptor. -/

namespace FarmOS.Fs.FdTable

open Lib Kernel BitVec Finset

@[irreducible] def places : Finset (Fin nproc × ℕ) := univ ×ˢ range maxFdCount

def slots (s : Kernel) (k : ℕ) : ℕ := occ places (fun x => s.slot x.1 x.2) (k : ℤ)

def Alive (s : Kernel) (p : Fin nproc) : Prop := (s.procs p).isSome = true

section Bits

variable (s : Kernel) (i j : ℕ)

lemma shiftRight_five : i >>> 5 = i / 32 := Nat.shiftRight_eq_div_pow i 5

variable {j} in
lemma getLsbD_mask (hj : j < 32) : (1#32 <<< (i &&& 31)).getLsbD j = decide (j = i % 32) := by
  have hand : i &&& 31 = i % 32 := Nat.and_two_pow_sub_one_eq_mod i 5
  rw [hand, getLsbD_shiftLeft]
  by_cases he : j = i % 32
  · simp [← he, hj]
  · have : j - i % 32 ≠ 0 ∨ j < i % 32 := by omega
    rcases this with h | h <;> simp [he, h]

lemma bit_eq : s.bit i = (s.fdBitMap (i / 32)).getLsbD (i % 32) := by
  have hlt : i % 32 < 32 := Nat.mod_lt _ (by decide)
  rw [bit, shiftRight_five]
  cases hb : (s.fdBitMap (i / 32)).getLsbD (i % 32) with
  | true =>
    rw [bne_iff_ne]
    intro h
    have := congrArg (fun v => v.getLsbD (i % 32)) h
    rw [getLsbD_and, hb, getLsbD_mask i hlt] at this
    simp at this
  | false =>
    rw [bne_eq_false_iff_eq]
    apply eq_of_getLsbD_eq
    intro n hn
    rw [getLsbD_and, getLsbD_mask i hn]
    by_cases he : n = i % 32
    · simp [he, hb]
    · simp [he]

lemma bit_setBit : (s.setBit i).bit j = (decide (j = i) || s.bit j) := by
  have hj : j % 32 < 32 := Nat.mod_lt _ (by decide)
  rw [bit_eq, bit_eq, setBit, shiftRight_five]
  by_cases hd : j / 32 = i / 32
  · have he : j % 32 = i % 32 ↔ j = i := by omega
    simp [hd, getLsbD_mask i hj, he, Bool.or_comm]
  · have he : j ≠ i := by rintro rfl; exact hd rfl
    simp [hd, he]

lemma bit_clearBit : (s.clearBit i).bit j = (!decide (j = i) && s.bit j) := by
  have hj : j % 32 < 32 := Nat.mod_lt _ (by decide)
  rw [bit_eq, bit_eq, clearBit, shiftRight_five]
  by_cases hd : j / 32 = i / 32
  · have he : j % 32 = i % 32 ↔ j = i := by omega
    simp only [hd, Function.update_self, getLsbD_and, getLsbD_not, getLsbD_mask i hj, he, hj]
    simp [Bool.and_comm]
  · have he : j ≠ i := by rintro rfl; exact hd rfl
    simp [hd, he]

end Bits

section Slots

variable (s : Kernel) (p q : Fin nproc) (u w : ℕ) (v : ℤ) (k : ℕ) (f : Fd)

@[simp] lemma bit_setFd (j : ℕ) : (s.setFd k f).bit j = s.bit j := rfl
@[simp] lemma bit_setSlot (j : ℕ) : (s.setSlot p u v).bit j = s.bit j := rfl
@[simp] lemma fds_setSlot : (s.setSlot p u v).fds = s.fds := rfl
@[simp] lemma fds_clearBit : (s.clearBit k).fds = s.fds := rfl
@[simp] lemma closed_setSlot : (s.setSlot p u v).closed = s.closed := rfl
@[simp] lemma closed_setFd : (s.setFd k f).closed = s.closed := rfl
@[simp] lemma closed_clearBit : (s.clearBit k).closed = s.closed := rfl
@[simp] lemma procs_setFd : (s.setFd k f).procs = s.procs := rfl
@[simp] lemma procs_clearBit : (s.clearBit k).procs = s.procs := rfl
@[simp] lemma fds_setFd_self : (s.setFd k f).fds k = f := by simp [setFd]

lemma fds_setFd_ne {j : ℕ} (h : j ≠ k) : (s.setFd k f).fds j = s.fds j := by
  simp [setFd, h]

lemma slot_setSlot_self (h : Alive s p) : (s.setSlot p u v).slot p u = v := by
  obtain ⟨t, ht⟩ := Option.isSome_iff_exists.mp h
  simp [slot, setSlot, ht, ThreadFs.set]

lemma slot_setSlot_ne (h : q ≠ p ∨ w ≠ u) : (s.setSlot p u v).slot q w = s.slot q w := by
  by_cases hq : q = p
  · subst hq
    have hw : w ≠ u := h.resolve_left (by simp)
    cases ht : s.procs q <;> simp [slot, setSlot, ht, ThreadFs.set, hw]
  · simp [slot, setSlot, hq]

lemma alive_setSlot : Alive (s.setSlot p u v) q ↔ Alive s q := by
  by_cases hq : q = p
  · subst hq
    simp [Alive, setSlot]
  · simp [Alive, setSlot, hq]

lemma limit_le : s.limit p ≤ maxFdCount := by
  unfold limit
  split
  · exact ThreadFs.rlimit_le _
  · exact Nat.zero_le _

lemma mem_places {p : Fin nproc} {u : ℕ} : (p, u) ∈ places ↔ u < maxFdCount := by
  rw [places, mem_product, mem_range]
  exact and_iff_right (mem_univ _)

lemma slots_setSlot (h : Alive s p) (hu : u < maxFdCount) :
    slots (s.setSlot p u v) k + (if s.slot p u = k then 1 else 0) =
      slots s k + if v = k then 1 else 0 := by
  have hc := occ_change (S := places) (f := fun x => s.slot x.1 x.2)
    (g := fun x => (s.setSlot p u v).slot x.1 x.2) (k := (k : ℤ)) (a := (p, u)) (mem_places.mpr hu) ?_
  · simpa only [slots, slot_setSlot_self s p u v h] using hc
  · rintro ⟨q, w⟩ - hne
    apply slot_setSlot_ne
    by_contra! hc
    exact hne (Prod.ext hc.1 hc.2)

lemma slots_congr {s s' : Kernel} (h : ∀ q w, w < maxFdCount → s'.slot q w = s.slot q w) (k : ℕ) :
    slots s' k = slots s k := by
  apply occ_congr
  rintro ⟨q, w⟩ hm
  exact h q w (mem_places.mp hm)

lemma slots_of_procs {s s' : Kernel} (h : s'.procs = s.procs) (k : ℕ) : slots s' k = slots s k :=
  slots_congr (fun q w _ => by simp only [slot, h]) k

@[simp] lemma slots_setFd (j : ℕ) : slots (s.setFd k f) j = slots s j := rfl
@[simp] lemma slots_setBit (j : ℕ) : slots (s.setBit k) j = slots s j := rfl

lemma slots_lt : slots s k < 4000000 := by
  have h : slots s k ≤ places.card := occ_le_card
  rw [places, card_product, card_univ, Fintype.card_fin, card_range] at h
  have : nproc * maxFdCount < 4000000 := by
    unfold nproc
    decide
  omega

end Slots

end FarmOS.Fs.FdTable

import FarmOS.Fs.FdOpen

/-! Process creation, fork and exit over the descriptor tables. -/

namespace FarmOS.Fs.FdTable

open Function Kernel List Option

variable {s t : Kernel} {p c : Fin nproc} {u k : ℕ} {l : List ℕ} {q : Fin nproc}

lemma forkLoop_cons (s : Kernel) (i : ℕ) (is : List ℕ) : forkLoop p c (i :: is) s =
    (if s.slot p i ≠ -1 then cloneAddCite s (s.slot p i) else some s).bind fun t =>
      forkLoop p c is (t.setSlot c i (s.slot p i)) := by
  rw [forkLoop]
  split <;> rfl

lemma recycleLoop_cons (s : Kernel) (i : ℕ) (is : List ℕ) : recycleLoop p (i :: is) s =
    (if s.slot p i ≠ -1 then freeFd s (s.slot p i) else some s).bind (recycleLoop p is) := by
  rw [recycleLoop]
  split <;> rfl

lemma forkLoop_kept (is : List ℕ) (hnd : is.Nodup) (hlt : ∀ i ∈ is, i < maxFdCount)
    (h : Balanced s [] ∅) (hc : Alive s c) (hfree : ∀ i ∈ is, s.slot c i = -1) :
    ∃ s', forkLoop p c is s = some s' ∧ Balanced s' [] ∅ ∧ Grows s s' := by
  induction is generalizing s with
  | nil => exact ⟨s, rfl, h, .refl s⟩
  | cons i is ih =>
    obtain ⟨hi, hnd⟩ := nodup_cons.mp hnd
    have hil := hlt i mem_cons_self
    have hif := hfree i mem_cons_self
    obtain ⟨t, ht, hb, hg, hslot⟩ : ∃ t, (if s.slot p i ≠ -1 then cloneAddCite s (s.slot p i)
        else some s) = some t ∧ Balanced (t.setSlot c i (s.slot p i)) [] ∅ ∧
        Grows s (t.setSlot c i (s.slot p i)) ∧ t.procs = s.procs := by
      by_cases hs : s.slot p i = -1
      · refine ⟨s, by simp [hs], ?_, .setSlot hc hil (.inl hif), rfl⟩
        rw [hs]
        exact h.setSlot_neg_one hc hif
      · obtain ⟨k, hk, hklt⟩ := (h.isKernFd_of_ne hil hs).exists_nat
        obtain ⟨s', hcl, hb, -, hg⟩ := h.cite_place hc hil (.inl hif) hklt (slots_pos hil hk)
        rw [cloneAddCite_setSlot s k hklt, some_inj] at hcl
        refine ⟨s.setFd k { s.fds k with refcnt := (s.fds k).refcnt + 1 },
          by rw [if_pos hs, hk, cloneAddCite_eq s hklt], ?_, ?_, rfl⟩
        · rw [hk, hcl]
          simpa using hb
        · rw [hk, hcl]
          exact hg
    have hct : Alive (t.setSlot c i (s.slot p i)) c := hg.alive c hc
    have hfree' : ∀ j ∈ is, (t.setSlot c i (s.slot p i)).slot c j = -1 := by
      intro j hj
      have hji : j ≠ i := by
        rintro rfl
        exact hi hj
      rw [slot_setSlot_ne _ _ _ _ _ _ (.inr hji), slot_of_procs hslot]
      exact hfree j (mem_cons_of_mem i hj)
    obtain ⟨s', hs', hb', hg'⟩ := ih hnd (fun j hj => hlt j (mem_cons_of_mem i hj)) hb hct hfree'
    refine ⟨s', ?_, hb', hg.trans hg'⟩
    rw [forkLoop_cons, ht, bind_some, hs']

lemma slot_of_dead (h : ¬ Alive s c) (u : ℕ) : s.slot c u = -1 := by
  have hn : s.procs c = none := by simpa [Alive] using h
  simp only [slot, hn]

lemma fork_kept (h : Balanced s [] ∅) (hp : Alive s p) (hc : ¬ Alive s c) :
    Kept s ((forkThreadFs s p c).map (0, ·)) := by
  obtain ⟨t, ht⟩ := isSome_iff_exists.mp hp
  rw [forkThreadFs, ht]
  simp only
  set s0 : Kernel := { s with procs := _ } with hs0
  have hslot : ∀ q w, s0.slot q w = s.slot q w := by
    intro q w
    by_cases hq : q = c
    · subst hq
      rw [slot_of_dead hc]
      simp [hs0, slot]
    · simp [hs0, slot, hq]
  have hb0 : Balanced s0 [] ∅ := h.congr rfl rfl fun q w _ => hslot q w
  have halive : Alive s0 c := by simp [hs0, Alive]
  have hg0 : Grows s s0 := by
    refine ⟨rfl, fun k _ => (slots_congr (fun q w _ => hslot q w) k).ge, fun q hq => ?_⟩
    by_cases hqc : q = c
    · exact absurd hq (hqc ▸ hc)
    · simpa [hs0, Alive, hqc] using hq
  obtain ⟨s', hs', hb, hg⟩ := forkLoop_kept (p := p) (range maxFdCount) nodup_range
    (fun i hi => mem_range.mp hi) hb0 halive fun i _ => (hslot c i).trans (slot_of_dead hc i)
  rw [hs']
  exact ⟨0, s', rfl, hb, (hg0.trans hg).closes⟩

def Kernel.mask (s : Kernel) (p : Fin nproc) (l : List ℕ) : Kernel :=
  s.withProcs (update s.procs p
    ((s.procs p).map fun t => { t with fdList := fun u => if u ∈ l then -1 else t.fdList u }))

lemma mask_nil (s : Kernel) (p : Fin nproc) : s.mask p [] = s := by
  simp [mask, withProcs]

lemma mask_cons (s : Kernel) (p : Fin nproc) (u : ℕ) (l : List ℕ) :
    s.mask p (u :: l) = (s.mask p l).setSlot p u (-1) := by
  simp only [mask, withProcs, setSlot, update_self,
    update_idem, Option.map_map]
  congr 3
  funext t
  simp only [ThreadFs.set, comp_apply, ThreadFs.mk.injEq, and_true]
  funext w
  by_cases hw : w = u <;> simp [hw]

lemma slot_mask_of_notMem (h : u ∉ l) : (s.mask p l).slot p u = s.slot p u := by
  cases hp : s.procs p <;> simp [mask, withProcs, slot, hp, h]

lemma slot_mask_of_mem (h : u ∈ l) : (s.mask p l).slot p u = -1 := by
  cases hp : s.procs p <;> simp [mask, withProcs, slot, hp, h]

lemma alive_mask : Alive (s.mask p l) q ↔ Alive s q := by
  by_cases hq : q = p
  · subst hq
    simp [Alive, mask, withProcs]
  · simp [Alive, mask, withProcs, hq]

lemma Balanced.release_mask {i : ℕ} (h : Balanced (s.mask p l) [] ∅) (hp : Alive s p)
    (hi : i < maxFdCount) (hl : i ∉ l) :
    ∃ t, (if s.slot p i ≠ -1 then freeFd s (s.slot p i) else some s) = some t ∧ t.procs = s.procs ∧
      Balanced (t.mask p (i :: l)) [] ∅ ∧ Released (s.mask p l) (t.mask p (i :: l)) := by
  have hslot := slot_mask_of_notMem (s := s) (p := p) hl
  have hpm : Alive (s.mask p l) p := alive_mask.mpr hp
  by_cases hs : s.slot p i = -1
  · refine ⟨s, by simp [hs], rfl, ?_, ?_⟩
    · rw [mask_cons]
      exact h.setSlot_neg_one hpm (hslot.trans hs)
    · rw [mask_cons]
      exact .setSlot_neg_one hpm (hslot.trans hs)
  · obtain ⟨k, hk, hklt⟩ := (h.isKernFd_of_ne hi (hslot ▸ hs)).exists_nat
    obtain ⟨t', hf, hpr, hb, hrel⟩ := h.release hpm hi hk hklt
    rw [mask, freeFd_withProcs _ _ hklt, map_eq_some_iff] at hf
    obtain ⟨t, hf, rfl⟩ := hf
    have hpt := freeFd_procs hklt hf
    have hm : t.withProcs (s.mask p l).procs = t.mask p l := by simp only [mask, withProcs, hpt]
    refine ⟨t, by rw [if_pos hs, ← hslot, hk, hf], hpt, ?_, ?_⟩
    · rw [mask_cons, ← hm]
      exact hb
    · rw [mask_cons, ← hm]
      exact hrel

lemma recycleLoop_kept (is l : List ℕ) (hnd : is.Nodup) (hlt : ∀ i ∈ is, i < maxFdCount)
    (hl : ∀ i ∈ is, i ∉ l) (h : Balanced (s.mask p l) [] ∅) (hp : Alive s p) :
    ∃ s', recycleLoop p is s = some s' ∧ s'.procs = s.procs ∧
      Balanced (s'.mask p (is.reverse ++ l)) [] ∅ ∧
      Released (s.mask p l) (s'.mask p (is.reverse ++ l)) := by
  induction is generalizing s l with
  | nil => exact ⟨s, rfl, rfl, h, .refl _⟩
  | cons i is ih =>
    obtain ⟨hi, hnd⟩ := nodup_cons.mp hnd
    obtain ⟨t, ht, hpr, hb, hrel⟩ :=
      h.release_mask hp (hlt i mem_cons_self) (hl i mem_cons_self)
    have hpt : Alive t p := by
      rw [Alive, hpr]
      exact hp
    have hl' : ∀ j ∈ is, j ∉ i :: l := by
      intro j hj
      rw [mem_cons, not_or]
      refine ⟨?_, hl j (mem_cons_of_mem i hj)⟩
      rintro rfl
      exact hi hj
    obtain ⟨s', hs', hpr', hb', hrel'⟩ :=
      ih (i :: l) hnd (fun j hj => hlt j (mem_cons_of_mem i hj)) hl' hb hpt
    rw [reverse_cons, append_assoc, singleton_append]
    exact ⟨s', by rw [recycleLoop_cons, ht, bind_some, hs'], hpr'.trans hpr, hb',
      hrel.trans hrel'⟩

lemma exit_kept (h : Balanced s [] ∅) (hp : Alive s p) : Kept s ((recycleThreadFs s p).map (0, ·)) := by
  obtain ⟨t, ht, hpr, hb, hrel⟩ := recycleLoop_kept (s := s) (p := p) (range maxFdCount) []
    nodup_range (fun i hi => mem_range.mp hi) (by simp) (by rwa [mask_nil]) hp
  rw [mask_nil] at hrel
  rw [recycleThreadFs, ht]
  set s' : Kernel := { t with procs := update t.procs p none } with hs'
  have hslot : ∀ q w, w < maxFdCount →
      s'.slot q w = (t.mask p ((range maxFdCount).reverse ++ [])).slot q w := by
    intro q w hw
    by_cases hq : q = p
    · subst hq
      rw [slot_mask_of_mem (by simpa using hw)]
      simp [hs', slot]
    · simp [hs', mask, withProcs, slot, hq]
  refine ⟨0, s', rfl, hb.congr rfl rfl hslot, ?_⟩
  obtain ⟨l, hl, hnd, hm⟩ := hrel.closes
  exact ⟨l, hl, hnd, fun k d => by rw [hm, slots_congr hslot]⟩

end FarmOS.Fs.FdTable

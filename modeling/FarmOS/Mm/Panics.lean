import FarmOS.Mm.Fault

/-! Resolving a page fault only panics when no page is free. -/

namespace FarmOS.Mm

open Lib

def OutOfMemory (e : Panic) : Prop := e = .noFreePage

lemma OutOfMemory.notRefZero {e : Panic} (h : OutOfMemory e) : NotRefZero e := by
  rw [h]
  nofun

def Mild (e : Panic) : Prop := e = .noFreePage ∨ e = .refZero

lemma wp_outOfMemory {α : Type} {c : M α} {Q : α → Phys → Prop} {s : Phys} (h : wp c Q NotRefZero s)
    (h' : wp c (fun _ _ => True) Mild s) : wp c Q OutOfMemory s :=
  wp_both h h' (fun _ _ hQ _ => hQ) fun _ hn hm => hm.resolve_right hn

lemma wp_mild {α : Type} {c : M α} {Q : α → Phys → Prop} {s : Phys} (h : wp c Q NotRefZero s)
    (h' : wp c (fun _ _ => True) Mild s) : wp c Q Mild s := wp_mono_error (wp_outOfMemory h h') fun _ => .inl

variable {L : Layout} {s s1 : Phys} {v : View} {fl : List ℕ} {p t pd : ℕ} {va : BitVec 64} {x : ℕ × ℕ} {w : Pte}

lemma wp_ppDecOnValid (h : target w ≠ some 0) : wp (ppDecOnValid w) (fun _ _ => True) Mild s := by
  refine wp_onValid (fun _ => trivial) (fun f _ => ?_) fun h0 => absurd h0 h
  simp only [pmPageDecRef, check, wp_bind, wp_ite, wp_pure, wp_throw, wp_get, wp_set]
  exact ⟨fun _ => by simp, fun _ => .inr rfl⟩

lemma wp_ppIncOnValid (h : target w ≠ some 0) : wp (ppIncOnValid w) (fun _ _ => True) Mild s :=
  wp_onValid (fun _ => trivial) (fun _ _ => wp_modify.mpr trivial) fun h0 => absurd h0 h

lemma wp_ptModify (hold : target (s.mem x.1 x.2) ≠ some 0) (hnew : target w ≠ some 0) :
    wp (ptModify x w) (fun _ _ => True) Mild s := by
  simp only [ptModify, load, store, wp_bind, wp_get, wp_pure, wp_ite, wp_modify]
  exact ⟨fun _ => trivial, fun _ => wp_mono (wp_ppDecOnValid hold) fun _ _ _ => wp_ppIncOnValid hnew⟩

section Tables

variable (h : Inv L s v fl) (hu : 0 < L.pageused)
include h hu

lemma Inv.wp_ptStep (level : ℕ) : wp (Mm.ptStep va true level t) (fun _ _ => True) Mild s := by
  simp only [Mm.ptStep, load, wp_bind, wp_get, wp_pure, wp_ite]
  refine ⟨fun _ => trivial, fun hV => ⟨fun _ => ?_, by simp⟩⟩
  refine wp_pmAlloc (fun _ => .inl rfl) fun n rest hs => ?_
  obtain ⟨hn, hlt, -⟩ := (h.account.free_iff n).mp (by simp [hs])
  have hne : (some n : Option ℕ) ≠ some 0 := fun he => by
    have := Option.some.inj he
    omega
  refine wp_mono (wp_ptModify ?_ ?_) fun _ _ _ => trivial
  · by_cases hx : t = n
    · rw [show (s.take n rest).mem t (ptx va level) = 0 by simp [Phys.take, Phys.setPage, hx]]
      simp
    · rw [show (s.take n rest).mem t = s.mem t by simp [Phys.take, Phys.setPage, hx],
        target_of_not_V (by simpa using hV)]
      simp
  · rw [target_link (Nat.lt_trans hlt L.npage_lt)]
    exact hne

variable (hd : v.dead = ∅) (hpd : v.lev pd = 1)
include hd hpd

lemma Inv.wp_ptWalk : wp (Mm.ptWalk pd va true) (fun _ _ => True) Mild s := by
  simp only [Mm.ptWalk, wp_bind]
  refine wp_mono (wp_mild (h.ptStep hd (.inl hpd)) (h.wp_ptStep hu 1)) fun r s1 ⟨v1, t2, hr, hinv, _⟩ => ?_
  subst hr
  simp only [wp_bind]
  refine wp_mono (hinv.wp_ptStep hu 2) fun r _ _ => ?_
  cases r <;> exact wp_pure.mpr trivial

lemma Inv.wp_ptSlot : wp (Mm.ptSlot pd va) (fun _ _ => True) Mild s := by
  simp only [Mm.ptSlot, wp_bind, wp_ptWalk_false]
  cases slot s pd va with
  | some x => exact wp_pure.mpr trivial
  | none =>
    simp only [wp_bind]
    refine wp_mono (wp_mild (h.ptWalk hd hpd) (h.wp_ptWalk hu hd hpd)) fun r s' ⟨v', x, hr, _⟩ => ?_
    subst hr
    exact wp_pure.mpr trivial

lemma Inv.wp_ptMap (hp : L.pageused ≤ p) (hlt : p < L.npage) (hw : w.toNat < 1024)
    (hold : target (look s pd va) ≠ some 0) : wp (Mm.ptMap pd va (pageToPa p) w) (fun _ _ => True) Mild s := by
  have hlt' := Nat.lt_trans hlt L.npage_lt
  have hbase := membase_le_pageToPa hlt'
  have hne : pageToPa p ≠ 0 := fun h0 => by
    rw [h0] at hbase
    exact absurd hbase (by decide)
  have hnew : ∀ ad, target (mkPte ad (pageToPa p) w) ≠ some 0 := fun ad he => by
    rw [target_mkPte_pageToPa hlt' ad hw] at he
    have := Option.some.inj he
    omega
  simp only [Mm.ptMap, wp_bind]
  refine wp_mono (wp_mild (h.ptSlot hd hpd) (h.wp_ptSlot hu hd hpd)) ?_
  rintro x s1 ⟨v1, hw1⟩
  have hx : target (s1.mem x.1 x.2) ≠ some 0 := by
    have := hw1.grown.look h.shape hw1.inv.shape hd hpd va
    rw [← this, look, hw1.slot] at hold
    exact hold
  have hput : ∀ ad, wp (Mm.ptModify x (mkPte ad (pageToPa p) w)) (fun _ _ => True) Mild s1 := fun ad =>
    wp_ptModify hx (hnew ad)
  simp only [load, check, wp_bind, wp_get, wp_pure, wp_ite, wp_throw]
  exact ⟨fun _ => ⟨fun _ => hput _, fun hn => absurd hne hn⟩, fun _ => ⟨fun h0 => absurd h0 hne,
    fun _ => ⟨fun _ => hput _, fun hn => absurd hbase hn⟩⟩⟩

end Tables

section Faults

variable (h : Inv L s v fl) (hu : 0 < L.pageused) (hd : v.dead = ∅) (hpd : pd ∈ v.roots)
include h hu hd hpd

lemma Inv.wp_place (hp : Taken L s v fl p s1) (hw : w.toNat < 1024) (hold : target (look s pd va) ≠ some 0)
    (g : ℕ → BitVec 64) : wp (Mm.ptMap pd va (pageToPa p) w) (fun _ _ => True) Mild (s1.setPage p g) := by
  have hag : Agrees v s1 (s1.setPage p g) :=
    ⟨fun t ht => Function.update_of_ne (show t ≠ p from fun he => ht (he ▸ hp.lev)) .., rfl, rfl⟩
  have hinv : Inv L (s1.setPage p g) v (p :: fl) :=
    ⟨hp.inv.shape.of_agrees hag, hp.inv.account.congr rfl rfl rfl rfl fun f => by rw [hag.uses]⟩
  have hroot := h.shape.root_of_mem hpd
  refine hinv.wp_ptMap hu hd hroot hp.used hp.lt hw ?_
  rwa [hag.look hp.inv.shape hd hroot, hp.agrees.look h.shape hd hroot]

lemma Inv.wp_pageFaultHandler {violate : Pte}
    (hcow : ∀ f, has (look s pd va) pteCow = true → target (look s pd va) = some f → L.pageused ≤ f)
    (hsmall : has (look s pd va) pteV = false → (look s pd va).toNat < 1024) :
    wp (Mm.pageFaultHandler pd violate va) (fun _ _ => True) Mild s := by
  simp only [Mm.pageFaultHandler, wp_bind, wp_ptLookup, wp_ite, wp_pure]
  have halloc : wp Mm.pmAlloc (fun p s1 => Taken L s v fl p s1) Mild s :=
    wp_pmAlloc (fun _ => .inl rfl) fun _ _ hs => h.take hs
  refine ⟨fun hc => ?_, fun _ => ⟨fun hp => ?_, fun _ => trivial⟩⟩
  · simp only [Mm.cowHandler, wp_bind, vmAlloc, memcpyPage, wp_modify]
    refine wp_mono halloc fun p s1 hp => h.wp_place hu hd hpd hp (toNat_cowedPerm_lt _) (fun ht => ?_) _
    have := hcow 0 hc.2.2.2.2 ht
    omega
  · have hV : has (look s pd va) pteV = false := by simpa using hp.1
    have hlt := hsmall hV
    simp only [Mm.passiveHandler, wp_bind, vmAlloc, check, wp_ite, wp_pure, wp_throw]
    refine ⟨fun _ => wp_mono halloc fun p s1 hp => ?_, fun hn => absurd ?_ hn⟩
    · have hold : target (look s pd va) ≠ some 0 := by
        rw [target_of_not_V hV]
        simp
      have := h.wp_place hu hd hpd hp hlt hold (s1.mem p)
      rwa [setPage_self] at this
    · apply BitVec.eq_of_toNat_eq
      rw [BitVec.toNat_ushiftRight, Nat.shiftRight_eq_div_pow]
      exact Nat.div_eq_of_lt hlt

end Faults

end FarmOS.Mm

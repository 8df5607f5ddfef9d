import FarmOS.Mm.Fork

/-! What resolving a page fault does to the translation of every address. -/

namespace FarmOS.Mm

open Lib Function

variable {L : Layout} {s s' s1 : Phys} {v v' : View} {fl : List ℕ} {f pd r : ℕ}
  {va va' : BitVec 64} {perm pte : Pte}

lemma Agrees.slot (h : Agrees v s s') (hs : Shape L s v) (hd : v.dead = ∅) (hr : v.lev r = 1) :
    Mm.slot s' r va = Mm.slot s r va := by
  refine Option.ext fun x => ?_
  rw [hs.slot_iff hd hr, (hs.of_agrees h).slot_iff hd hr]
  simp only [h.link]

lemma Agrees.look (h : Agrees v s s') (hs : Shape L s v) (hd : v.dead = ∅) (hr : v.lev r = 1) :
    Mm.look s' r va = Mm.look s r va := by
  unfold Mm.look
  rw [h.slot hs hd hr]
  cases hx : Mm.slot s r va with
  | none => rfl
  | some x =>
    have := (hs.slot_lev hd hr hx).1
    simp only
    rw [h.mem x.1 (by omega)]

structure Placed (L : Layout) (s : Phys) (v : View) (fl : List ℕ) (pd : ℕ) (va : BitVec 64) (perm : Pte)
    (content : ℕ → ℕ → BitVec 64) (s' : Phys) : Prop where
  perm_lt : perm.toNat < 1024
  placed : ∃ v' p, Rewritten L s v fl (put (look s) pd va (mkPte s.ad (pageToPa p) perm)) s' v' ∧
    L.pageused ≤ p ∧ p < L.npage ∧ s.ref p = 0 ∧ v'.lev p = 0 ∧ s'.mem p = content p

lemma Inv.place {p : ℕ} (h : Inv L s v fl) (hd : v.dead = ∅) (hpd : pd ∈ v.roots)
    (hp : Taken L s v fl p s1) (hperm : perm.toNat < 1024) (g : ℕ → BitVec 64)
    {content : ℕ → ℕ → BitVec 64} (hg : g = content p) :
    wp (Mm.ptMap pd va (pageToPa p) perm)
      (fun r s' => r = 0 ∧ Placed L s v fl pd va perm content s') NotRefZero (s1.setPage p g) := by
  have hlt := Nat.lt_trans hp.lt L.npage_lt
  have hmem : ∀ t, t ≠ p → (s1.setPage p g).mem t = s.mem t := fun t ht =>
    (update_of_ne ht ..).trans (hp.mem t ht)
  have hag1 : Agrees v s1 (s1.setPage p g) :=
    ⟨fun t ht => update_of_ne (show t ≠ p from fun he => ht (he ▸ hp.lev)) .., rfl, rfl⟩
  have hag : Agrees v s (s1.setPage p g) :=
    ⟨fun t ht => hmem t fun he => ht (he ▸ hp.lev), hp.kernPd, hp.ident⟩
  have hinv : Inv L (s1.setPage p g) v (p :: fl) :=
    ⟨hp.inv.shape.of_agrees hag1, hp.inv.account.congr rfl rfl rfl rfl fun f => by rw [hag1.uses]⟩
  have hentry : entry s.ad (pageToPa p) perm = mkPte s.ad (pageToPa p) perm := by
    refine if_neg fun h0 => ?_
    have := membase_le_pageToPa hlt
    rw [h0] at this
    exact absurd this (by decide)
  have hland : landed (p :: fl) (mkPte s.ad (pageToPa p) perm) = fl := by
    rw [landed, target_mkPte_pageToPa hlt s.ad hperm]
    exact List.erase_cons_head ..
  have hm : Mappable L (s1.setPage p g) (p :: fl) (pageToPa p) perm :=
    ⟨hperm, fun _ => by rw [paToPage_pageToPa hlt]; exact hp.lt,
      fun _ => .inl (by rw [paToPage_pageToPa hlt]; simp)⟩
  have hroot := h.shape.root_of_mem hpd
  refine wp_mono (hinv.ptMap hd hroot (hinv.shape.user_counted hd hpd) hm) fun r s' h' => ?_
  obtain ⟨hr, v', hw⟩ := h'
  rw [show (s1.setPage p g).ad = s.ad from hp.ad, hentry] at hw
  obtain ⟨hlev, hpmem⟩ := hw.frame hd hroot hp.lev (.inl (by simp))
  refine ⟨hr, hperm, v', p, ⟨hland ▸ hw.inv, ?_, fun r va' hr => ?_, fun f h0 hf => ?_,
    fun _ _ _ hl => hw.link hd hroot (hag.link.mpr hl), fun _ ht => hw.heap ht⟩, hp.used, hp.lt, hp.fresh, hlev, ?_⟩
  · have := hw.kept
    exact ⟨this.roots, this.held, this.dead, this.kernPd.trans hp.kernPd, this.ident.trans hp.ident,
      this.ad.trans hp.ad⟩
  · rw [hw.look hd hroot hinv.shape hr, hag.look h.shape hd hr]
    rfl
  · have hpos := (h.pinned_ref hd hf).2
    have hfp : f ≠ p := by
      rintro rfl
      rw [hp.fresh] at hpos
      exact absurd hpos (by decide)
    obtain ⟨h1, h2⟩ := hw.frame hd hroot h0 (.inr (hp.ref.symm ▸ hpos))
    exact ⟨h1, h2.trans (hmem f hfp)⟩
  · rw [hpmem, ← hg]
    exact update_self ..

lemma setPage_self (s : Phys) (p : ℕ) : s.setPage p (s.mem p) = s := by
  rw [Phys.setPage, update_eq_self]

def cowedPerm (pte : Pte) : Pte := (ptePerm pte &&& ~~~pteCow) ||| pteW

lemma toNat_cowedPerm_lt (pte : Pte) : (cowedPerm pte).toNat < 1024 := by
  rw [cowedPerm, BitVec.toNat_or, BitVec.toNat_and]
  exact Nat.or_lt_two_pow (n := 10) (Nat.lt_of_le_of_lt Nat.and_le_left (toNat_ptePerm_lt pte)) (by decide)

def copied (s : Phys) (src p : ℕ) : ℕ → BitVec 64 := update s.mem p (fun _ => 0) src

lemma Taken.mem_eq {p : ℕ} (h : Taken L s v fl p s') (t : ℕ) : s'.mem t = copied s t p := by
  unfold copied
  by_cases ht : t = p
  · subst ht
    rw [update_self]
    exact funext h.zero
  · rw [update_of_ne ht, h.mem t ht]

section Faults

variable (h : Inv L s v fl) (hd : v.dead = ∅) (hpd : pd ∈ v.roots) {violate : Pte}
include h hd hpd

lemma Inv.cowHandler : wp (cowHandler pd pte va) (fun r s' => r = 0 ∧
    Placed L s v fl pd va (cowedPerm pte) (copied s (paToPage (pteToPa pte))) s') NotRefZero s := by
  simp only [Mm.cowHandler, wp_bind, vmAlloc, memcpyPage, wp_modify]
  refine wp_mono h.pmAlloc fun p s1 hp => ?_
  exact h.place hd hpd hp (toNat_cowedPerm_lt pte) (s1.mem (paToPage (pteToPa pte))) (hp.mem_eq _)

lemma Inv.passiveHandler : wp (passiveHandler pd pte va) (fun r s' => r = 0 ∧
    Placed L s v fl pd va pte (fun _ _ => 0) s') NotRefZero s := by
  simp only [Mm.passiveHandler, wp_bind, vmAlloc, check, wp_ite, wp_pure, wp_throw]
  refine ⟨fun hz => ?_, fun _ => by rintro ⟨⟩⟩
  have hperm : pte.toNat < 1024 := by
    have := congrArg BitVec.toNat hz
    rw [BitVec.toNat_ushiftRight, Nat.shiftRight_eq_div_pow] at this
    change pte.toNat / 2 ^ 10 = 0 at this
    omega
  refine wp_mono h.pmAlloc fun p s1 hp => ?_
  have hplace : wp (Mm.ptMap pd va (pageToPa p) pte) (fun r s' => r = 0 ∧
      Placed L s v fl pd va pte (fun _ _ => 0) s') NotRefZero (s1.setPage p (s1.mem p)) :=
    h.place hd hpd hp hperm (s1.mem p) (funext hp.zero)
  rwa [setPage_self] at hplace

def CowFault (violate pte : Pte) : Prop :=
  has violate pteW ∧ pte ≠ 0 ∧ has pte pteU ∧ ¬ has pte pteW ∧ has pte pteCow

instance (violate pte : Pte) : Decidable (CowFault violate pte) :=
  inferInstanceAs (Decidable (_ ∧ _ ∧ _ ∧ _ ∧ _))

def PassiveFault (violate pte : Pte) : Prop := ¬ CowFault violate pte ∧ ¬ has pte pteV ∧ has pte pteU

lemma Inv.pageFaultHandler : wp (pageFaultHandler pd violate va) (fun r s' =>
    (CowFault violate (look s pd va) ∧ r = 0 ∧ Placed L s v fl pd va (cowedPerm (look s pd va))
      (copied s (paToPage (pteToPa (look s pd va)))) s') ∨
    (PassiveFault violate (look s pd va) ∧ r = 0 ∧
      Placed L s v fl pd va (look s pd va) (fun _ _ => 0) s') ∨
    (¬ CowFault violate (look s pd va) ∧ ¬ PassiveFault violate (look s pd va) ∧ r = -1 ∧ s' = s))
    NotRefZero s := by
  simp only [Mm.pageFaultHandler, wp_bind, wp_ptLookup, wp_ite, wp_pure]
  refine ⟨fun hc => ?_, fun hc => ⟨fun hp => ?_, fun hp => ?_⟩⟩
  · exact wp_mono (h.cowHandler hd hpd) fun r s' h' => .inl ⟨hc, h'⟩
  · exact wp_mono (h.passiveHandler hd hpd) fun r s' h' => .inr (.inl ⟨⟨hc, hp⟩, h'⟩)
  · exact .inr (.inr ⟨hc, fun hp' => hp hp'.2, trivial, trivial⟩)

lemma Inv.pageFault_kept : wp (Mm.pageFaultHandler pd violate va)
    (fun _ s' => ∃ v', Inv L s' v' fl ∧ Kept s v s' v') NotRefZero s := by
  refine wp_mono (h.pageFaultHandler hd hpd) fun r s' h' => ?_
  rcases h' with ⟨-, -, -, v', p, hr, -⟩ | ⟨-, -, -, v', p, hr, -⟩ | ⟨-, -, -, rfl⟩
  · exact ⟨v', hr.inv, hr.kept⟩
  · exact ⟨v', hr.inv, hr.kept⟩
  · exact ⟨v, h, .refl _ v⟩

end Faults

end FarmOS.Mm

import FarmOS.Mm.Fault
import FarmOS.Mm.ForkWalk
import FarmOS.Mm.Hold
import FarmOS.Mm.Low
import FarmOS.Mm.Recycle

/-! A forest whose tables are used as tables only: no leaf entry maps one and the kernel holds none but the
roots. -/

namespace FarmOS.Mm

open Lib List

variable {L : Layout} {s s' s1 : Phys} {v v' : View} {fl fl' : List ℕ} {f pd child p r : ℕ}
  {va pa : BitVec 64} {perm w : Pte} {g : ℕ → BitVec 64 → Pte}

structure Tidy (L : Layout) (s : Phys) (v : View) (fl : List ℕ) : Prop where
  inv : Inv L s v fl
  dead : v.dead = ∅
  zero : refs L s v 0 = 0
  heap (t : ℕ) : v.lev t ≠ 0 → L.pageused ≤ t
  leaf (r : ℕ) (va : BitVec 64) (f : ℕ) : v.lev r = 1 → ¬ Uncounted s r va → target (look s r va) = some f →
    v.lev f = 0
  held (f : ℕ) : f ∈ v.held → v.lev f ≠ 0 → f ∈ v.roots

lemma Inv.refs_zero (h : Inv L s v fl) (h' : Inv L s' v' fl') (hh : v'.held = v.held) (hr : s'.ref 0 = s.ref 0) :
    refs L s' v' 0 = refs L s v 0 := by
  have h0 : 0 < L.npage := Nat.lt_of_le_of_lt (Nat.zero_le _) h.account.kern_page.2
  have h1 := h.account.count 0 h0
  have h2 := h'.account.count 0 h0
  rw [uses] at h1 h2
  rw [hh, hr] at h2
  omega

namespace Tidy

section

variable (h : Tidy L s v fl)
include h

lemma soft : Soft (fun _ => False) s v := by
  intro x hx hk
  have hl : v.lev x.1 ≠ 0 := fun h0 => by
    rw [key_of_lev_zero h0] at hk
    cases hk
  have := refs_pos (L := L) (h.inv.shape.lev_lt x.1 hl) hx hk
  have := h.zero
  omega

lemma slotted (hr : v.lev r = 1) (hi : Inv L s' v' fl') (hd : v'.dead = ∅)
    (hr' : v'.lev r = 1) (hl : ∀ t i c, Link s v t i c → Link s' v' t i c) (he : s'.ident = s.ident)
    (hc : ¬ Uncounted s' r va) : ¬ Uncounted s r va := by
  rintro ⟨x, hx, hid⟩
  obtain ⟨hx3, t2, h1, h2⟩ := (h.inv.shape.slot_iff h.dead hr).mp hx
  exact hc ⟨x, (hi.shape.slot_iff hd hr').mpr ⟨hx3, t2, hl _ _ _ h1, hl _ _ _ h2⟩, he ▸ hid⟩

lemma rewritten (hw : Rewritten L s v fl g s' v') (h0 : s'.ref 0 = s.ref 0)
    (hg : ∀ r va f, v.lev r = 1 → ¬ Uncounted s r va → target (g r va) = some f → v'.lev f = 0 ∨
      ∃ q va', v.lev q = 1 ∧ ¬ Uncounted s q va' ∧ target (look s q va') = some f) : Tidy L s' v' fl := by
  have hs := h.inv.shape
  have hd := hw.kept.dead.trans h.dead
  refine ⟨hw.inv, hd, (h.inv.refs_zero hw.inv hw.kept.held h0).trans h.zero, fun t ht => ?_,
    fun r va f hr hc ht => ?_, fun f hf hl => ?_⟩
  · exact (hw.heap t ht).elim (h.heap t) id
  · have hr0 := (hw.root hs).mp hr
    have hc0 := h.slotted hr0 hw.inv hd hr hw.link hw.kept.ident hc
    rw [hw.look r va hr0] at ht
    rcases hg r va f hr0 hc0 ht with hl | ⟨q, va', hq, hcq, htq⟩
    · exact hl
    · exact (hw.frame f (h.leaf q va' f hq hcq htq) (.inr ⟨q, hq, va', hcq, htq⟩)).1
  · rw [hw.kept.held] at hf
    rw [hw.kept.roots]
    refine h.held f hf fun hz => hl ?_
    exact (hw.frame f hz (.inl hf)).1

lemma agrees (ha : Agrees v s s') (hi : Inv L s' v fl') (h0 : refs L s' v 0 = 0) : Tidy L s' v fl' := by
  have hs := h.inv.shape
  refine ⟨hi, h.dead, h0, h.heap, fun r va f hr hc ht => ?_, h.held⟩
  refine h.leaf r va f hr ?_ (ha.look hs h.dead hr ▸ ht)
  exact h.slotted hr hi h.dead hr (fun _ _ _ hl => ha.link.mpr hl) ha.ident hc

lemma taken (hp : Taken L s v fl p s') : Tidy L s' v (p :: fl) :=
  h.agrees hp.agrees hp.inv ((h.inv.refs_zero hp.inv rfl (by rw [hp.ref])).trans h.zero)

lemma vmAlloc : wp vmAlloc (fun p s' => Tidy L s' v (p :: fl) ∧ Taken L s v fl p s') NotRefZero s :=
  wp_mono h.inv.pmAlloc fun _ _ hp => ⟨h.taken hp, hp⟩

lemma kvmAlloc : wp kvmAlloc (fun p s' => Tidy L s' (v.hold p) fl ∧ s'.kernPd = s.kernPd ∧ L.pageused ≤ p ∧
      v.lev p = 0 ∧ refs L s' (v.hold p) p = 0 ∧ (∀ i, s'.mem p i = 0) ∧ s'.ad = s.ad) NotRefZero s := by
  refine wp_mono h.inv.kvmAlloc fun p s' ⟨hinv, s1, hp, hsame, _⟩ => ?_
  have hag : Agrees v s s' := ⟨fun t ht => by rw [hsame.mem, hp.agrees.mem t ht], hsame.kernPd.trans hp.kernPd,
    hsame.ident.trans hp.ident⟩
  have hag' : Agrees (v.hold p) s s' := ⟨hag.mem, hag.kernPd, hag.ident⟩
  have hlook : ∀ r va, v.lev r = 1 → look s' r va = look s r va := fun r va hr => hag.look h.inv.shape h.dead hr
  have hrefs : ∀ f, refs L s' (v.hold p) f = refs L s v f := fun f => by
    rw [refs, hag'.key]
    rfl
  have hfree : refs L s v p = 0 := by
    have := (h.inv.account.ref_zero hp.used hp.lt).mp hp.fresh
    rw [uses] at this
    omega
  refine ⟨⟨hinv, h.dead, (hrefs 0).trans h.zero, h.heap, fun r va f hr hc ht => ?_, fun f hf hl => ?_⟩,
    hag.kernPd, hp.used, hp.lev, (hrefs p).trans hfree, fun i => ?_, hsame.ad.trans hp.ad⟩
  · refine h.leaf r va f hr ?_ (hlook r va hr ▸ ht)
    exact h.slotted hr hinv h.dead hr (fun _ _ _ hl => hag'.link.mpr ⟨hl.1, hl.2, hl.3, hl.4⟩) hag.ident hc
  · rcases mem_cons.mp hf with rfl | hf
    · exact absurd hp.lev hl
    · exact h.held f hf hl
  · rw [hsame.mem]
    exact hp.zero i

lemma kvmFree (hp : p ∈ v.held) (hr : p ∉ v.roots) :
    wp (kvmFree p) (fun _ s' => Tidy L s' (v.drop p) fl ∧ s'.kernPd = s.kernPd) NotRefZero s := by
  refine wp_mono (h.inv.kvmFree hp hr) fun _ s' ⟨hinv, hsame⟩ => ?_
  have hag := hsame.agrees v
  refine ⟨⟨hinv, h.dead, ?_, h.heap, fun r va f hr hc ht => ?_, fun f hf hl => ?_⟩, hsame.kernPd⟩
  · rw [refs, (hsame.agrees (v.drop p)).key]
    exact h.zero
  · refine h.leaf r va f hr ?_ (look_of_mem hsame.mem r va ▸ ht)
    rintro ⟨x, hx, hi⟩
    exact hc ⟨x, slot_of_mem hsame.mem r va ▸ hx, hsame.ident ▸ hi⟩
  · exact h.held f (mem_of_mem_erase hf) hl

lemma plant (hp : Seed s v p) (hu : L.pageused ≤ p) (h0 : refs L s v p = 0) : Tidy L s (v.plant p) fl := by
  have hs := h.inv.shape
  refine ⟨hp.inv h.inv, h.dead, ?_, fun t ht => ?_, fun r va f hr hc ht => ?_, fun f hf hl => ?_⟩
  · rw [refs, hp.key]
    exact h.zero
  · by_cases he : t = p
    · exact he ▸ hu
    · exact h.heap t (Seed.lev_ne v he ▸ ht)
  · by_cases he : r = p
    · rw [he, look_of_zero hp.zero] at ht
      cases ht.symm.trans target_zero
    · rw [Seed.lev_ne v he] at hr
      have hfp : f ≠ p := by
        rintro rfl
        have := (hs.look_refs h.dead hr hc ht).2
        omega
      rw [Seed.lev_ne v hfp]
      exact h.leaf r va f hr hc ht
  · by_cases he : f = p
    · exact he ▸ mem_cons_self
    · exact mem_cons_of_mem p (h.held f hf (Seed.lev_ne v he ▸ hl))

lemma newPt : wp Mm.kvmAlloc (fun p s' => Tidy L s' ((v.hold p).plant p) fl ∧ s'.kernPd = s.kernPd ∧ s'.ad = s.ad)
      NotRefZero s := by
  refine wp_mono h.kvmAlloc fun p s' ⟨ht, hk, hu, hl, h0, hz, ha⟩ => ⟨?_, hk, ha⟩
  exact ht.plant ⟨mem_cons_self, hl, hz⟩ hu h0

lemma written (hpd : v.lev pd = 1) (hw : Written L s v fl pd va w s' v') (h0 : s'.ref 0 = s.ref 0)
    (ht : ∀ f, target w = some f → v.lev f = 0 ∧ (f ∈ fl ∨ 0 < (s.ref f).toNat)) : Tidy L s' v' (landed fl w) := by
  have hs := h.inv.shape
  have hk := hw.kept
  have hd := hk.dead.trans h.dead
  refine ⟨hw.inv, hd, (h.inv.refs_zero hw.inv hk.held h0).trans h.zero, fun t ht => ?_, fun r va' f hr hc htf => ?_,
    fun f hf hl => ?_⟩
  · exact (hw.heap ht).elim (h.heap t) id
  · have hr0 := (hk.root hs hw.inv.shape).mp hr
    have hc0 := h.slotted hr0 hw.inv hd hr (fun _ _ _ hl => hw.link h.dead hpd hl) hk.ident hc
    rw [hw.look h.dead hpd hs hr0] at htf
    split at htf
    · obtain ⟨hl, hsrc⟩ := ht f htf
      exact (hw.frame h.dead hpd hl hsrc).1
    · exact (hw.frame h.dead hpd (h.leaf r va' f hr0 hc0 htf) (.inr (h.inv.look_ref h.dead hr0 hc0 htf).2)).1
  · rw [hk.held] at hf
    rw [hk.roots]
    refine h.held f hf fun hz => hl ?_
    exact (hw.frame h.dead hpd hz (.inr (h.inv.pinned_ref h.dead (.inl hf)).2)).1

lemma ptMapWritten (hpd : v.lev pd = 1) (hc : ¬ Uncounted s pd va) (hm : Mappable L s fl pa perm)
    (hp : membase ≤ pa → v.lev (paToPage pa) = 0) :
    wp (ptMap pd va pa perm) (fun r s' => r = 0 ∧ ∃ v', Tidy L s' v' (landed fl (entry s.ad pa perm)) ∧
      Written L s v fl pd va (entry s.ad pa perm) s' v') NotRefZero s := by
  refine wp_mono (wp_and (h.inv.ptMap h.dead hpd hc hm) (keeps_ptMap pd va pa perm s)) fun r s' ⟨h', h0⟩ => ?_
  obtain ⟨hr, v', hw⟩ := h'
  refine ⟨hr, v', h.written hpd hw h0 fun f hf => ?_, hw⟩
  obtain ⟨hb, hsrc⟩ : membase ≤ pa ∧ paToPage pa = f := by
    unfold entry at hf
    split at hf
    · rw [target_perm hm.perm_lt] at hf
      cases hf
    · rw [target_mkPte _ _ hm.perm_lt] at hf
      split at hf
      · next hb => exact ⟨hb, Option.some.inj hf⟩
      · cases hf
  subst hsrc
  exact ⟨hp hb, hm.source hb⟩

lemma ptMap (hpd : v.lev pd = 1) (hc : ¬ Uncounted s pd va) (hm : Mappable L s fl pa perm)
    (hp : membase ≤ pa → v.lev (paToPage pa) = 0) :
    wp (ptMap pd va pa perm) (fun r s' => r = 0 ∧ ∃ v', Tidy L s' v' (landed fl (entry s.ad pa perm)) ∧
      Kept s v s' v') NotRefZero s :=
  wp_mono (h.ptMapWritten hpd hc hm hp) fun _ _ ⟨hr, v', ht, hw⟩ => ⟨hr, v', ht, hw.kept⟩

lemma ptUnmap (hpd : v.lev pd = 1) (hc : ¬ Uncounted s pd va) :
    wp (ptUnmap pd va) (fun _ s' => Tidy L s' v fl ∧ s'.kernPd = s.kernPd) NotRefZero s := by
  refine wp_mono (wp_and (h.inv.ptUnmap h.dead hpd hc) (keeps_ptUnmap pd va s)) fun _ s' ⟨h', h0⟩ => ?_
  obtain ⟨hinv, x, hx, hsame⟩ := h'
  have hs := h.inv.shape
  have hlev := (hs.slot_lev h.dead hpd hx).1
  refine ⟨⟨hinv, h.dead, (h.inv.refs_zero hinv rfl h0).trans h.zero, h.heap, fun r va' f hr hc' ht => ?_,
    h.held⟩, hsame.kernPd⟩
  rw [look_of_mem hsame.mem, hs.look_setWord h.dead hr hlev] at ht
  split at ht
  · cases ht.symm.trans target_zero
  · refine h.leaf r va' f hr (fun ⟨y, hy, hid⟩ => hc' ⟨y, ?_, hsame.ident.symm ▸ hid⟩) ht
    rw [slot_of_mem hsame.mem, hs.slot_setWord h.dead hr hlev]
    exact hy

lemma fork (hpd : pd ∈ v.roots) (hch : child ∈ v.roots) (hne : pd ≠ child) :
    wp (forkPages pd child) (fun _ s' => ∃ v', Tidy L s' v' fl ∧ Kept s v s' v') NotRefZero s := by
  have hs := h.inv.shape
  refine wp_mono (wp_and (h.inv.forkWalk h.dead hpd hch hne) (keeps_forkPages pd child s)) fun _ s' ⟨h', h0⟩ => ?_
  obtain ⟨hU, v', hw⟩ := h'
  refine ⟨v', h.rewritten hw h0 fun r va f hr hc ht => .inr ?_, hw.kept⟩
  have hparent : ∀ {w}, target w = some f → target w = target (look s pd va) → ∃ q va', v.lev q = 1 ∧
      ¬ Uncounted s q va' ∧ target (look s q va') = some f := fun ht he =>
    ⟨pd, va, hs.root_of_mem hpd, hs.user_counted h.dead hpd, he ▸ ht⟩
  unfold forked at ht
  split at ht
  · next hz =>
    have hu := hU va hz.1 hz.2
    split at ht
    · exact hparent ht (target_childEntry hu s.ad)
    · split at ht
      · exact hparent ht (target_parentEntry hu s.ad)
      · exact ⟨r, va, hr, hc, ht⟩
  · exact ⟨r, va, hr, hc, ht⟩

end

lemma placed {content : ℕ → ℕ → BitVec 64} (h : Tidy L s v fl) (hp : Placed L s v fl pd va perm content s')
    (h0 : s'.ref 0 = s.ref 0) : ∃ v', Tidy L s' v' fl ∧ Kept s v s' v' := by
  obtain ⟨v', p, hw, -, hlt, -, hlev, -⟩ := hp.placed
  refine ⟨v', h.rewritten hw h0 fun r va' f hr hc ht => ?_, hw.kept⟩
  unfold put at ht
  split at ht
  · rw [target_mkPte_pageToPa (Nat.lt_trans hlt L.npage_lt) s.ad hp.perm_lt] at ht
    exact .inl (Option.some.inj ht ▸ hlev)
  · exact .inr ⟨r, va', hr, hc, ht⟩

lemma pageFault (h : Tidy L s v fl) (hpd : pd ∈ v.roots) {violate : Pte} :
    wp (pageFaultHandler pd violate va) (fun _ s' => ∃ v', Tidy L s' v' fl ∧ Kept s v s' v') NotRefZero s := by
  refine wp_mono (wp_and (h.inv.pageFaultHandler h.dead hpd) (keeps_pageFaultHandler pd violate va s))
    fun r s' ⟨h', h0⟩ => ?_
  rcases h' with ⟨-, -, hp⟩ | ⟨-, -, hp⟩ | ⟨-, -, -, rfl⟩
  · exact h.placed hp h0
  · exact h.placed hp h0
  · exact ⟨v, h, .refl _ v⟩

end Tidy

section Razed

variable (h : Inv L s v fl) (hz : Razed L s v fl pd s' v') {q : ℕ}
include h hz

lemma Razed.root (hpd : pd ∈ v.roots) (hq : v'.lev q = 1) : v.lev q = 1 ∧ q ≠ pd := by
  rcases (hz.inv.shape.root q).mp hq with rfl | hm
  · rw [hz.kernPd]
    refine ⟨(h.shape.root _).mpr (.inl rfl), ?_⟩
    rintro rfl
    exact h.shape.kern_root hpd
  · rw [hz.roots] at hm
    obtain ⟨hne, hm⟩ := h.shape.roots_nodup.mem_erase_iff.mp hm
    exact ⟨h.shape.root_of_mem hm, hne⟩

variable (hd : v.dead = ∅)
include hd

lemma Razed.slot (hq : v.lev q = 1) : slot s' q va = slot s q va := by
  have hnext : ∀ level t, v.lev t ≠ 3 → next s' va level t = next s va level t := fun level t ht => by
    unfold next
    rw [hz.mem t fun he => ht he.1]
  unfold Mm.slot
  rw [hnext 1 q (by omega)]
  cases hn : next s va 1 q with
  | none => rfl
  | some t2 =>
    have hl := (h.shape.link _ _ _ ((h.shape.next_link (.inl hq) (by simp [hd])).mp hn)).1
    simp only
    rw [hnext 2 t2 (by omega)]

lemma Razed.look (hq : v.lev q = 1) (hne : q ≠ pd) : look s' q va = look s q va := by
  unfold Mm.look
  rw [hz.slot h hd hq]
  cases hx : Mm.slot s q va with
  | none => rfl
  | some x =>
    have ho := (h.shape.slot_lev hd hq hx).2.1
    simp only
    rw [hz.mem x.1 fun he => hne (ho.symm.trans he.2)]

end Razed

lemma Tidy.recycleUpt (h : Tidy L s v fl) (hpd : pd ∈ v.roots) :
    wp (recycleUpt pd) (fun r s' => r = 0 ∧ ∃ v', Tidy L s' v' fl ∧ Razed L s v fl pd s' v') (fun _ => False) s := by
  have hi := h.inv
  refine wp_mono (hi.recycleUpt h.soft h.dead hpd) fun r s' ⟨hr, v', hz⟩ => ⟨hr, v', ?_, hz⟩
  refine ⟨hz.inv, hz.dead, ?_, fun t ht => h.heap t (hz.lev t ht), fun q va f hq hc ht => ?_, fun f hf hl => ?_⟩
  · refine occ_eq_zero.mpr fun x hx hk => ?_
    exact occ_eq_zero.mp h.zero x hx (hz.key x 0 hk)
  · obtain ⟨hq0, hne⟩ := hz.root hi hpd hq
    rw [hz.look hi h.dead hq0 hne] at ht
    rw [Uncounted, hz.slot hi h.dead hq0, hz.ident] at hc
    by_contra hl
    exact hz.lev f hl (h.leaf q va f hq0 hc ht)
  · rw [hz.held] at hf
    obtain ⟨hne, hf⟩ := hi.shape.held_nodup.mem_erase_iff.mp hf
    rw [hz.roots]
    exact hi.shape.roots_nodup.mem_erase_iff.mpr ⟨hne, h.held f hf (hz.lev f hl)⟩

end FarmOS.Mm

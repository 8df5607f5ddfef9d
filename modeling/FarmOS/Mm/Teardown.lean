import FarmOS.Mm.Map

/-! Taking an address space down: every leaf entry is cleared and every table given back while the links
to it still stand in memory. -/

namespace FarmOS.Mm

open Lib Function List

variable {L : Layout} {s s' s1 : Phys} {v : View} {fl : List ℕ} {t i t' i' c n f pd : ℕ}
  {x : ℕ × ℕ} {E : Panic → Prop}

def View.release (v : View) (t i c : ℕ) : View :=
  { v with lev := update v.lev c 0, dead := insert (t, i) v.dead }

structure Spent (s : Phys) (v : View) (t i c : ℕ) : Prop where
  link : Link s v t i c
  empty (j : ℕ) : j < 512 → key s v (c, j) = none
  user : v.own c ≠ s.kernPd

namespace Spent

lemma lev_ne (v : View) (h : t' ≠ c) : (v.release t i c).lev t' = v.lev t' := update_of_ne h ..

lemma lev_self (v : View) (t i c : ℕ) : (v.release t i c).lev c = 0 := update_self ..

lemma lev_pos (h : (v.release t i c).lev t' ≠ 0) : t' ≠ c ∧ v.lev t' = (v.release t i c).lev t' := by
  have hne : t' ≠ c := by
    rintro rfl
    exact h (lev_self v t i t')
  exact ⟨hne, (lev_ne v hne).symm⟩

lemma linkIff (h : Spent s v t i c) (hs : Shape L s v) :
    Link s (v.release t i c) t' i' n ↔ Link s v t' i' n ∧ n ≠ c := by
  constructor
  · rintro ⟨hl, hi, hd, ht⟩
    have hpos : (v.release t i c).lev t' ≠ 0 := by omega
    obtain ⟨-, he⟩ := lev_pos hpos
    have hold : Link s v t' i' n := ⟨he ▸ hl, hi, fun hm => hd (Set.mem_insert_of_mem _ hm), ht⟩
    refine ⟨hold, ?_⟩
    rintro rfl
    obtain ⟨rfl, rfl⟩ := hs.inj _ _ _ _ _ hold h.link
    exact hd (Set.mem_insert ..)
  · rintro ⟨hl, hn⟩
    have htc : t' ≠ c := by
      rintro rfl
      have := h.empty i' hl.index
      rw [hl.key_eq hs] at this
      cases this
    refine ⟨(lev_ne v htc).symm ▸ hl.level, hl.index, ?_, hl.tgt⟩
    rintro (he | hm)
    · obtain ⟨rfl, rfl⟩ := Prod.mk.inj he
      exact hn (Option.some.inj (hl.tgt.symm.trans h.link.tgt))
    · exact hl.live hm

section

open scoped Classical

lemma key_eq (h : Spent s v t i c) (hx : x.2 < 512) :
    key s (v.release t i c) x = if x = (t, i) then none else key s v x := by
  by_cases hxe : x = (t, i)
  · rw [if_pos hxe]
    exact if_neg fun hk => hk.2.1 (hxe ▸ Set.mem_insert ..)
  · rw [if_neg hxe]
    by_cases hxc : x.1 = c
    · rw [key_of_lev_zero (by rw [hxc]; exact lev_self v t i c), ← h.empty x.2 hx, ← hxc]
    · refine if_congr ?_ rfl rfl
      rw [lev_ne v hxc]
      simp [View.release, hxe]

end

lemma key_old (h : key s (v.release t i c) x = some f) : key s v x = some f := by
  unfold key at h ⊢
  split at h
  · next hx =>
    rw [if_pos ⟨(lev_pos hx.1).2 ▸ hx.1, fun hm => hx.2.1 (Set.mem_insert_of_mem _ hm), hx.2.2⟩]
    exact h
  · cases h

lemma uses (h : Spent s v t i c) (hs : Shape L s v) (f : ℕ) :
    Mm.uses L s (v.release t i c) f + (if f = c then 1 else 0) = Mm.uses L s v f := by
  have hlt := hs.lev_lt t (by have := h.link.level; omega)
  have hc := occ_change (S := L.words) (f := key s v) (g := key s (v.release t i c))
    (k := some f) (a := (t, i)) (mem_words.mpr ⟨hlt, h.link.index⟩) fun y hy hne => by
      rw [h.key_eq (mem_words.mp hy).2, if_neg hne]
  rw [h.key_eq h.link.index, if_pos rfl, h.link.key_eq hs, if_neg (c := none = some f) (by simp),
    Nat.add_zero] at hc
  simp only [Option.some.injEq, eq_comm (a := c)] at hc
  rw [Mm.uses, Mm.uses, refs, refs, ← hc]
  simp only [View.release]
  omega

lemma shape (h : Spent s v t i c) (hs : Shape L s v) : Shape L s (v.release t i c) where
  root t' := by
    refine Iff.trans ?_ (hs.root t')
    by_cases ht : t' = c
    · have := (hs.link _ _ _ h.link).1
      have := h.link.level
      rw [ht, lev_self]
      omega
    · rw [lev_ne v ht]
  lev_le t' := by
    by_cases ht : t' = c
    · rw [ht, lev_self]
      omega
    · rw [lev_ne v ht]
      exact hs.lev_le t'
  lev_lt t' hl := hs.lev_lt t' ((lev_pos hl).2 ▸ hl)
  own_root t' hl := by
    have hp : (v.release t i c).lev t' ≠ 0 := by omega
    exact hs.own_root t' ((lev_pos hp).2.trans hl)
  link t' i' n hl := by
    obtain ⟨hold, hn⟩ := (h.linkIff hs).mp hl
    have hp : (v.release t i c).lev t' ≠ 0 := by
      have := hl.level
      omega
    rw [lev_ne v hn, lev_ne v (lev_pos hp).1]
    exact hs.link t' i' n hold
  link_some t' i' hl hi hd hV := by
    refine hs.link_some t' i' ?_ hi (fun hm => hd (Set.mem_insert_of_mem _ hm)) hV
    have hp : (v.release t i c).lev t' ≠ 0 := by omega
    rwa [(lev_pos hp).2]
  inj t1 i1 t2 i2 n h1 h2 := hs.inj t1 i1 t2 i2 n ((h.linkIff hs).mp h1).1 ((h.linkIff hs).mp h2).1
  parent n hn := by
    have hpos : (v.release t i c).lev n ≠ 0 := by omega
    obtain ⟨hne, he⟩ := lev_pos hpos
    obtain ⟨t', i', hl⟩ := hs.parent n (he ▸ hn)
    exact ⟨t', i', (h.linkIff hs).mpr ⟨hl, hne⟩⟩
  inval t' i' hl := hs.inval t' i' ((lev_pos hl).2 ▸ hl)
  tgt_lt t' i' f hi hk := by
    rw [h.key_eq hi] at hk
    split at hk
    · cases hk
    · exact hs.tgt_lt t' i' f hi hk
  ident x hx := by
    obtain ⟨h1, h2⟩ := hs.ident x hx
    have hne : x.1 ≠ c := fun he => h.user (he ▸ h2)
    rw [lev_ne v hne]
    exact ⟨h1, h2⟩
  dead x hx := by
    by_cases hxc : x.1 = c
    · rw [hxc, lev_self]
      decide
    · rw [lev_ne v hxc]
      rcases hx with rfl | hx
      · have := h.link.level
        simp only
        omega
      · exact hs.dead x hx
  __ := hs

end Spent

lemma Inv.freeTable (h : Inv L s v fl) (hc : Spent s v t i c) :
    wp (kvmUnmapper c) (fun r s' => r = 0 ∧ Inv L s' (v.release t i c) fl ∧ SameMaps s s') E s := by
  have hs := h.shape
  have hk := hc.link.key_eq hs
  have hpos : 0 < uses L s v c := by
    have := refs_pos (L := L) (hs.lev_lt t (by have := hc.link.level; omega)) hc.link.index hk
    rw [uses]
    omega
  simp only [kvmUnmapper, wp_bind, wp_pure]
  refine wp_mono (h.account.dec (hs.tgt_lt t i c hc.link.index hk) hpos (hc.uses hs)) fun _ s' h' => ?_
  obtain ⟨hacc, hsame⟩ := h'
  refine ⟨trivial, ⟨(hc.shape hs).of_agrees (hsame.agrees _), ?_⟩, hsame⟩
  rwa [(hsame.agrees _).uses]

def View.fell (v : View) (pd : ℕ) : View :=
  { v with
    lev := update v.lev pd 0
    dead := ∅
    roots := v.roots.erase pd
    held := v.held.erase pd }

structure Bare (s : Phys) (v : View) (pd : ℕ) : Prop where
  root : pd ∈ v.roots
  empty (i c : ℕ) : ¬ Link s v pd i c
  dead (x : ℕ × ℕ) : x ∈ v.dead → x.1 = pd ∨ v.lev x.1 = 0

namespace Bare

lemma lev_ne (v : View) (h : t ≠ pd) : (v.fell pd).lev t = v.lev t := update_of_ne h ..

lemma lev_self (v : View) (pd : ℕ) : (v.fell pd).lev pd = 0 := update_self ..

lemma lev_pos (h : (v.fell pd).lev t ≠ 0) : t ≠ pd ∧ v.lev t = (v.fell pd).lev t := by
  have hne : t ≠ pd := by
    rintro rfl
    exact h (lev_self v t)
  exact ⟨hne, (lev_ne v hne).symm⟩

lemma live (h : Bare s v pd) (hx : (v.fell pd).lev x.1 ≠ 0) : x ∉ v.dead := fun hm => by
  obtain ⟨hne, he⟩ := lev_pos hx
  rcases h.dead x hm with h0 | h0
  · exact hne h0
  · omega

lemma linkIff (h : Bare s v pd) : Link s (v.fell pd) t i c ↔ Link s v t i c := by
  constructor
  · intro hl
    have hp : (v.fell pd).lev t ≠ 0 := by
      have := hl.level
      omega
    exact ⟨(lev_pos hp).2 ▸ hl.level, hl.index, h.live hp, hl.tgt⟩
  · intro hl
    have hne : t ≠ pd := by
      rintro rfl
      exact h.empty i c hl
    exact ⟨(lev_ne v hne).symm ▸ hl.level, hl.index, by simp [View.fell], hl.tgt⟩

section

open scoped Classical

lemma key_eq (h : Bare s v pd) (hs : Shape L s v) (hx : x.2 < 512) : key s (v.fell pd) x = key s v x := by
  by_cases hxp : x.1 = pd
  · rw [key_of_lev_zero (by rw [hxp]; exact lev_self v pd)]
    cases hk : key s v x with
    | none => rfl
    | some c =>
      unfold key at hk
      split at hk
      · next hc =>
        refine absurd ⟨.inl ?_, hx, ?_, hxp ▸ hk⟩ (h.empty x.2 c)
        · exact (hs.root pd).mpr (.inr h.root)
        · exact hxp ▸ hc.2.1
      · cases hk
  · by_cases h0 : v.lev x.1 = 0
    · rw [key_of_lev_zero h0, key_of_lev_zero ((lev_ne v hxp).trans h0)]
    · refine if_congr ?_ rfl rfl
      rw [lev_ne v hxp]
      have := h.live (x := x) (by rwa [lev_ne v hxp])
      simp [View.fell, this]

end

lemma key_old (h : Bare s v pd) (hk : key s (v.fell pd) x = some f) : key s v x = some f := by
  unfold key at hk ⊢
  split at hk
  · next hx =>
    rw [if_pos ⟨(lev_pos hx.1).2 ▸ hx.1, h.live hx.1, hx.2.2⟩]
    exact hk
  · cases hk

lemma uses (h : Bare s v pd) (hs : Shape L s v) (f : ℕ) :
    Mm.uses L s (v.fell pd) f + (if f = pd then 1 else 0) = Mm.uses L s v f := by
  have hr : refs L s (v.fell pd) f = refs L s v f :=
    occ_congr fun x hx => h.key_eq hs (mem_words.mp hx).2
  have hm := hs.roots_held pd h.root
  rw [Mm.uses, Mm.uses, hr, View.fell]
  by_cases hf : f = pd
  · subst hf
    have := count_pos_iff.mpr hm
    rw [if_pos rfl, count_erase_self]
    omega
  · rw [if_neg hf, count_erase_of_ne hf]
    omega

lemma shape (h : Bare s v pd) (hs : Shape L s v) : Shape L s (v.fell pd) where
  root t := by
    have hm : t ∈ (v.fell pd).roots ↔ t ≠ pd ∧ t ∈ v.roots := hs.roots_nodup.mem_erase_iff
    rw [hm]
    by_cases ht : t = pd
    · subst ht
      rw [lev_self]
      have : t ≠ s.kernPd := fun he => hs.kern_root (he ▸ h.root)
      simp [this]
    · rw [lev_ne v ht, hs.root t]
      simp [ht]
  lev_le t := by
    by_cases ht : t = pd
    · rw [ht, lev_self]
      omega
    · rw [lev_ne v ht]
      exact hs.lev_le t
  lev_lt t hl := hs.lev_lt t ((lev_pos hl).2 ▸ hl)
  own_root t hl := by
    have hp : (v.fell pd).lev t ≠ 0 := by omega
    exact hs.own_root t ((lev_pos hp).2.trans hl)
  link t i c hl := by
    have hp : (v.fell pd).lev t ≠ 0 := by
      have := hl.level
      omega
    obtain ⟨h1, h2⟩ := hs.link t i c (h.linkIff.mp hl)
    have hc : c ≠ pd := by
      rintro rfl
      have := hs.root_of_mem h.root
      have := (h.linkIff.mp hl).level
      omega
    rw [lev_ne v hc, lev_ne v (lev_pos hp).1]
    exact ⟨h1, h2⟩
  link_some t i hl hi hd hV := by
    have hp : (v.fell pd).lev t ≠ 0 := by omega
    exact hs.link_some t i ((lev_pos hp).2 ▸ hl) hi (h.live hp) hV
  inj t i t' i' c h1 h2 := hs.inj t i t' i' c (h.linkIff.mp h1) (h.linkIff.mp h2)
  parent c hc := by
    have hp : (v.fell pd).lev c ≠ 0 := by omega
    obtain ⟨t, i, hl⟩ := hs.parent c ((lev_pos hp).2 ▸ hc)
    exact ⟨t, i, h.linkIff.mpr hl⟩
  inval t i hl := hs.inval t i ((lev_pos hl).2 ▸ hl)
  tgt_lt t i f hi hk := hs.tgt_lt t i f hi ((h.key_eq hs (x := (t, i)) hi).symm.trans hk)
  ident x hx := by
    obtain ⟨h1, h2⟩ := hs.ident x hx
    have hne : x.1 ≠ pd := by
      intro he
      have := hs.root_of_mem h.root
      rw [he] at h1
      omega
    rw [lev_ne v hne]
    exact ⟨h1, h2⟩
  dead x hx := by simp [View.fell] at hx
  roots_nodup := hs.roots_nodup.erase pd
  roots_held t ht := by
    obtain ⟨hne, hm⟩ := hs.roots_nodup.mem_erase_iff.mp ht
    exact hs.held_nodup.mem_erase_iff.mpr ⟨hne, hs.roots_held t hm⟩
  kern_root hm := hs.kern_root (mem_of_mem_erase hm)
  held_nodup := hs.held_nodup.erase pd
  held_lt f hf := hs.held_lt f (mem_of_mem_erase hf)

end Bare

lemma Inv.freeRoot (h : Inv L s v fl) (hb : Bare s v pd) :
    wp (kvmUnmapper pd) (fun r s' => r = 0 ∧ Inv L s' (v.fell pd) fl ∧ SameMaps s s') E s := by
  have hs := h.shape
  have hheld := hs.roots_held pd hb.root
  have hpos : 0 < uses L s v pd := by
    have := count_pos_iff.mpr hheld
    rw [uses]
    omega
  simp only [kvmUnmapper, wp_bind, wp_pure]
  refine wp_mono (h.account.dec (hs.held_lt pd hheld) hpos (hb.uses hs)) fun _ s' h' => ?_
  obtain ⟨hacc, hsame⟩ := h'
  refine ⟨trivial, ⟨(hb.shape hs).of_agrees (hsame.agrees _), ?_⟩, hsame⟩
  rwa [(hsame.agrees _).uses]

def Soft (E : Panic → Prop) (s : Phys) (v : View) : Prop := ∀ x, x.2 < 512 → key s v x = some 0 → E .assertion

structure Swept (s : Phys) (v : View) (pt2 : ℕ) (s' : Phys) : Prop where
  link (t i c : ℕ) : Link s' v t i c ↔ Link s v t i c
  mem (t : ℕ) : t ≠ pt2 → s'.mem t = s.mem t
  key (x : ℕ × ℕ) (f : ℕ) : key s' v x = some f → key s v x = some f
  kernPd : s'.kernPd = s.kernPd
  ident : s'.ident = s.ident

lemma Inv.clearTable (h : Inv L s v fl) (hE : Soft E s v) (hpd : pd ∈ v.roots) {pt1 pt2 j : ℕ}
    (h1 : Link s v pd i pt1) (h2 : Link s v pt1 j pt2) :
    wp (loop (walkLeaf (vmUnmapper pd) i j pt2) 0 pageIndexMax) (fun r s' => r = 0 ∧ Inv L s' v fl ∧
      Swept s v pt2 s' ∧ ∀ k < pageIndexMax, s'.mem pt2 k = 0) E s := by
  have hl1 := h.shape.link _ _ _ h1
  have hl2 := h.shape.link _ _ _ h2
  have hroot := h.shape.root_of_mem hpd
  refine wp_loop_zero (I := fun k s' => Inv L s' v fl ∧ Swept s v pt2 s' ∧ ∀ k' < k, s'.mem pt2 k' = 0)
    pageIndexMax ⟨h, ⟨fun _ _ _ => Iff.rfl, fun _ _ => rfl, fun _ _ hk => hk, rfl, rfl⟩,
      fun k hk => absurd hk (Nat.not_lt_zero k)⟩ ?_
  rintro k s1 hk ⟨hinv, hsw, hz⟩
  simp only [walkLeaf, load, wp_bind, wp_get, wp_pure, wp_ite]
  refine ⟨fun hne => ?_, fun h0 => ⟨trivial, hinv, hsw, fun k' hk' => ?_⟩⟩
  · have hx : Leaf s1 v (pt2, k) := by
      refine ⟨by simp only; omega, hk, fun hid => h.shape.kern_root ?_⟩
      rw [← hsw.kernPd, ← (hinv.shape.ident _ hid).2, hl2.2, hl1.2, h.shape.own_root pd hroot]
      exact hpd
    have hslot := hinv.shape.slot_of_links ((hsw.link _ _ _).mpr h1) ((hsw.link _ _ _).mpr h2) hk
    refine wp_mono (hinv.clearSlot hslot hx fun h0 => hE _ hk (hsw.key _ _ h0)) fun r s2 h' => ?_
    obtain ⟨hr, hinv2, hsame⟩ := h'
    refine ⟨hr hne, hinv2, ⟨fun t i c => ?_, fun t ht => ?_, fun y f hk => ?_,
      hsame.kernPd.trans hsw.kernPd, hsame.ident.trans hsw.ident⟩, fun k' hk' => ?_⟩
    · rw [(hsame.agrees v).link, Link.setWord hx.lev, hsw.link]
    · rw [hsame.mem, ← hsw.mem t ht]
      exact update_of_ne ht ..
    · rw [(hsame.agrees v).key] at hk
      refine hsw.key y f ?_
      by_cases hy : y = (pt2, k)
      · rw [hy, (hx.setWord 0).key_eq (hinv.shape.setLeaf hx (entry_zero L)), mem_setWord_self] at hk
        cases hk.symm.trans target_zero
      · rwa [key_setWord_ne hy] at hk
    · rw [hsame.mem]
      by_cases he : k' = k
      · rw [he]
        exact mem_setWord_self ..
      · rw [mem_setWord_ne s1 0 fun hp => he (Prod.mk.inj hp).2]
        exact hz k' (by omega)
  · by_cases he : k' = k
    · simpa [he] using h0
    · exact hz k' (by omega)

end FarmOS.Mm

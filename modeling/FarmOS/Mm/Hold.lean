import FarmOS.Mm.Attach

/-! Pages held by the kernel itself: taking one, giving it back, and using one as the root of a new
address space. -/

namespace FarmOS.Mm

open Lib Function List

variable {L : Layout} {s s' : Phys} {v : View} {fl : List ℕ} {t i c n f : ℕ} {x : ℕ × ℕ}

def View.hold (v : View) (p : ℕ) : View := { v with held := p :: v.held }

def View.drop (v : View) (p : ℕ) : View := { v with held := v.held.erase p }

lemma uses_hold (L : Layout) (s : Phys) (v : View) (p f : ℕ) :
    uses L s (v.hold p) f = uses L s v f + if f = p then 1 else 0 := by
  have hr : refs L s (v.hold p) f = refs L s v f := rfl
  rw [uses, uses, hr, View.hold, count_cons]
  simp only [beq_iff_eq, eq_comm (a := p)]
  omega

lemma uses_drop (L : Layout) (s : Phys) (v : View) {p : ℕ} (hp : p ∈ v.held) (f : ℕ) :
    uses L s (v.drop p) f + (if f = p then 1 else 0) = uses L s v f := by
  have hr : refs L s (v.drop p) f = refs L s v f := rfl
  rw [uses, uses, hr, View.drop]
  by_cases hf : f = p
  · subst hf
    have := count_pos_iff.mpr hp
    rw [if_pos rfl, count_erase_self]
    omega
  · rw [if_neg hf, count_erase_of_ne hf]
    omega

lemma Shape.holding (h : Shape L s v) {l : List ℕ} (hr : ∀ t ∈ v.roots, t ∈ l) (hn : l.Nodup)
    (hlt : ∀ f ∈ l, f < L.npage) : Shape L s { v with held := l } where
  __ := h
  link t i c hl := h.link t i c ⟨hl.1, hl.2, hl.3, hl.4⟩
  inj t i t' i' c h1 h2 := h.inj t i t' i' c ⟨h1.1, h1.2, h1.3, h1.4⟩ ⟨h2.1, h2.2, h2.3, h2.4⟩
  parent c hc := by
    obtain ⟨t, i, hl⟩ := h.parent c hc
    exact ⟨t, i, hl.1, hl.2, hl.3, hl.4⟩
  roots_held := hr
  held_nodup := hn
  held_lt := hlt

lemma Inv.kvmAlloc (h : Inv L s v fl) :
    wp kvmAlloc (fun p s' => Inv L s' (v.hold p) fl ∧ ∃ s1, Taken L s v fl p s1 ∧
      SameMaps s1 s' ∧ s'.ref = update s.ref p 1) NotRefZero s := by
  simp only [Mm.kvmAlloc, wp_bind, pmPageIncRef, wp_modify, wp_pure]
  refine wp_mono h.pmAlloc fun p s1 hp => ?_
  have hsh := hp.inv.shape
  have hzero : s1.ref p = 0 := hp.ref ▸ hp.fresh
  have huse : uses L s1 v p = 0 := (hp.inv.account.ref_zero hp.used hp.lt).mp hzero
  have hnot : p ∉ v.held := fun hm => by
    have := count_pos_iff.mpr hm
    rw [uses] at huse
    omega
  refine ⟨⟨?_, ?_⟩, s1, hp, ⟨rfl, rfl, rfl, rfl⟩, ?_⟩
  · refine Shape.of_agrees (s := s1) ?_ ⟨fun _ _ => rfl, rfl, rfl⟩
    refine hsh.holding (fun t ht => mem_cons_of_mem p (hsh.roots_held t ht))
      (nodup_cons.mpr ⟨hnot, hsh.held_nodup⟩) fun f hf => ?_
    rcases mem_cons.mp hf with rfl | hf
    · exact hp.lt
    · exact hsh.held_lt f hf
  · have := hp.inv.account.inc hp.lt (.inl (by simp)) (by omega) (uses_hold L s1 v p)
    rwa [erase_cons_head] at this
  · change update s1.ref p (s1.ref p + 1) = _
    rw [hzero, hp.ref]
    rfl

lemma Inv.kvmFree (h : Inv L s v fl) (hp : n ∈ v.held) (hr : n ∉ v.roots) :
    wp (kvmFree n) (fun _ s' => Inv L s' (v.drop n) fl ∧ SameMaps s s') NotRefZero s := by
  have hsh := h.shape
  have hpos : 0 < uses L s v n := by
    have := count_pos_iff.mpr hp
    rw [uses]
    omega
  refine wp_mono (h.account.dec (hsh.held_lt n hp) hpos (uses_drop L s v hp)) fun _ s' h' => ?_
  obtain ⟨hacc, hsame⟩ := h'
  have hshape : Shape L s (v.drop n) := by
    refine hsh.holding (fun t ht => ?_) (hsh.held_nodup.erase n) fun f hf =>
      hsh.held_lt f (mem_of_mem_erase hf)
    refine (hsh.held_nodup.mem_erase_iff).mpr ⟨?_, hsh.roots_held t ht⟩
    rintro rfl
    exact hr ht
  refine ⟨⟨hshape.of_agrees (hsame.agrees _), ?_⟩, hsame⟩
  rwa [(hsame.agrees _).uses]

def View.plant (v : View) (p : ℕ) : View :=
  { v with
    lev := update v.lev p 1
    own := update v.own p p
    roots := p :: v.roots }

structure Seed (s : Phys) (v : View) (p : ℕ) : Prop where
  held : p ∈ v.held
  lev : v.lev p = 0
  zero (i : ℕ) : s.mem p i = 0

namespace Seed

variable {p : ℕ}

lemma lev_ne (v : View) (h : t ≠ p) : (v.plant p).lev t = v.lev t := update_of_ne h ..

lemma own_ne (v : View) (h : t ≠ p) : (v.plant p).own t = v.own t := update_of_ne h ..

lemma lev_self (v : View) (p : ℕ) : (v.plant p).lev p = 1 := update_self ..

lemma ne (h : Seed s v p) (ht : v.lev t ≠ 0) : t ≠ p := fun he => ht (he ▸ h.lev)

lemma link (h : Seed s v p) : Link s (v.plant p) t i c ↔ Link s v t i c := by
  by_cases ht : t = p
  · subst ht
    constructor
    · rintro ⟨-, -, -, htgt⟩
      rw [h.zero] at htgt
      cases htgt.symm.trans target_zero
    · rintro ⟨hl, -, -, -⟩
      have := h.lev
      omega
  · constructor
    · rintro ⟨h1, h2, h3, h4⟩
      exact ⟨lev_ne v ht ▸ h1, h2, h3, h4⟩
    · rintro ⟨h1, h2, h3, h4⟩
      exact ⟨(lev_ne v ht).symm ▸ h1, h2, h3, h4⟩

section

open scoped Classical

lemma key (h : Seed s v p) : Mm.key s (v.plant p) = Mm.key s v := by
  funext x
  by_cases hx : x.1 = p
  · rw [key_of_lev_zero (v := v) (hx.symm ▸ h.lev)]
    unfold Mm.key
    rw [hx, h.zero]
    simp
  · exact if_congr (by rw [lev_ne v hx]; rfl) rfl rfl

end

lemma shape (h : Seed s v p) (hs : Shape L s v) : Shape L s (v.plant p) where
  root t := by
    by_cases ht : t = p
    · subst ht
      simp [View.plant]
    · rw [lev_ne v ht, hs.root t]
      simp [View.plant, ht]
  lev_le t := by
    by_cases ht : t = p
    · subst ht
      rw [lev_self]
      decide
    · rw [lev_ne v ht]
      exact hs.lev_le t
  lev_lt t hl := by
    by_cases ht : t = p
    · exact ht ▸ hs.held_lt p h.held
    · rw [lev_ne v ht] at hl
      exact hs.lev_lt t hl
  own_root t hl := by
    by_cases ht : t = p
    · subst ht
      exact update_self ..
    · rw [lev_ne v ht] at hl
      rw [own_ne v ht]
      exact hs.own_root t hl
  link t i c hl := by
    have hl := h.link.mp hl
    obtain ⟨h1, h2⟩ := hs.link t i c hl
    have ht := h.ne (t := t) (by have := hl.level; omega)
    have hc := h.ne (t := c) (by omega)
    rw [lev_ne v ht, lev_ne v hc, own_ne v ht, own_ne v hc]
    exact ⟨h1, h2⟩
  link_some t i hl hi hd hV := by
    by_cases ht : t = p
    · rw [ht, h.zero] at hV
      exact absurd hV (by decide)
    · rw [lev_ne v ht] at hl
      exact hs.link_some t i hl hi hd hV
  inj t i t' i' c h1 h2 := hs.inj t i t' i' c (h.link.mp h1) (h.link.mp h2)
  parent c hc := by
    have hcp : c ≠ p := by
      rintro rfl
      rw [lev_self] at hc
      omega
    rw [lev_ne v hcp] at hc
    obtain ⟨t, i, hl⟩ := hs.parent c hc
    exact ⟨t, i, h.link.mpr hl⟩
  inval t i hl hi hV := by
    by_cases ht : t = p
    · rw [ht, h.zero]
      rfl
    · rw [lev_ne v ht] at hl
      exact hs.inval t i hl hi hV
  tgt_lt := by
    rw [h.key]
    exact hs.tgt_lt
  ident x hx := by
    obtain ⟨h1, h2⟩ := hs.ident x hx
    have hxp := h.ne (t := x.1) (by omega)
    rw [lev_ne v hxp, own_ne v hxp]
    exact ⟨h1, h2⟩
  dead x hx := by
    by_cases hxp : x.1 = p
    · rw [hxp, lev_self]
      decide
    · rw [lev_ne v hxp]
      exact hs.dead x hx
  roots_nodup := by
    refine nodup_cons.mpr ⟨fun hm => ?_, hs.roots_nodup⟩
    have := (hs.root p).mpr (.inr hm)
    rw [h.lev] at this
    cases this
  roots_held t ht := by
    rcases mem_cons.mp ht with rfl | ht
    · exact h.held
    · exact hs.roots_held t ht
  kern_root hm := by
    have hk := (hs.root s.kernPd).mpr (.inl rfl)
    rcases mem_cons.mp hm with he | hm
    · rw [he, h.lev] at hk
      cases hk
    · exact hs.kern_root hm
  __ := hs

lemma inv (h : Seed s v p) (hi : Inv L s v fl) : Inv L s (v.plant p) fl := by
  refine ⟨h.shape hi.shape, hi.account.congr rfl rfl rfl rfl fun f => ?_⟩
  rw [uses, uses, refs, refs, h.key]
  rfl

end Seed

lemma Inv.newPt (h : Inv L s v fl) :
    wp Mm.kvmAlloc (fun p s' => Inv L s' ((v.hold p).plant p) fl ∧ ∃ s1, Taken L s v fl p s1 ∧
      SameMaps s1 s' ∧ s'.ref = update s.ref p 1) NotRefZero s := by
  refine wp_mono h.kvmAlloc fun p s' h' => ?_
  obtain ⟨hinv, s1, hp, hsame, href⟩ := h'
  have hseed : Seed s' (v.hold p) p :=
    ⟨mem_cons_self, hp.lev, fun i => by rw [hsame.mem]; exact hp.zero i⟩
  exact ⟨hseed.inv hinv, s1, hp, hsame, href⟩

end FarmOS.Mm

import FarmOS.Mm.Attach

/-! Walking a page table: where an address is translated, and what creating the missing tables on the
way changes. -/

namespace FarmOS.Mm

open Lib Function

variable {L : Layout} {s s' s1 s2 : Phys} {v v' v'' : View} {fl : List ℕ} {t i c n f pd r : ℕ}
  {va va' : BitVec 64} {x : ℕ × ℕ} {level : ℕ}

def next (s : Phys) (va : BitVec 64) (level t : ℕ) : Option ℕ :=
  if has (s.mem t (ptx va level)) pteV then some (paToPage (pteToPa (s.mem t (ptx va level)))) else none

def slot (s : Phys) (pd : ℕ) (va : BitVec 64) : Option (ℕ × ℕ) :=
  match next s va 1 pd with
  | none => none
  | some t2 =>
    match next s va 2 t2 with
    | none => none
    | some t3 => some (t3, ptx va 3)

def look (s : Phys) (pd : ℕ) (va : BitVec 64) : Pte :=
  match slot s pd va with
  | none => 0
  | some x => s.mem x.1 x.2

lemma ptx_eq (va : BitVec 64) (level : ℕ) : ptx va level = va.toNat / 2 ^ (12 + (3 - level) * 9) % 512 := by
  rw [ptx, BitVec.toNat_and, BitVec.toNat_ushiftRight, Nat.shiftRight_eq_div_pow]
  exact Nat.and_two_pow_sub_one_eq_mod _ 9

lemma ptx_lt (va : BitVec 64) (level : ℕ) : ptx va level < 512 := by
  rw [ptx_eq]
  exact Nat.mod_lt _ (by decide)

section Pure

variable {E : Panic → Prop}

lemma wp_ptStep_false {Q : Option ℕ → Phys → Prop} :
    wp (ptStep va false level t) Q E s ↔ Q (next s va level t) s := by
  simp only [ptStep, load, next, wp_bind, wp_get, wp_pure]
  split <;> simp

lemma wp_ptWalk_false {Q : Option (ℕ × ℕ) → Phys → Prop} : wp (ptWalk pd va false) Q E s ↔ Q (slot s pd va) s := by
  simp only [ptWalk, slot, wp_bind, wp_ptStep_false]
  cases next s va 1 pd with
  | none => exact wp_pure
  | some t2 =>
    simp only [wp_bind, wp_ptStep_false]
    cases next s va 2 t2 <;> exact wp_pure

lemma wp_ptLookup {Q : Pte → Phys → Prop} : wp (ptLookup pd va) Q E s ↔ Q (look s pd va) s := by
  simp only [ptLookup, look, wp_bind, wp_ptWalk_false]
  cases slot s pd va with
  | none => exact wp_pure
  | some x => simp only [load, wp_bind, wp_get, wp_pure]

end Pure

lemma Shape.next_link (h : Shape L s v) (hl : v.lev t = 1 ∨ v.lev t = 2) (hd : (t, ptx va level) ∉ v.dead) :
    next s va level t = some c ↔ Link s v t (ptx va level) c := by
  unfold next
  constructor
  · intro hn
    split at hn
    · next hV =>
      obtain ⟨d, hd'⟩ := h.link_some t _ hl (ptx_lt va level) hd hV
      obtain ⟨-, hd''⟩ := (target_eq_some_iff _ _).mp hd'
      rw [hd''] at hn
      exact ⟨hl, ptx_lt va level, hd, hn ▸ hd'⟩
    · cases hn
  · rintro ⟨-, -, -, ht⟩
    obtain ⟨⟨hV, -⟩, rfl⟩ := (target_eq_some_iff _ _).mp ht
    rw [if_pos hV]

lemma Shape.slot_iff (h : Shape L s v) (hd : v.dead = ∅) (hr : v.lev r = 1) : slot s r va = some x ↔
      x.2 = ptx va 3 ∧ ∃ t2, Link s v r (ptx va 1) t2 ∧ Link s v t2 (ptx va 2) x.1 := by
  have hlive : ∀ y, y ∉ v.dead := fun y => by simp [hd]
  have h1 : ∀ t2, next s va 1 r = some t2 ↔ Link s v r (ptx va 1) t2 := fun t2 =>
    h.next_link (.inl hr) (hlive _)
  constructor
  · intro hs
    unfold slot at hs
    split at hs
    · cases hs
    · next t2 hn =>
      have hl := (h1 t2).mp hn
      have hlev := (h.link _ _ _ hl).1
      rw [hr] at hlev
      split at hs
      · cases hs
      · next t3 hn2 =>
        obtain rfl := Option.some.inj hs
        exact ⟨rfl, t2, hl, (h.next_link (.inr hlev) (hlive _)).mp hn2⟩
  · rintro ⟨hx, t2, hl1, hl2⟩
    have hlev := (h.link _ _ _ hl1).1
    rw [hr] at hlev
    unfold slot
    rw [(h1 t2).mpr hl1]
    simp only
    rw [(h.next_link (.inr hlev) (hlive _)).mpr hl2]
    simp only
    rw [← hx]

lemma Shape.slot_lev (h : Shape L s v) (hd : v.dead = ∅) (hr : v.lev r = 1)
    (hs : slot s r va = some x) : v.lev x.1 = 3 ∧ v.own x.1 = r ∧ x.2 < 512 := by
  obtain ⟨hx, t2, h1, h2⟩ := (h.slot_iff hd hr).mp hs
  obtain ⟨hl1, ho1⟩ := h.link _ _ _ h1
  obtain ⟨hl2, ho2⟩ := h.link _ _ _ h2
  refine ⟨by omega, ?_, hx ▸ ptx_lt va 3⟩
  rw [ho2, ho1, h.own_root r hr]

lemma Shape.slot_inj (h : Shape L s v) (hd : v.dead = ∅) {r' : ℕ} (hr : v.lev r = 1)
    (hr' : v.lev r' = 1) (hs : slot s r va = some x) (hs' : slot s r' va' = some x) :
    r = r' ∧ ptx va 1 = ptx va' 1 ∧ ptx va 2 = ptx va' 2 ∧ ptx va 3 = ptx va' 3 := by
  obtain ⟨hx, t2, h1, h2⟩ := (h.slot_iff hd hr).mp hs
  obtain ⟨hx', t2', h1', h2'⟩ := (h.slot_iff hd hr').mp hs'
  obtain ⟨rfl, e2⟩ := h.inj _ _ _ _ _ h2 h2'
  obtain ⟨rfl, e1⟩ := h.inj _ _ _ _ _ h1 h1'
  exact ⟨rfl, e1, e2, hx.symm.trans hx'⟩

lemma toNat_walkVa {i j k : ℕ} (hi : i < 512) (hj : j < 512) (hk : k < 512) :
    (walkVa i j k).toNat = ((i * 512 + j) * 512 + k) * 4096 := by
  rw [walkVa, BitVec.toNat_shiftLeft, BitVec.toNat_ofNat, Nat.shiftLeft_eq]
  omega

lemma ptx_walkVa {i j k : ℕ} (hi : i < 512) (hj : j < 512) (hk : k < 512) :
    ptx (walkVa i j k) 1 = i ∧ ptx (walkVa i j k) 2 = j ∧ ptx (walkVa i j k) 3 = k := by
  have h := toNat_walkVa hi hj hk
  refine ⟨?_, ?_, ?_⟩
  · rw [ptx_eq, h]
    change (((i * 512 + j) * 512 + k) * 4096 / 1073741824) % 512 = i
    omega
  · rw [ptx_eq, h]
    change (((i * 512 + j) * 512 + k) * 4096 / 2097152) % 512 = j
    omega
  · rw [ptx_eq, h]
    change (((i * 512 + j) * 512 + k) * 4096 / 4096) % 512 = k
    omega

lemma Shape.slot_of_links (hs : Shape L s v) {pt1 pt2 j k : ℕ} (h1 : Link s v pd i pt1)
    (h2 : Link s v pt1 j pt2) (hk : k < 512) : slot s pd (walkVa i j k) = some (pt2, k) := by
  obtain ⟨e1, e2, e3⟩ := ptx_walkVa h1.index h2.index hk
  have hn1 : next s (walkVa i j k) 1 pd = some pt1 :=
    (hs.next_link h1.level (by rw [e1]; exact h1.live)).mpr (by rw [e1]; exact h1)
  have hn2 : next s (walkVa i j k) 2 pt1 = some pt2 :=
    (hs.next_link h2.level (by rw [e2]; exact h2.live)).mpr (by rw [e2]; exact h2)
  unfold slot
  rw [hn1]
  simp only
  rw [hn2]
  simp only
  rw [e3]

structure Grown (L : Layout) (s : Phys) (v : View) (fl : List ℕ) (s' : Phys) (v' : View) : Prop where
  table (t : ℕ) : v.lev t ≠ 0 → v'.lev t = v.lev t ∧ v'.own t = v.own t
  fresh (t : ℕ) : v.lev t = 0 → v'.lev t ≠ 0 → s.ref t = 0 ∧ t ∉ fl ∧ L.pageused ≤ t
  roots : v'.roots = v.roots
  held : v'.held = v.held
  dead : v'.dead = v.dead
  kernPd : s'.kernPd = s.kernPd
  ident : s'.ident = s.ident
  ad : s'.ad = s.ad
  ref (f : ℕ) : v.lev f ≠ 0 ∨ v'.lev f = 0 → s'.ref f = s.ref f
  mem (t : ℕ) : v.lev t = 0 → v'.lev t = 0 → s'.mem t = s.mem t
  leaf (t : ℕ) : v.lev t = 3 → s'.mem t = s.mem t
  zero (t i : ℕ) : v.lev t = 0 → v'.lev t = 3 → s'.mem t i = 0
  link (t i c : ℕ) : Link s v t i c → Link s' v' t i c
  old (t i c : ℕ) : Link s' v' t i c → v.lev c ≠ 0 → Link s v t i c

namespace Grown

lemma refl (L : Layout) (s : Phys) (v : View) (fl : List ℕ) : Grown L s v fl s v where
  table _ _ := ⟨rfl, rfl⟩
  fresh _ h h' := absurd h h'
  roots := rfl
  held := rfl
  dead := rfl
  kernPd := rfl
  ident := rfl
  ad := rfl
  ref _ _ := rfl
  mem _ _ _ := rfl
  leaf _ _ := rfl
  zero _ _ h h' := by rw [h] at h'; cases h'
  link _ _ _ h := h
  old _ _ _ h _ := h

lemma trans (h : Grown L s v fl s1 v') (h' : Grown L s1 v' fl s2 v'') : Grown L s v fl s2 v'' where
  table t ht := by
    obtain ⟨hl, ho⟩ := h.table t ht
    obtain ⟨hl', ho'⟩ := h'.table t (hl ▸ ht)
    exact ⟨hl'.trans hl, ho'.trans ho⟩
  fresh t h0 hn := by
    by_cases h1 : v'.lev t = 0
    · obtain ⟨hr, hfl⟩ := h'.fresh t h1 hn
      exact ⟨(h.ref t (.inr h1)).symm.trans hr, hfl⟩
    · exact h.fresh t h0 h1
  roots := h'.roots.trans h.roots
  held := h'.held.trans h.held
  dead := h'.dead.trans h.dead
  kernPd := h'.kernPd.trans h.kernPd
  ident := h'.ident.trans h.ident
  ad := h'.ad.trans h.ad
  ref f hf := by
    rcases hf with hf | hf
    · exact (h'.ref f (.inl ((h.table f hf).1 ▸ hf))).trans (h.ref f (.inl hf))
    · have h1 : v'.lev f = 0 := by
        by_contra h1
        exact h1 ((h'.table f h1).1 ▸ hf)
      exact (h'.ref f (.inr hf)).trans (h.ref f (.inr h1))
  mem t h0 h2 := by
    have h1 : v'.lev t = 0 := by
      by_contra h1
      exact h1 ((h'.table t h1).1 ▸ h2)
    exact (h'.mem t h1 h2).trans (h.mem t h0 h1)
  leaf t ht := (h'.leaf t ((h.table t (by omega)).1.trans ht)).trans (h.leaf t ht)
  zero t i h0 h3 := by
    by_cases h1 : v'.lev t = 0
    · exact h'.zero t i h1 h3
    · have h1' : v'.lev t = 3 := (h'.table t h1).1.symm.trans h3
      rw [h'.leaf t h1']
      exact h.zero t i h0 h1'
  link t i c hl := h'.link t i c (h.link t i c hl)
  old t i c hl hc := h.old t i c (h'.old t i c hl ((h.table c hc).1 ▸ hc)) hc

lemma hang (h : Taken L s v fl n s1) (hv : Vacant L s1 v t i n) (hs : SameMaps (s1.hang t i n) s2)
    (hr : s2.ref = update s1.ref n (s1.ref n + 1)) : Grown L s v fl s2 (v.attach t n) where
  table c hc := ⟨lev_attach_ne v t fun he => hc (he ▸ h.lev), own_attach_ne v t fun he => hc (he ▸ h.lev)⟩
  fresh c h0 hn := by
    by_cases hc : c = n
    · exact hc ▸ ⟨h.fresh, h.notMem, h.used⟩
    · rw [lev_attach_ne v t hc] at hn
      exact absurd h0 hn
  roots := rfl
  held := rfl
  dead := rfl
  kernPd := hs.kernPd.trans h.kernPd
  ident := hs.ident.trans h.ident
  ad := hs.ad.trans h.ad
  ref f hf := by
    have hne : f ≠ n := by
      rintro rfl
      rcases hf with hf | hf
      · exact hf h.lev
      · rw [lev_attach_self] at hf
        cases hf
    rw [hr, update_of_ne hne, h.ref]
  mem c h0 h1 := by
    have hne : c ≠ n := by
      rintro rfl
      rw [lev_attach_self] at h1
      cases h1
    have hct : c ≠ t := by
      rintro rfl
      have := hv.level
      omega
    rw [hs.mem, ← h.mem c hne]
    exact update_of_ne hct ..
  leaf c hc := by
    have hct : c ≠ t := by
      rintro rfl
      have := hv.level
      omega
    rw [hs.mem, ← h.mem c fun he => by rw [he, h.lev] at hc; cases hc]
    exact update_of_ne hct ..
  zero c j h0 h3 := by
    by_cases hc : c = n
    · rw [hs.mem, hc]
      exact hv.zero_hang j
    · rw [lev_attach_ne v t hc, h0] at h3
      cases h3
  link _ _ _ hl := (hs.agrees _).link.mpr (hv.link.mpr (.inl (h.agrees.link.mpr hl)))
  old t' i' c hl hc := by
    rcases hv.link.mp ((hs.agrees _).link.mp hl) with hl | ⟨-, -, rfl⟩
    · exact h.agrees.link.mp hl
    · exact absurd h.lev hc

section

variable (h : Grown L s v fl s' v') (hs : Shape L s v) (hs' : Shape L s' v') (hd : v.dead = ∅) (hr : v.lev r = 1)
include h hs hs' hd hr

lemma slot (hx : Mm.slot s r va = some x) : Mm.slot s' r va = some x := by
  obtain ⟨hx, t2, h1, h2⟩ := (hs.slot_iff hd hr).mp hx
  refine (hs'.slot_iff (h.dead.trans hd) ((h.table r (by omega)).1.trans hr)).mpr ⟨hx, t2, ?_, ?_⟩
  · exact h.link _ _ _ h1
  · exact h.link _ _ _ h2

lemma slot_old (hx : Mm.slot s' r va = some x) (hl : v.lev x.1 ≠ 0) : Mm.slot s r va = some x := by
  obtain ⟨hx, t2, h1, h2⟩ :=
    (hs'.slot_iff (h.dead.trans hd) ((h.table r (by omega)).1.trans hr)).mp hx
  have h2' := h.old _ _ _ h2 hl
  have h1' := h.old _ _ _ h1 (by have := h2'.level; omega)
  exact (hs.slot_iff hd hr).mpr ⟨hx, t2, h1', h2'⟩

lemma look (va : BitVec 64) : Mm.look s' r va = Mm.look s r va := by
  unfold Mm.look
  cases hx : Mm.slot s r va with
  | some x =>
    rw [h.slot hs hs' hd hr hx]
    simp only
    rw [h.leaf x.1 (hs.slot_lev hd hr hx).1]
  | none =>
    cases hx' : Mm.slot s' r va with
    | none => rfl
    | some x =>
      have hl := (hs'.slot_lev (h.dead.trans hd) ((h.table r (by omega)).1.trans hr) hx').1
      have h0 : v.lev x.1 = 0 := by
        by_contra h0
        rw [h.slot_old hs hs' hd hr hx' h0] at hx
        cases hx
      exact h.zero x.1 x.2 h0 hl

end

lemma ref_pos (h : Grown L s v fl s' v') (hf : 0 < (s.ref f).toNat) : s'.ref f = s.ref f := by
  refine h.ref f ?_
  by_contra! hc
  have := (h.fresh f hc.1 hc.2).1
  rw [ref_eq_zero_iff] at this
  omega

end Grown

lemma Inv.ptStep (h : Inv L s v fl) (hd : v.dead = ∅) (hl : v.lev t = 1 ∨ v.lev t = 2) :
    wp (ptStep va true level t) (fun r s' => ∃ v' c, r = some c ∧ Inv L s' v' fl ∧
      Grown L s v fl s' v' ∧ Link s' v' t (ptx va level) c) NotRefZero s := by
  have hlive : (t, ptx va level) ∉ v.dead := by simp [hd]
  simp only [Mm.ptStep, load, wp_bind, wp_get, wp_pure, wp_ite]
  refine ⟨fun hV => ⟨v, _, rfl, h, .refl L s v fl, ?_⟩, fun hV => ⟨fun _ => ?_, by simp⟩⟩
  · exact (h.shape.next_link hl hlive).mp (if_pos hV)
  · refine wp_mono h.pmAlloc fun n s1 hn => ?_
    have htn : t ≠ n := fun he => by rw [he, hn.lev] at hl; omega
    have hv : Vacant L s1 v t (ptx va level) n :=
      ⟨hl, ptx_lt va level, by rw [hn.mem t htn]; simpa using hV, hn.lev, hn.zero, hn.lt, hd⟩
    refine wp_mono (hn.inv.hang hv (by simp)) fun _ s2 h2 => ?_
    obtain ⟨hinv, hsame, href⟩ := h2
    rw [List.erase_cons_head] at hinv
    refine ⟨v.attach t n, n, rfl, hinv, .hang hn hv hsame href, ?_⟩
    exact (hsame.agrees _).link.mpr (hv.link.mpr (.inr ⟨rfl, rfl, rfl⟩))

structure Walked (L : Layout) (s : Phys) (v : View) (fl : List ℕ) (pd : ℕ) (va : BitVec 64)
    (x : ℕ × ℕ) (s' : Phys) (v' : View) : Prop where
  inv : Inv L s' v' fl
  grown : Grown L s v fl s' v'
  slot : slot s' pd va = some x

lemma Inv.ptWalk (h : Inv L s v fl) (hd : v.dead = ∅) (hpd : v.lev pd = 1) :
    wp (ptWalk pd va true) (fun r s' => ∃ v' x, r = some x ∧ Walked L s v fl pd va x s' v')
      NotRefZero s := by
  simp only [Mm.ptWalk, wp_bind]
  refine wp_mono (h.ptStep hd (.inl hpd)) fun _ s1 h1 => ?_
  obtain ⟨v1, t2, rfl, hinv1, hg1, hl1⟩ := h1
  have hpd1 := (hg1.table pd (by omega)).1.trans hpd
  have ht2 := (hinv1.shape.link _ _ _ hl1).1
  simp only [wp_bind]
  refine wp_mono (hinv1.ptStep (hg1.dead.trans hd) (.inr (by omega))) fun _ s2 h2 => ?_
  obtain ⟨v2, t3, rfl, hinv2, hg2, hl2⟩ := h2
  have hg := hg1.trans hg2
  refine wp_pure.mpr ⟨v2, (t3, ptx va 3), rfl, hinv2, hg, ?_⟩
  refine (hinv2.shape.slot_iff (hg.dead.trans hd) ((hg.table pd (by omega)).1.trans hpd)).mpr ?_
  exact ⟨rfl, t2, hg2.link _ _ _ hl1, hl2⟩

lemma Inv.ptSlot (h : Inv L s v fl) (hd : v.dead = ∅) (hpd : v.lev pd = 1) :
    wp (ptSlot pd va) (fun x s' => ∃ v', Walked L s v fl pd va x s' v') NotRefZero s := by
  simp only [Mm.ptSlot, wp_bind, wp_ptWalk_false]
  cases hs : slot s pd va with
  | some x => exact wp_pure.mpr ⟨v, h, .refl L s v fl, hs⟩
  | none =>
    simp only [wp_bind]
    refine wp_mono (h.ptWalk hd hpd) fun _ s' h' => ?_
    obtain ⟨v', x, rfl, hw⟩ := h'
    exact wp_pure.mpr ⟨v', hw⟩

end FarmOS.Mm

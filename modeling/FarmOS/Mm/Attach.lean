import FarmOS.Mm.Entry

/-! Taking a page off the free list and hanging it into the forest as a new, empty table. -/

namespace FarmOS.Mm

open Lib Function

variable {L : Layout} {s s' : Phys} {v : View} {fl : List ℕ} {t i t' i' c n f : ℕ} {x : ℕ × ℕ}

def Phys.take (s : Phys) (f : ℕ) (rest : List ℕ) : Phys :=
  { s with pageFreeList := rest, pageleft := s.pageleft - 1 }.setPage f fun _ => 0

structure Taken (L : Layout) (s : Phys) (v : View) (fl : List ℕ) (p : ℕ) (s' : Phys) : Prop where
  inv : Inv L s' v (p :: fl)
  used : L.pageused ≤ p
  lt : p < L.npage
  lev : v.lev p = 0
  zero (i : ℕ) : s'.mem p i = 0
  mem (t : ℕ) : t ≠ p → s'.mem t = s.mem t
  ref : s'.ref = s.ref
  fresh : s.ref p = 0
  notMem : p ∉ fl
  kernPd : s'.kernPd = s.kernPd
  ident : s'.ident = s.ident
  ad : s'.ad = s.ad

lemma Taken.agrees {p : ℕ} (h : Taken L s v fl p s') : Agrees v s s' :=
  ⟨fun t ht => h.mem t fun he => ht (he ▸ h.lev), h.kernPd, h.ident⟩

lemma Inv.take (h : Inv L s v fl) {rest : List ℕ} (hs : s.pageFreeList = f :: rest) :
    Taken L s v fl f (s.take f rest) := by
  obtain ⟨hu, hlt, hr, hfl, hk⟩ := (h.account.free_iff f).mp (by simp [hs])
  have hlev := h.lev_of_free hu hlt hr hk
  have hmem : ∀ t, t ≠ f → (s.take f rest).mem t = s.mem t := fun t ht => by
    simp [Phys.take, Phys.setPage, ht]
  have hag : Agrees v s (s.take f rest) := ⟨fun t ht => hmem t fun he => ht (he ▸ hlev), rfl, rfl⟩
  refine ⟨⟨h.shape.of_agrees hag, ?_⟩, hu, hlt, hlev, fun i => ?_, hmem, rfl, hr, hfl, rfl, rfl, rfl⟩
  · rw [hag.uses]
    exact h.account.alloc hs
  · simp [Phys.take, Phys.setPage]

lemma wp_pmAlloc {Q : ℕ → Phys → Prop} {E : Panic → Prop} (hnil : s.pageFreeList = [] → E .noFreePage)
    (hcons : ∀ p rest, s.pageFreeList = p :: rest → Q p (s.take p rest)) : wp pmAlloc Q E s := by
  simp only [pmAlloc, wp_bind, wp_get]
  cases hs : s.pageFreeList with
  | nil => exact wp_throw.mpr (hnil hs)
  | cons p rest =>
    simp only [wp_bind, wp_set, wp_pure]
    exact hcons p rest hs

lemma Inv.pmAlloc (h : Inv L s v fl) : wp pmAlloc (fun p s' => Taken L s v fl p s') NotRefZero s :=
  wp_pmAlloc (fun _ => nofun) fun _ _ hs => h.take hs

def View.attach (v : View) (t n : ℕ) : View :=
  { v with
    lev := update v.lev n (v.lev t + 1)
    own := update v.own n (v.own t) }

lemma lev_attach_self (v : View) (t n : ℕ) : (v.attach t n).lev n = v.lev t + 1 :=
  update_self ..

lemma own_attach_self (v : View) (t n : ℕ) : (v.attach t n).own n = v.own t :=
  update_self ..

lemma lev_attach_ne (v : View) (t : ℕ) (h : c ≠ n) : (v.attach t n).lev c = v.lev c :=
  update_of_ne h ..

lemma own_attach_ne (v : View) (t : ℕ) (h : c ≠ n) : (v.attach t n).own c = v.own c :=
  update_of_ne h ..

structure Vacant (L : Layout) (s : Phys) (v : View) (t i n : ℕ) : Prop where
  level : v.lev t = 1 ∨ v.lev t = 2
  index : i < 512
  unset : has (s.mem t i) pteV = false
  lev : v.lev n = 0
  zero (j : ℕ) : s.mem n j = 0
  lt : n < L.npage
  dead : v.dead = ∅

def Phys.hang (s : Phys) (t i n : ℕ) : Phys := s.setWord t i (pageToPte n ||| pteV)

namespace Vacant

section

variable (h : Vacant L s v t i n)
include h

lemma ne : t ≠ n := by
  rintro rfl
  have := h.level
  have := h.lev
  omega

lemma target_self : target ((s.hang t i n).mem t i) = some n := by
  rw [Phys.hang, mem_setWord_self]
  exact target_link (Nat.lt_trans h.lt L.npage_lt)

lemma zero_hang (j : ℕ) : (s.hang t i n).mem n j = 0 := by
  rw [Phys.hang, mem_setWord_ne s _ fun he => h.ne (Prod.mk.inj he).1.symm]
  exact h.zero j

lemma link :
    Link (s.hang t i n) (v.attach t n) t' i' c ↔ Link s v t' i' c ∨ t' = t ∧ i' = i ∧ c = n := by
  have hd : ∀ x, x ∉ v.dead := fun x => by simp [h.dead]
  by_cases hx : (t', i') = (t, i)
  · obtain ⟨rfl, rfl⟩ := Prod.mk.inj hx
    constructor
    · rintro ⟨-, -, -, ht⟩
      rw [h.target_self] at ht
      exact .inr ⟨rfl, rfl, (Option.some.inj ht).symm⟩
    · rintro (hl | ⟨-, -, rfl⟩)
      · have := hl.tgt
        rw [target_of_not_V h.unset] at this
        cases this
      · refine ⟨?_, h.index, hd _, h.target_self⟩
        rw [lev_attach_ne v t' h.ne]
        exact h.level
  · have hmem : (s.hang t i n).mem t' i' = s.mem t' i' := mem_setWord_ne s _ hx
    have hno : ¬ (t' = t ∧ i' = i ∧ c = n) := fun he => hx (by rw [he.1, he.2.1])
    rw [or_iff_left hno]
    by_cases htn : t' = n
    · subst htn
      constructor
      · rintro ⟨-, -, -, ht⟩
        rw [h.zero_hang] at ht
        cases ht.symm.trans target_zero
      · rintro ⟨hl, -, -, -⟩
        have := h.lev
        omega
    · constructor
      · rintro ⟨h1, h2, h3, h4⟩
        exact ⟨lev_attach_ne v t htn ▸ h1, h2, h3, hmem ▸ h4⟩
      · rintro ⟨h1, h2, h3, h4⟩
        exact ⟨(lev_attach_ne v t htn).symm ▸ h1, h2, h3, hmem.symm ▸ h4⟩

end

section

open scoped Classical

lemma key_self (h : Vacant L s v t i n) (hs : Shape L s v) :
    key (s.hang t i n) (v.attach t n) (t, i) = some n := by
  refine (if_pos ⟨?_, by simp [View.attach, h.dead], fun hi => ?_⟩).trans h.target_self
  · have := h.level
    rw [lev_attach_ne v t h.ne]
    omega
  · have h3 : v.lev t = 3 := (hs.ident (t, i) hi).1
    have := h.level
    omega

lemma key_ne (h : Vacant L s v t i n) (hx : x ≠ (t, i)) : key (s.hang t i n) (v.attach t n) x = key s v x := by
  by_cases hxn : x.1 = n
  · rw [key_of_lev_zero (s := s) (hxn.symm ▸ h.lev)]
    unfold key
    rw [hxn, h.zero_hang]
    simp
  · refine if_congr ?_ (by rw [Phys.hang, mem_setWord_ne s _ hx]) rfl
    rw [lev_attach_ne v t hxn]
    rfl

end

lemma uses_hang (h : Vacant L s v t i n) (hs : Shape L s v) (f : ℕ) :
    uses L (s.hang t i n) (v.attach t n) f = uses L s v f + if f = n then 1 else 0 := by
  have hold : key s v (t, i) = none := by
    unfold key
    rw [target_of_not_V h.unset]
    simp
  have hlt := hs.lev_lt t (by have := h.level; omega)
  have hc := occ_change (S := L.words) (f := key s v) (g := key (s.hang t i n) (v.attach t n))
    (k := some f) (a := (t, i)) (mem_words.mpr ⟨hlt, h.index⟩) fun y _ hy => h.key_ne hy
  rw [hold, h.key_self hs, if_neg (by simp), Nat.add_zero] at hc
  rw [uses, uses, refs, hc, refs]
  simp only [Option.some.injEq, eq_comm (a := n), View.attach]
  omega

lemma lev_of_attach_one (h : Vacant L s v t i n) : (v.attach t n).lev c = 1 ↔ v.lev c = 1 := by
  by_cases hc : c = n
  · subst hc
    rw [lev_attach_self, h.lev]
    have := h.level
    omega
  · rw [lev_attach_ne v t hc]

lemma shape (h : Vacant L s v t i n) (hs : Shape L s v) : Shape L (s.hang t i n) (v.attach t n) where
  root c := h.lev_of_attach_one.trans (hs.root c)
  lev_le c := by
    by_cases hc : c = n
    · have := h.level
      rw [hc, lev_attach_self]
      omega
    · rw [lev_attach_ne v t hc]
      exact hs.lev_le c
  lev_lt c hl := by
    by_cases hc : c = n
    · exact hc ▸ h.lt
    · rw [lev_attach_ne v t hc] at hl
      exact hs.lev_lt c hl
  own_root c hc := by
    have hl := h.lev_of_attach_one.mp hc
    rw [own_attach_ne v t fun he => by rw [he, h.lev] at hl; cases hl]
    exact hs.own_root c hl
  link t' i' c hl := by
    rcases h.link.mp hl with hl | ⟨rfl, rfl, rfl⟩
    · obtain ⟨h1, h2⟩ := hs.link t' i' c hl
      have hl' := hl.level
      have ht' : t' ≠ n := fun he => by rw [he, h.lev] at hl'; omega
      have hc' : c ≠ n := fun he => by rw [he, h.lev] at h1; omega
      rw [lev_attach_ne v t ht', lev_attach_ne v t hc', own_attach_ne v t ht', own_attach_ne v t hc']
      exact ⟨h1, h2⟩
    · rw [lev_attach_self, own_attach_self, lev_attach_ne v t' h.ne, own_attach_ne v t' h.ne]
      exact ⟨rfl, rfl⟩
  link_some t' i' hl hi hd hV := by
    by_cases hx : (t', i') = (t, i)
    · obtain ⟨rfl, rfl⟩ := Prod.mk.inj hx
      exact ⟨n, h.target_self⟩
    · by_cases htn : t' = n
      · rw [htn, h.zero_hang] at hV
        exact absurd hV (by decide)
      · rw [Phys.hang, mem_setWord_ne s _ hx] at hV ⊢
        exact hs.link_some t' i' (lev_attach_ne v t htn ▸ hl) hi hd hV
  inj t1 i1 t2 i2 c h1 h2 := by
    have hfree : ∀ t' i', ¬ Link s v t' i' n := fun t' i' hl => by
      have := (hs.link t' i' n hl).1
      rw [h.lev] at this
      omega
    rcases h.link.mp h1 with h1 | ⟨rfl, rfl, rfl⟩ <;> rcases h.link.mp h2 with h2 | ⟨rfl, rfl, he⟩
    · exact hs.inj t1 i1 t2 i2 c h1 h2
    · exact absurd (he ▸ ‹Link s v t1 i1 c›) (hfree t1 i1)
    · exact absurd h2 (hfree _ _)
    · exact ⟨rfl, rfl⟩
  parent c hc := by
    by_cases hcn : c = n
    · exact ⟨t, i, h.link.mpr (.inr ⟨rfl, rfl, hcn⟩)⟩
    · obtain ⟨t', i', hl⟩ := hs.parent c (lev_attach_ne v t hcn ▸ hc)
      exact ⟨t', i', h.link.mpr (.inl hl)⟩
  inval t' i' hl hi hV := by
    by_cases hx : (t', i') = (t, i)
    · obtain ⟨rfl, rfl⟩ := Prod.mk.inj hx
      rw [Phys.hang, mem_setWord_self, has_V_link] at hV
      cases hV
    · by_cases htn : t' = n
      · rw [htn, h.zero_hang]
        rfl
      · rw [Phys.hang, mem_setWord_ne s _ hx] at hV ⊢
        exact hs.inval t' i' (lev_attach_ne v t htn ▸ hl) hi hV
  tgt_lt t' i' f hi hk := by
    by_cases hx : (t', i') = (t, i)
    · rw [hx, h.key_self hs] at hk
      exact Option.some.inj hk ▸ h.lt
    · rw [h.key_ne hx] at hk
      exact hs.tgt_lt t' i' f hi hk
  ident x hx := by
    obtain ⟨h1, h2⟩ := hs.ident x hx
    have hne : x.1 ≠ n := fun he => by rw [he, h.lev] at h1; cases h1
    rw [lev_attach_ne v t hne, own_attach_ne v t hne]
    exact ⟨h1, h2⟩
  dead x hx := by simp [View.attach, h.dead] at hx
  __ := hs

end Vacant

lemma Inv.hang (h : Inv L s v fl) (hv : Vacant L s v t i n) (hn : n ∈ fl) :
    wp (Mm.ptModify (t, i) (pageToPte n ||| pteV)) (fun _ s' => Inv L s' (v.attach t n) (fl.erase n) ∧
      SameMaps (s.hang t i n) s' ∧ s'.ref = update s.ref n (s.ref n + 1)) NotRefZero s := by
  have hlt := Nat.lt_trans hv.lt L.npage_lt
  have hold : pteToPa (s.mem t i) = 0 :=
    h.shape.inval t i (by have := hv.level; omega) hv.index hv.unset
  have hne : ¬ pteToPa (s.mem t i) = pteToPa (pageToPte n ||| pteV) := by
    rw [hold, pteToPa_pageToPte hlt]
    intro he
    have := membase_le_pageToPa hlt
    rw [← he] at this
    exact absurd this (by decide)
  have hval : has (pageToPte n ||| pteV) pteV = true ∧ membase ≤ pteToPa (pageToPte n ||| pteV) :=
    ⟨has_V_link n, by rw [pteToPa_pageToPte hlt]; exact membase_le_pageToPa hlt⟩
  have hdec : ppDecOnValid (s.mem t i) = pure () := if_neg (by simp [hv.unset])
  simp only [Mm.ptModify, load, store, wp_bind, wp_get, wp_pure]
  rw [if_neg hne, hdec, ppIncOnValid, if_pos hval]
  simp only [wp_bind, wp_pure, wp_modify, pteToPage, check, wp_ite, wp_throw, pmPageIncRef,
    pteToPa_pageToPte hlt, paToPage_pageToPa hlt]
  refine ⟨fun _ => ?_, fun _ => nofun⟩
  have hb : uses L s v n ≤ 512 * L.npage := by
    have := (h.account.ref_zero (h.account.flight_page n hn).1 hv.lt).mp (h.account.flight_page n hn).2.2.1
    omega
  have hacc : Account L (s.hang t i n) (uses L s v) fl := h.account.congr rfl rfl rfl rfl fun _ => rfl
  refine ⟨⟨(hv.shape h.shape).of_agrees ⟨fun _ _ => rfl, rfl, rfl⟩, ?_⟩, ⟨rfl, rfl, rfl, rfl⟩, rfl⟩
  exact hacc.inc hv.lt (.inl hn) hb (hv.uses_hang h.shape)

end FarmOS.Mm

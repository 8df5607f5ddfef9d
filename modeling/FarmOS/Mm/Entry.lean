import FarmOS.Mm.Tree

/-! Writing one leaf entry keeps the books balanced. -/

namespace FarmOS.Mm

open Lib

variable {L : Layout} {s s' : Phys} {v : View} {fl : List ℕ} {t i t' i' c f : ℕ} {x : ℕ × ℕ} {w : Pte}
  {E : Panic → Prop}

def NotRefZero (p : Panic) : Prop := p ≠ .refZero

lemma mem_setWord_self (s : Phys) (t i : ℕ) (w : Pte) : (s.setWord t i w).mem t i = w := by
  simp [Phys.setWord, Phys.setPage]

lemma mem_setWord_ne (s : Phys) {t i t' i' : ℕ} (w : Pte) (h : (t', i') ≠ (t, i)) :
    (s.setWord t i w).mem t' i' = s.mem t' i' := by
  by_cases ht : t' = t
  · subst ht
    have hi : i' ≠ i := fun hi => h (by rw [hi])
    simp [Phys.setWord, Phys.setPage, hi]
  · simp [Phys.setWord, Phys.setPage, ht]

lemma setWord_setWord (s : Phys) (t i : ℕ) (w w' : Pte) : (s.setWord t i w).setWord t i w' = s.setWord t i w' := by
  simp [Phys.setWord, Phys.setPage]

structure Leaf (s : Phys) (v : View) (x : ℕ × ℕ) : Prop where
  lev : v.lev x.1 = 3
  index : x.2 < 512
  counted : x ∉ s.ident

lemma Leaf.live (h : Leaf s v x) (hs : Shape L s v) : x ∉ v.dead := fun hd => hs.dead x hd h.lev

lemma Leaf.key_eq (h : Leaf s v x) (hs : Shape L s v) : key s v x = target (s.mem x.1 x.2) :=
  if_pos ⟨by rw [h.lev]; decide, h.live hs, h.counted⟩

lemma key_setWord_ne {y : ℕ × ℕ} (h : y ≠ x) : key (s.setWord x.1 x.2 w) v y = key s v y := by
  unfold key
  rw [mem_setWord_ne s w h]
  rfl

lemma Leaf.setWord (h : Leaf s v x) (w : Pte) : Leaf (s.setWord x.1 x.2 w) v x :=
  ⟨h.lev, h.index, h.counted⟩

lemma Link.setWord (h : v.lev x.1 = 3) : Link (s.setWord x.1 x.2 w) v t i c ↔ Link s v t i c := by
  have hmem : v.lev t = 1 ∨ v.lev t = 2 → (s.setWord x.1 x.2 w).mem t i = s.mem t i := fun hl => by
    apply mem_setWord_ne
    intro he
    rw [← (Prod.mk.inj he).1] at h
    omega
  constructor
  · rintro ⟨hl, hi, hd, ht⟩
    exact ⟨hl, hi, hd, by rwa [hmem hl] at ht⟩
  · rintro ⟨hl, hi, hd, ht⟩
    exact ⟨hl, hi, hd, by rwa [hmem hl]⟩

structure Entry (L : Layout) (w : Pte) : Prop where
  inval : has w pteV = false → pteToPa w = 0
  lt (f : ℕ) : target w = some f → f < L.npage

lemma Shape.setLeaf (hs : Shape L s v) (hx : Leaf s v x) (hw : Entry L w) : Shape L (s.setWord x.1 x.2 w) v := by
  have hlink {t i c : ℕ} : Link (s.setWord x.1 x.2 w) v t i c ↔ Link s v t i c := Link.setWord hx.lev
  refine { hs with
    link := fun t i c hl => hs.link t i c (hlink.mp hl), link_some := fun t i hl hi hd hV => ?_
    inj := fun t i t' i' c h1 h2 => hs.inj t i t' i' c (hlink.mp h1) (hlink.mp h2), parent := fun c hc => ?_
    inval := fun t i hl hi hV => ?_, tgt_lt := fun t i f hi hk => ?_ }
  · have hne : (t, i) ≠ x := by
      rintro rfl
      have := hx.lev
      simp only at this
      omega
    rw [mem_setWord_ne s w hne] at hV ⊢
    exact hs.link_some t i hl hi hd hV
  · obtain ⟨t, i, hl⟩ := hs.parent c hc
    exact ⟨t, i, hlink.mpr hl⟩
  · by_cases he : (t, i) = x
    · subst he
      rw [mem_setWord_self] at hV ⊢
      exact hw.inval hV
    · rw [mem_setWord_ne s w he] at hV ⊢
      exact hs.inval t i hl hi hV
  · by_cases he : (t, i) = x
    · subst he
      unfold key at hk
      rw [mem_setWord_self] at hk
      split at hk
      · exact hw.lt f hk
      · cases hk
    · rw [key_setWord_ne he] at hk
      exact hs.tgt_lt t i f hi hk

lemma refs_setLeaf (hs : Shape L s v) (hx : Leaf s v x) (w : Pte) (f : ℕ) :
    refs L (s.setWord x.1 x.2 w) v f + (if target (s.mem x.1 x.2) = some f then 1 else 0) =
      refs L s v f + if target w = some f then 1 else 0 := by
  have hk : key (s.setWord x.1 x.2 w) v x = target w :=
    (if_pos ⟨by rw [hx.lev]; decide, hx.live hs, hx.counted⟩).trans (by rw [mem_setWord_self])
  have hc := occ_change (S := L.words) (f := key s v) (g := key (s.setWord x.1 x.2 w) v)
    (k := some f) (a := x) (mem_words.mpr ⟨hs.lev_lt x.1 (by rw [hx.lev]; decide), hx.index⟩)
    fun y _ hy => key_setWord_ne hy
  rwa [hk, hx.key_eq hs] at hc

lemma uses_setLeaf (hs : Shape L s v) (hx : Leaf s v x) (w : Pte) (f : ℕ) :
    uses L (s.setWord x.1 x.2 w) v f + (if target (s.mem x.1 x.2) = some f then 1 else 0) =
      uses L s v f + if target w = some f then 1 else 0 := by
  have := refs_setLeaf hs hx w f
  simp only [uses]
  omega

def landed (flight : List ℕ) (w : Pte) : List ℕ :=
  match target w with
  | some f => flight.erase f
  | none => flight

section Books

variable {R R' : ℕ → ℕ} {flight : List ℕ} {p : Pte}

lemma target_membase (ht : target p ≠ none) (hp : ¬ membase < pteToPa p) : target p = some 0 := by
  unfold target at ht ⊢
  split
  · next h =>
    have he : pteToPa p = membase := BitVec.le_antisymm (BitVec.not_lt.mp hp) h.2
    rw [he]
    rfl
  · next h => exact absurd (if_neg h) ht

lemma wp_onValid {Q : Unit → Phys → Prop} {body : ℕ → M Unit}
    (hnone : target p = none → Q () s) (hsome : ∀ f, target p = some f → wp (body f) Q E s)
    (h0 : target p = some 0 → E .assertion) :
    wp (if has p pteV ∧ membase ≤ pteToPa p then do body (← pteToPage p) else pure ()) Q E s := by
  simp only [pteToPage, check, wp_bind, wp_ite, wp_pure, wp_throw]
  refine ⟨fun hp => ?_, fun hp => hnone (if_neg hp)⟩
  have ht : target p = some (paToPage (pteToPa p)) := if_pos hp
  exact ⟨fun _ => hsome _ ht, fun hm => h0 (target_membase (by simp [ht]) hm)⟩

lemma Account.ppDec (h : Account L s R flight) (hlt : ∀ f, target p = some f → f < L.npage)
    (hR : ∀ g, R' g + (if target p = some g then 1 else 0) = R g) (hE : target p = some 0 → E .assertion) :
    wp (ppDecOnValid p) (fun _ s' => Account L s' R' flight ∧ SameMaps s s') E s := by
  refine wp_onValid (fun ht => ?_) (fun f ht => h.dec (hlt f ht) ?_ fun g => ?_) hE
  · refine ⟨h.congr rfl rfl rfl rfl fun g => ?_, ⟨rfl, rfl, rfl, rfl⟩⟩
    have := hR g
    rw [ht, if_neg (by simp)] at this
    omega
  · have := hR f
    rw [if_pos ht] at this
    omega
  · rw [← hR g, ht]
    simp [eq_comm]

lemma Account.ppInc (h : Account L s R flight)
    (hsrc : ∀ f, target p = some f → f < L.npage ∧ (f ∈ flight ∨ 0 < (s.ref f).toNat) ∧
      R f ≤ 512 * L.npage)
    (hR : ∀ g, R' g = R g + if target p = some g then 1 else 0) :
    wp (ppIncOnValid p) (fun _ s' => Account L s' R' (landed flight p) ∧ SameMaps s s')
      NotRefZero s := by
  refine wp_onValid (fun ht => ?_) (fun f ht => wp_modify.mpr ?_) nofun <;> rw [landed, ht]
  · refine ⟨h.congr rfl rfl rfl rfl fun g => ?_, ⟨rfl, rfl, rfl, rfl⟩⟩
    rw [hR g, ht, if_neg (by simp)]
    rfl
  · obtain ⟨hf, hs, hb⟩ := hsrc f ht
    refine ⟨h.inc hf hs hb fun g => ?_, ⟨rfl, rfl, rfl, rfl⟩⟩
    rw [hR g, ht]
    simp [eq_comm]

end Books

lemma SameMaps.refl (s : Phys) : SameMaps s s := ⟨rfl, rfl, rfl, rfl⟩

lemma SameMaps.trans {s'' : Phys} (h : SameMaps s s') (h' : SameMaps s' s'') : SameMaps s s'' :=
  ⟨h'.mem.trans h.mem, h'.kernPd.trans h.kernPd, h'.ident.trans h.ident, h'.ad.trans h.ad⟩

lemma SameMaps.setWord (h : SameMaps s s') (t i : ℕ) (w : Pte) : SameMaps (s.setWord t i w) (s'.setWord t i w) :=
  ⟨by simp only [Phys.setWord, Phys.setPage, h.mem], h.kernPd, h.ident, h.ad⟩

structure Agrees (v : View) (s s' : Phys) : Prop where
  mem (t : ℕ) : v.lev t ≠ 0 → s'.mem t = s.mem t
  kernPd : s'.kernPd = s.kernPd
  ident : s'.ident = s.ident

lemma SameMaps.agrees (h : SameMaps s s') (v : View) : Agrees v s s' :=
  ⟨fun _ _ => by rw [h.mem], h.kernPd, h.ident⟩

section

open scoped Classical

lemma Agrees.key (h : Agrees v s s') : Mm.key s' v = Mm.key s v := by
  funext x
  by_cases hl : v.lev x.1 = 0
  · rw [key_of_lev_zero hl, key_of_lev_zero hl]
  · exact if_congr (by rw [h.ident]) (by rw [h.mem x.1 hl]) rfl

end

lemma Agrees.uses (h : Agrees v s s') (L : Layout) : Mm.uses L s' v = Mm.uses L s v := by
  funext f
  rw [Mm.uses, Mm.uses, refs, refs, h.key]

lemma Agrees.link (h : Agrees v s s') : Link s' v t i c ↔ Link s v t i c := by
  have hm : v.lev t = 1 ∨ v.lev t = 2 → s'.mem t = s.mem t := fun hl => h.mem t (by omega)
  constructor
  · rintro ⟨h1, h2, h3, h4⟩
    exact ⟨h1, h2, h3, hm h1 ▸ h4⟩
  · rintro ⟨h1, h2, h3, h4⟩
    exact ⟨h1, h2, h3, by rwa [hm h1]⟩

lemma Shape.of_agrees (hs : Shape L s v) (h : Agrees v s s') : Shape L s' v where
  root t := by
    rw [h.kernPd]
    exact hs.root t
  __ := hs
  link t i c hl := hs.link t i c (h.link.mp hl)
  link_some t i hl := by
    rw [h.mem t (by omega)]
    exact hs.link_some t i hl
  inj t i t' i' c h1 h2 := hs.inj t i t' i' c (h.link.mp h1) (h.link.mp h2)
  parent c hc := by
    obtain ⟨t, i, hl⟩ := hs.parent c hc
    exact ⟨t, i, h.link.mpr hl⟩
  inval t i hl := by
    rw [h.mem t hl]
    exact hs.inval t i hl
  tgt_lt := by
    rw [h.key]
    exact hs.tgt_lt
  ident := by
    rw [h.ident, h.kernPd]
    exact hs.ident
  kern_root := by
    rw [h.kernPd]
    exact hs.kern_root

lemma entry_zero (L : Layout) : Entry L 0 := ⟨fun _ => rfl, by simp⟩

lemma Leaf.taken (hx : Leaf s v x) (hs : Shape L s v) : (∀ f, target (s.mem x.1 x.2) = some f → f < L.npage) ∧
    ∀ g, uses L (s.setWord x.1 x.2 0) v g + (if target (s.mem x.1 x.2) = some g then 1 else 0) = uses L s v g :=
  ⟨fun f hf => hs.tgt_lt x.1 x.2 f hx.index ((hx.key_eq hs).trans hf), fun g => by simpa using uses_setLeaf hs hx 0 g⟩

lemma Inv.ptClear (h : Inv L s v fl) (hx : Leaf s v x) (hE : Mm.key s v x = some 0 → E .assertion) :
    wp (ptClear x) (fun _ s' => Inv L s' v fl ∧ SameMaps (s.setWord x.1 x.2 0) s') E s := by
  have ⟨hlt, hu⟩ := hx.taken h.shape
  simp only [Mm.ptClear, load, store, wp_bind, wp_get, wp_pure, wp_modify]
  rw [hx.key_eq h.shape] at hE
  refine wp_mono (h.account.ppDec hlt hu hE) fun _ s1 h1 => ?_
  obtain ⟨hacc, hsame⟩ := h1
  have hsame' := hsame.setWord x.1 x.2 0
  refine ⟨⟨(h.shape.setLeaf hx (entry_zero L)).of_agrees (hsame'.agrees v), ?_⟩, hsame'⟩
  exact hacc.congr rfl rfl rfl rfl fun g => by rw [(hsame'.agrees v).uses]

lemma Shape.target_eq_of_pa (hs : Shape L s v) (hl : v.lev t ≠ 0) (hi : i < 512) (hw : Entry L w)
    (he : pteToPa (s.mem t i) = pteToPa w) : target w = target (s.mem t i) := by
  unfold target
  rw [he]
  by_cases hm : membase ≤ pteToPa w
  · have hne : pteToPa w ≠ 0 := by
      intro h0
      rw [h0] at hm
      exact absurd hm (by decide)
    have hwV : has w pteV = true := by
      by_contra hV
      exact hne (hw.inval (by simpa using hV))
    have hoV : has (s.mem t i) pteV = true := by
      by_contra hV
      exact hne (he ▸ hs.inval t i hl hi (by simpa using hV))
    rw [hwV, hoV]
  · simp [hm]

structure Landing (L : Layout) (s : Phys) (fl : List ℕ) (w : Pte) : Prop extends Entry L w where
  source (f : ℕ) : target w = some f → f ∈ fl ∨ 0 < (s.ref f).toNat

lemma landed_of_notMem (h : ∀ f, target w = some f → f ∉ fl) : landed fl w = fl := by
  unfold landed
  split
  · next f hf => exact List.erase_of_not_mem (h f hf)
  · rfl

lemma Inv.refs_pos_ref (h : Inv L s v fl) (hf : f < L.npage) (hu : 0 < Mm.uses L s v f) : 0 < (s.ref f).toNat := by
  rw [h.account.count f hf]
  omega

lemma Inv.not_flight (h : Inv L s v fl) (hr : 0 < (s.ref f).toNat) : f ∉ fl := fun hm => by
  have := (h.account.flight_page f hm).2.2.1
  rw [ref_eq_zero_iff] at this
  omega

lemma Inv.ptModify_same (h : Inv L s v fl) (hx : Leaf s v x) (hw : Landing L s fl w)
    (he : pteToPa (s.mem x.1 x.2) = pteToPa w) : Inv L (s.setWord x.1 x.2 w) v (landed fl w) := by
  have ht := h.shape.target_eq_of_pa (by rw [hx.lev]; decide) hx.index hw.toEntry he
  have hland : landed fl w = fl := by
    refine landed_of_notMem fun f hf => ?_
    have hk : Mm.key s v x = some f := (hx.key_eq h.shape).trans (ht ▸ hf)
    have hlt := h.shape.tgt_lt x.1 x.2 f hx.index hk
    refine h.not_flight (h.refs_pos_ref hlt ?_)
    have := refs_pos (h.shape.lev_lt x.1 (by rw [hx.lev]; decide)) hx.index hk
    rw [Mm.uses]
    omega
  rw [hland]
  refine ⟨h.shape.setLeaf hx hw.toEntry, h.account.congr rfl rfl rfl rfl fun g => ?_⟩
  have := uses_setLeaf h.shape hx w g
  rw [ht] at this
  omega

lemma Inv.ptModify (h : Inv L s v fl) (hx : Leaf s v x) (hw : Landing L s fl w) :
    wp (ptModify x w) (fun _ s' => Inv L s' v (landed fl w) ∧ SameMaps (s.setWord x.1 x.2 w) s')
      NotRefZero s := by
  simp only [Mm.ptModify, load, store, wp_bind, wp_get, wp_pure, wp_ite, wp_modify]
  refine ⟨fun he => ⟨h.ptModify_same hx hw he, .refl _⟩, fun hne => ?_⟩
  obtain ⟨hlt, hu⟩ := hx.taken h.shape
  refine wp_mono (h.account.ppDec hlt hu fun _ => by rintro ⟨⟩) fun _ s1 h1 => ?_
  obtain ⟨hacc, hsame⟩ := h1
  have hu' : ∀ g, Mm.uses L (s.setWord x.1 x.2 w) v g = Mm.uses L (s.setWord x.1 x.2 0) v g +
      if target w = some g then 1 else 0 := fun g => by
    have := uses_setLeaf (h.shape.setLeaf hx (entry_zero L)) (hx.setWord 0) w g
    rw [setWord_setWord, mem_setWord_self] at this
    simpa using this
  have hshape := h.shape.setLeaf hx hw.toEntry
  have hacc' : Account L (s1.setWord x.1 x.2 w) (Mm.uses L (s.setWord x.1 x.2 0) v) fl :=
    hacc.congr rfl rfl rfl rfl fun _ => rfl
  refine wp_mono (hacc'.ppInc (fun f hf => ⟨hw.lt f hf, ?_, ?_⟩) hu') fun _ s2 h2 => ?_
  · refine (hw.source f hf).imp_right fun hpos => ?_
    have hold : target (s.mem x.1 x.2) ≠ some f := fun ho => hne <| BitVec.eq_of_toNat_eq <| by
      rw [toNat_pteToPa_of_target ho, toNat_pteToPa_of_target hf]
    have h1 := hacc.count f (hw.lt f hf)
    have h2 := h.account.count f (hw.lt f hf)
    have h3 := hu f
    rw [if_neg hold] at h3
    change 0 < (s1.ref f).toNat
    omega
  · have h1 := uses_le (f := f) hshape
    rw [hu' f, if_pos hf] at h1
    omega
  · obtain ⟨hacc2, hsame2⟩ := h2
    have hsame' := (hsame.setWord x.1 x.2 w).trans hsame2
    refine ⟨⟨?_, ?_⟩, hsame'⟩
    · exact hshape.of_agrees (hsame'.agrees v)
    · rwa [(hsame'.agrees v).uses]

end FarmOS.Mm

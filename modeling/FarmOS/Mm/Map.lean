import FarmOS.Mm.Walk

/-! Mapping and unmapping one page. -/

namespace FarmOS.Mm

open Lib Function

variable {L : Layout} {s s' s1 : Phys} {v v' : View} {fl : List ℕ} {t i c f pd r : ℕ}
  {va va' pa : BitVec 64} {x : ℕ × ℕ} {w perm : Pte} {E : Panic → Prop}

def Uncounted (s : Phys) (pd : ℕ) (va : BitVec 64) : Prop := ∃ x, slot s pd va = some x ∧ x ∈ s.ident

lemma Shape.user_counted (h : Shape L s v) (hd : v.dead = ∅) (hpd : pd ∈ v.roots) : ¬ Uncounted s pd va := by
  rintro ⟨x, hx, hi⟩
  have ho := (h.slot_lev hd ((h.root pd).mpr (.inr hpd)) hx).2.1
  rw [(h.ident x hi).2] at ho
  exact h.kern_root (ho ▸ hpd)

lemma Walked.leaf (h : Walked L s v fl pd va x s' v') (hs : Shape L s v) (hd : v.dead = ∅)
    (hpd : v.lev pd = 1) (hc : ¬ Uncounted s pd va) : Leaf s' v' x := by
  have hpd' : v'.lev pd = 1 := (h.grown.table pd (by omega)).1.trans hpd
  obtain ⟨hl, -, hi⟩ := h.inv.shape.slot_lev (h.grown.dead.trans hd) hpd' h.slot
  refine ⟨hl, hi, fun hid => ?_⟩
  rw [h.grown.ident] at hid
  refine hc ⟨x, h.grown.slot_old hs h.inv.shape hd hpd h.slot ?_, hid⟩
  rw [(hs.ident x hid).1]
  decide

def entry (ad : Bool) (pa : BitVec 64) (perm : Pte) : Pte := if pa = 0 then perm else mkPte ad pa perm

structure Mappable (L : Layout) (s : Phys) (fl : List ℕ) (pa : BitVec 64) (perm : Pte) : Prop where
  perm_lt : perm.toNat < 1024
  page : membase ≤ pa → paToPage pa < L.npage
  source : membase ≤ pa → paToPage pa ∈ fl ∨ 0 < (s.ref (paToPage pa)).toNat

lemma Mappable.landing (h : Mappable L s fl pa perm) (ad : Bool) : Landing L s fl (entry ad pa perm) := by
  unfold entry
  split
  · exact ⟨⟨fun _ => pteToPa_perm h.perm_lt, fun f hf => by rw [target_perm h.perm_lt] at hf; cases hf⟩,
      fun f hf => by rw [target_perm h.perm_lt] at hf; cases hf⟩
  · have ht : ∀ f, target (mkPte ad pa perm) = some f → membase ≤ pa ∧ paToPage pa = f := fun f hf => by
      rw [target_mkPte ad pa h.perm_lt] at hf
      split at hf
      · next hm => exact ⟨hm, Option.some.inj hf⟩
      · cases hf
    refine ⟨⟨fun hV => ?_, fun f hf => ?_⟩, fun f hf => ?_⟩
    · rw [has_V_mkPte] at hV
      cases hV
    · obtain ⟨hm, rfl⟩ := ht f hf
      exact h.page hm
    · obtain ⟨hm, rfl⟩ := ht f hf
      exact h.source hm

lemma Mappable.grown (h : Mappable L s fl pa perm) (hg : Grown L s v fl s' v') : Mappable L s' fl pa perm :=
  ⟨h.perm_lt, h.page, fun hm => (h.source hm).imp_right fun hp => by rwa [hg.ref_pos hp]⟩

structure Written (L : Layout) (s : Phys) (v : View) (fl : List ℕ) (pd : ℕ) (va : BitVec 64) (w : Pte)
    (s' : Phys) (v' : View) : Prop where
  inv : Inv L s' v' (landed fl w)
  step : ∃ s1 x, Walked L s v fl pd va x s1 v' ∧ SameMaps (s1.setWord x.1 x.2 w) s'

section Books

variable (h : Inv L s v fl) (hd : v.dead = ∅) (hpd : v.lev pd = 1) (hc : ¬ Uncounted s pd va)
include h hd hpd hc

lemma Inv.ptMap (hm : Mappable L s fl pa perm) : wp (ptMap pd va pa perm)
      (fun r s' => r = 0 ∧ ∃ v', Written L s v fl pd va (entry s.ad pa perm) s' v') NotRefZero s := by
  simp only [Mm.ptMap, wp_bind]
  refine wp_mono (h.ptSlot hd hpd) fun x s1 h1 => ?_
  obtain ⟨v', hw⟩ := h1
  have hl := (hm.grown hw.grown).landing s1.ad
  have hstep : wp (Mm.ptModify x (entry s1.ad pa perm)) (fun _ s' =>
      ∃ v', Written L s v fl pd va (entry s.ad pa perm) s' v') NotRefZero s1 := by
    refine wp_mono (hw.inv.ptModify (hw.leaf h.shape hd hpd hc) hl) fun _ s2 h2 => ⟨v', ?_⟩
    rw [hw.grown.ad] at h2
    exact ⟨h2.1, s1, x, hw, h2.2⟩
  simp only [load, wp_bind, wp_get, wp_pure, wp_ite, check, wp_throw, true_and]
  refine ⟨fun _ => ⟨fun h0 => ?_, fun _ => by rintro ⟨⟩⟩,
    fun _ => ⟨fun h0 => ⟨fun _ => ?_, fun _ => by rintro ⟨⟩⟩, fun h0 => ⟨fun _ => ?_, fun _ => by rintro ⟨⟩⟩⟩⟩
  · rwa [show entry s1.ad pa perm = mkPte s1.ad pa perm from if_neg h0] at hstep
  · rwa [show entry s1.ad pa perm = perm from if_pos h0] at hstep
  · rwa [show entry s1.ad pa perm = mkPte s1.ad pa perm from if_neg h0] at hstep

end Books

lemma Inv.clearSlot (h : Inv L s v fl) (hs : slot s pd va = some x) (hx : Leaf s v x)
    (hE : key s v x = some 0 → E .assertion) :
    wp (ptUnmap pd va) (fun r s' => (s.mem x.1 x.2 ≠ 0 → r = 0) ∧ Inv L s' v fl ∧
      SameMaps (s.setWord x.1 x.2 0) s') E s := by
  simp only [Mm.ptUnmap, wp_bind, wp_ptWalk_false, hs, load, wp_get, wp_pure, wp_ite]
  refine ⟨fun h0 => ⟨fun hn => absurd h0 hn, h, ?_⟩, fun _ => ?_⟩
  · have he : s.setWord x.1 x.2 0 = s := by
      rw [Phys.setWord, Phys.setPage, ← h0, update_eq_self, update_eq_self]
    exact he.symm ▸ .refl s
  · exact wp_mono (h.ptClear hx hE) fun _ s' h' => ⟨fun _ => trivial, h'⟩

lemma Inv.ptUnmap (h : Inv L s v fl) (hd : v.dead = ∅) (hpd : v.lev pd = 1) (hc : ¬ Uncounted s pd va) :
    wp (ptUnmap pd va) (fun _ s' => Inv L s' v fl ∧ ∃ x, slot s pd va = some x ∧
      SameMaps (s.setWord x.1 x.2 0) s') NotRefZero s := by
  cases hs : slot s pd va with
  | none =>
    simp only [Mm.ptUnmap, wp_bind, wp_ptWalk_false, hs]
    exact wp_throw.mpr (by rintro ⟨⟩)
  | some x =>
    obtain ⟨hl, -, hi⟩ := h.shape.slot_lev hd hpd hs
    have hx : Leaf s v x := ⟨hl, hi, fun hid => hc ⟨x, hs, hid⟩⟩
    exact wp_mono (h.clearSlot hs hx fun _ => by rintro ⟨⟩) fun _ s' h' => ⟨h'.2.1, x, rfl, h'.2.2⟩

def SamePage (va va' : BitVec 64) : Prop :=
  ptx va 1 = ptx va' 1 ∧ ptx va 2 = ptx va' 2 ∧ ptx va 3 = ptx va' 3

instance (va va' : BitVec 64) : Decidable (SamePage va va') := inferInstanceAs (Decidable (_ ∧ _ ∧ _))

lemma slot_of_mem (h : s'.mem = s.mem) (r : ℕ) (va : BitVec 64) : slot s' r va = slot s r va := by
  unfold slot next
  rw [h]

lemma look_of_mem (h : s'.mem = s.mem) (r : ℕ) (va : BitVec 64) : look s' r va = look s r va := by
  unfold look
  rw [slot_of_mem h, h]

lemma look_of_zero (h : ∀ i, s.mem pd i = 0) (va : BitVec 64) : look s pd va = 0 := by
  have hn : next s va 1 pd = none := by
    unfold next
    rw [h]
    rfl
  unfold look slot
  rw [hn]

lemma SamePage.slot (h : SamePage va va') (s : Phys) (r : ℕ) : Mm.slot s r va = Mm.slot s r va' := by
  unfold Mm.slot next
  rw [h.1, h.2.1, h.2.2]

lemma SamePage.look (h : SamePage va va') (s : Phys) (r : ℕ) : Mm.look s r va = Mm.look s r va' := by
  unfold Mm.look
  rw [h.slot]

section Look

variable (hs : Shape L s v) (hd : v.dead = ∅)
include hs hd

lemma Shape.slot_setWord (hr : v.lev r = 1) (hx : v.lev x.1 = 3) :
    slot (s.setWord x.1 x.2 w) r va = slot s r va := by
  have hnext : ∀ level t, v.lev t ≠ 3 →
      next (s.setWord x.1 x.2 w) va level t = next s va level t := fun level t ht => by
    unfold next
    rw [mem_setWord_ne s w fun he => ht (by rw [(Prod.mk.inj he).1, hx])]
  unfold slot
  rw [hnext 1 r (by omega)]
  cases hn : next s va 1 r with
  | none => rfl
  | some t2 =>
    have hl := (hs.link _ _ _ ((hs.next_link (.inl hr) (by simp [hd])).mp hn)).1
    simp only
    rw [hnext 2 t2 (by omega)]

lemma Shape.look_setWord (hr : v.lev r = 1) (hx : v.lev x.1 = 3) :
    look (s.setWord x.1 x.2 w) r va = if slot s r va = some x then w else look s r va := by
  unfold look
  rw [hs.slot_setWord hd hr hx]
  cases hsl : slot s r va with
  | none => simp
  | some y =>
    by_cases hy : y = x
    · subst hy
      simp only [if_true]
      exact mem_setWord_self ..
    · simp only [Option.some.injEq, if_neg hy]
      exact mem_setWord_ne s w hy

lemma Shape.slot_eq_iff {r' : ℕ} (hr : v.lev r = 1) (hr' : v.lev r' = 1) (hx : slot s r va = some x) :
    slot s r' va' = some x ↔ r' = r ∧ SamePage va' va := by
  constructor
  · intro hx'
    exact hs.slot_inj hd hr' hr hx' hx
  · rintro ⟨rfl, hp⟩
    rw [hp.slot, hx]

end Look

structure Kept (s : Phys) (v : View) (s' : Phys) (v' : View) : Prop where
  roots : v'.roots = v.roots
  held : v'.held = v.held
  dead : v'.dead = v.dead
  kernPd : s'.kernPd = s.kernPd
  ident : s'.ident = s.ident
  ad : s'.ad = s.ad

lemma Kept.refl (s : Phys) (v : View) : Kept s v s v := ⟨rfl, rfl, rfl, rfl, rfl, rfl⟩

lemma Kept.trans {s'' : Phys} {v'' : View} (h : Kept s v s' v') (h' : Kept s' v' s'' v'') : Kept s v s'' v'' :=
  ⟨h'.roots.trans h.roots, h'.held.trans h.held, h'.dead.trans h.dead, h'.kernPd.trans h.kernPd,
    h'.ident.trans h.ident, h'.ad.trans h.ad⟩

lemma Kept.root (h : Kept s v s' v') (hs : Shape L s v) (hs' : Shape L s' v') : v'.lev r = 1 ↔ v.lev r = 1 := by
  rw [hs.root, hs'.root, h.kernPd, h.roots]

namespace Written

lemma kept (h : Written L s v fl pd va w s' v') : Kept s v s' v' := by
  obtain ⟨s1, x, hw, hsame⟩ := h.step
  have hg := hw.grown
  exact ⟨hg.roots, hg.held, hg.dead, hsame.kernPd.trans hg.kernPd, hsame.ident.trans hg.ident,
    hsame.ad.trans hg.ad⟩

lemma heap (h : Written L s v fl pd va w s' v') (ht : v'.lev t ≠ 0) : v.lev t ≠ 0 ∨ L.pageused ≤ t := by
  obtain ⟨s1, x, hw, -⟩ := h.step
  by_cases h0 : v.lev t = 0
  · exact .inr (hw.grown.fresh t h0 ht).2.2
  · exact .inl h0

variable (h : Written L s v fl pd va w s' v') (hd : v.dead = ∅) (hpd : v.lev pd = 1)
include h hd hpd

lemma link (hl : Link s v t i c) : Link s' v' t i c := by
  obtain ⟨s1, x, hw, hsame⟩ := h.step
  have hx := (hw.inv.shape.slot_lev (hw.grown.dead.trans hd)
    ((hw.grown.table pd (by omega)).1.trans hpd) hw.slot).1
  exact (hsame.agrees v').link.mpr ((Link.setWord hx).mpr (hw.grown.link t i c hl))

lemma frame (h0 : v.lev f = 0) (hf : f ∈ fl ∨ 0 < (s.ref f).toNat) : v'.lev f = 0 ∧ s'.mem f = s.mem f := by
  obtain ⟨s1, x, hw, hsame⟩ := h.step
  have h0' : v'.lev f = 0 := by
    by_contra hn
    obtain ⟨hr, hfl, -⟩ := hw.grown.fresh f h0 hn
    rcases hf with hf | hf
    · exact hfl hf
    · rw [hr] at hf
      exact absurd hf (by decide)
  have hx := (hw.inv.shape.slot_lev (hw.grown.dead.trans hd)
    ((hw.grown.table pd (by omega)).1.trans hpd) hw.slot).1
  have hne : f ≠ x.1 := by
    rintro rfl
    omega
  refine ⟨h0', ?_⟩
  rw [hsame.mem, ← hw.grown.mem f h0 h0']
  exact update_of_ne hne ..

lemma look (hs : Shape L s v) (hr : v.lev r = 1) :
    look s' r va' = if r = pd ∧ SamePage va' va then w else Mm.look s r va' := by
  obtain ⟨s1, x, hw, hsame⟩ := h.step
  have hlev : ∀ {q}, v.lev q = 1 → v'.lev q = 1 := fun hq =>
    (hw.grown.table _ (by omega)).1.trans hq
  have hd' := hw.grown.dead.trans hd
  have hs1 := hw.inv.shape
  have hx := (hs1.slot_lev hd' (hlev hpd) hw.slot).1
  rw [look_of_mem hsame.mem, hs1.look_setWord hd' (hlev hr) hx, hw.grown.look hs hs1 hd hr]
  simp only [hs1.slot_eq_iff hd' (hlev hpd) (hlev hr) hw.slot]

end Written

lemma Shape.look_key (h : Shape L s v) (hd : v.dead = ∅) (hr : v.lev r = 1) (hc : ¬ Uncounted s r va)
    (hf : target (look s r va) = some f) : ∃ x, slot s r va = some x ∧ x.2 < 512 ∧ key s v x = some f := by
  unfold look at hf
  split at hf
  · cases hf
  · next x hx =>
    obtain ⟨hl, -, hi⟩ := h.slot_lev hd hr hx
    have hleaf : Leaf s v x := ⟨hl, hi, fun hid => hc ⟨x, hx, hid⟩⟩
    exact ⟨x, hx, hi, (hleaf.key_eq h).trans hf⟩

lemma Shape.look_refs (h : Shape L s v) (hd : v.dead = ∅) (hr : v.lev r = 1) (hc : ¬ Uncounted s r va)
    (hf : target (look s r va) = some f) : f < L.npage ∧ 0 < refs L s v f := by
  obtain ⟨x, hx, hi, hk⟩ := h.look_key hd hr hc hf
  have hl := (h.slot_lev hd hr hx).1
  exact ⟨h.tgt_lt x.1 x.2 f hi hk, refs_pos (h.lev_lt x.1 (by omega)) hi hk⟩

lemma Inv.look_ref (h : Inv L s v fl) (hd : v.dead = ∅) (hr : v.lev r = 1) (hc : ¬ Uncounted s r va)
    (hf : target (look s r va) = some f) : f < L.npage ∧ 0 < (s.ref f).toNat := by
  obtain ⟨hlt, hpos⟩ := h.shape.look_refs hd hr hc hf
  refine ⟨hlt, h.refs_pos_ref hlt ?_⟩
  rw [uses]
  omega

lemma Shape.wp_walk {Q : ℤ → Phys → Prop} (hs : Shape L s v) (g : ℕ → ℕ → M ℤ) (f : ℕ → M ℤ)
    (hlev : v.lev t = 1 ∨ v.lev t = 2) (hi : i < 512) (hd : (t, i) ∉ v.dead)
    (hunset : ¬ has (s.mem t i) pteV = true → Q 0 s)
    (hset : ∀ c, Link s v t i c → ∃ I : ℕ → Phys → Prop, I 0 s ∧
      (∀ k s', k < 512 → I k s' → wp (g c k) (fun r s' => r = 0 ∧ I (k + 1) s') E s') ∧
      ∀ s', I 512 s' → wp (f c) Q E s') :
    wp (do
      let pte ← load (t, i)
      if has pte pteV then
        let r ← loop (g (paToPage (pteToPa pte))) 0 pageIndexMax
        unwrapThen r (f (paToPage (pteToPa pte)))
      else pure 0) Q E s := by
  simp only [load, wp_bind, wp_get, wp_pure, wp_ite]
  refine ⟨fun hV => ?_, hunset⟩
  obtain ⟨c, hc⟩ := hs.link_some t i hlev hi hd hV
  obtain ⟨I, h0, hstep, hend⟩ := hset c ⟨hlev, hi, hd, hc⟩
  rw [((target_eq_some_iff _ _).mp hc).2]
  refine wp_mono (wp_loop_zero (I := I) pageIndexMax h0 hstep) fun r s' h' => ?_
  rw [unwrapThen, if_neg fun hr => hr h'.1]
  exact hend s' h'.2

end FarmOS.Mm

import FarmOS.Mm.Exact
import FarmOS.Mm.Tidy

/-! Taking an address space down gives back exactly the pages that it alone was using. -/

namespace FarmOS.Mm

open Lib List Nat

variable {L : Layout} {s s' : Phys} {v v' : View} {w w' : World} {fl pool : List ℕ} {k l t i f pd q : ℕ}

def Event.Orderly (w : World) : Event → Prop
  | ptMap _ _ pa _ => membase ≤ pa → ∀ l, ¬ Table w.phys w.roots l (paToPage pa)
  | _ => True

inductive Deed
  | initupt
  | event (e : Event)

namespace Deed

def exec (img : Image L) (w : World) : Deed → Except Panic World
  | initupt => w.after (procInitupt img) fun p s =>
      { w with phys := s, roots := p :: w.roots, held := p :: w.held }
  | event e => e.exec w

def Allowed (L : Layout) (w : World) : Deed → Prop
  | initupt => True
  | event e => e.Allowed L w ∧ e.Orderly w

def Step (img : Image L) (w : World) (d : Deed) (w' : World) : Prop := d.Allowed L w ∧ d.exec img w = .ok w'

end Deed

def Maps (s : Phys) (pd f : ℕ) : Prop := ∃ va, ¬ Uncounted s pd va ∧ target (look s pd va) = some f

def World.Root (w : World) (q : ℕ) : Prop := q = w.phys.kernPd ∨ q ∈ w.roots

def World.without (w : World) (pd : ℕ) : World := ⟨w.phys, w.roots.erase pd, w.held.erase pd, w.flight⟩

def Released (w : World) (pd f : ℕ) : Prop :=
  (∃ l, TableOf w.phys pd l f) ∨
    (Maps w.phys pd f ∧ f ∉ w.held ∧ ∀ q, w.Root q → q ≠ pd → ¬ Maps w.phys q f)

open scoped Classical in
structure TornDown (L : Layout) (pool : List ℕ) (w : World) (pd : ℕ) (s' : Phys) : Prop where
  freed (f : ℕ) : f ∈ pool → s'.pageFreeList.count f =
    w.phys.pageFreeList.count f + if Released w pd f then 1 else 0
  count (f : ℕ) : f < L.npage →
    (s'.ref f).toNat = L.base f + entries (w.without pd) f + (w.without pd).held.count f
  others (q l t : ℕ) : w.Root q → q ≠ pd → TableOf w.phys q l t →
    TableOf s' q l t ∧ ∀ i < 512, s'.mem t i = w.phys.mem t i

section Shapes

variable (h : Shape L s v)
include h

lemma Shape.slot_of_leaf (ht : v.lev t = 3) (hi : i < 512) : ∃ va, slot s (v.own t) va = some (t, i) := by
  obtain ⟨t2, j, h2⟩ := h.parent t (.inr ht)
  obtain ⟨hl2, ho2⟩ := h.link t2 j t h2
  obtain ⟨t1, m, h1⟩ := h.parent t2 (by omega)
  obtain ⟨hl1, ho1⟩ := h.link t1 m t2 h1
  rw [ho2, ho1, h.own_root t1 (by omega)]
  exact ⟨walkVa m j i, h.slot_of_links h1 h2 hi⟩

lemma Shape.maps_of_key (ht : v.lev t = 3) (hi : i < 512) (hk : key s v (t, i) = some f) : Maps s (v.own t) f := by
  obtain ⟨va, hx⟩ := h.slot_of_leaf ht hi
  unfold key at hk
  split at hk
  · next hc =>
    refine ⟨va, fun ⟨y, hy, hid⟩ => ?_, ?_⟩
    · obtain rfl := Option.some.inj (hx.symm.trans hy)
      exact hc.2.2 hid
    · unfold look
      rw [hx]
      exact hk
  · cases hk

end Shapes

lemma Razed.tableOf (hz : Razed L s v fl pd s' v') (h : Inv L s v fl) (hd : v.dead = ∅) (hq : v.lev q = 1)
    (hne : q ≠ pd) : TableOf s' q l t ↔ TableOf s q l t := by
  have hmem : ∀ {l t}, TableOf s q l t → s'.mem t = s.mem t := fun ht => by
    refine hz.mem _ fun he => hne ?_
    rw [← he.2, (h.shape.of_tableOf hd hq ht).2.2]
  constructor
  · intro ht
    induction ht with
    | root => exact .root
    | next _ h3 hi hV ih =>
      rw [hmem ih] at hV ⊢
      exact ih.next h3 hi hV
  · intro ht
    induction ht with
    | root => exact .root
    | next ht h3 hi hV ih =>
      rw [← hmem ht] at hV ⊢
      exact ih.next h3 hi hV

structure Neat (L : Layout) (k : ℕ) (w : World) (v : View) : Prop where
  tidy : Tidy L w.phys v w.flight
  roots : v.roots = w.roots
  held : v.held = w.held
  kernPd : w.phys.kernPd = k

namespace Neat

lemma good (h : Neat L k w v) : Good L k w v := ⟨h.tidy.inv, h.tidy.dead, h.roots, h.held, h.kernPd⟩

lemma root_iff (h : Neat L k w v) : v.lev q = 1 ↔ w.Root q := by
  rw [h.tidy.inv.shape.root, h.roots]
  rfl

section Raze

variable (h : Neat L k w v) (hz : Razed L w.phys v w.flight pd s' v')
  (h' : Neat L k ⟨s', w.roots.erase pd, w.held.erase pd, w.flight⟩ v')
include h hz h'

section

variable (hpd : pd ∈ w.roots)
include hpd

lemma root_without : v'.lev q = 1 ↔ v.lev q = 1 ∧ q ≠ pd := by
  refine ⟨hz.root h.tidy.inv (h.roots ▸ hpd), fun ⟨hq, hne⟩ => ?_⟩
  refine h'.root_iff.mpr ((h.root_iff.mp hq).imp (fun he => he.trans hz.kernPd.symm) fun hm => ?_)
  exact (mem_erase_of_ne hne).mpr hm

lemma lev_razed : v'.lev t ≠ 0 ↔ v.lev t ≠ 0 ∧ v.own t ≠ pd := by
  have hi := h.tidy.inv
  have hd := h.tidy.dead
  constructor
  · intro ht
    obtain ⟨hq, htab⟩ := h'.tidy.inv.shape.tableOf_own rfl ht
    obtain ⟨hq, hne⟩ := (h.root_without hz h' hpd).mp hq
    obtain ⟨h1, h2, h3⟩ := hi.shape.of_tableOf hd hq ((hz.tableOf hi hd hq hne).mp htab)
    exact ⟨by omega, h3 ▸ hne⟩
  · rintro ⟨ht, ho⟩
    obtain ⟨hq, htab⟩ := hi.shape.tableOf_own rfl ht
    have htab' := (hz.tableOf hi hd hq ho).mpr htab
    have hq' := (h.root_without hz h' hpd).mpr ⟨hq, ho⟩
    have := h'.tidy.inv.shape.of_tableOf h'.tidy.dead hq' htab'
    omega

lemma key_razed (x : ℕ × ℕ) : key s' v' x = some f ↔ key w.phys v x = some f ∧ v.own x.1 ≠ pd := by
  constructor
  · intro hk
    have hl : v'.lev x.1 ≠ 0 := fun h0 => by
      rw [key_of_lev_zero h0] at hk
      cases hk
    exact ⟨hz.key x f hk, ((h.lev_razed hz h' hpd).mp hl).2⟩
  · rintro ⟨hk, ho⟩
    unfold key at hk ⊢
    split at hk
    · next hc =>
      have hl := (h.lev_razed hz h' hpd).mpr ⟨hc.1, ho⟩
      rw [if_pos ⟨hl, by simp [h'.tidy.dead], hz.ident.symm ▸ hc.2.2⟩, hz.mem x.1 fun he => ho he.2]
      exact hk
    · cases hk

lemma entries_without (f : ℕ) :
    entries (w.without pd) f = entries ⟨s', w.roots.erase pd, w.held.erase pd, w.flight⟩ f := by
  have hi := h.tidy.inv
  have hd := h.tidy.dead
  have htab : ∀ l t, Table s' (w.roots.erase pd) l t ↔ Table w.phys (w.roots.erase pd) l t := fun l t => by
    rw [table_iff, table_iff, hz.kernPd]
    refine exists_congr fun q => and_congr_right fun hq => ?_
    have hq' : v'.lev q = 1 := h'.root_iff.mpr (hq.imp_left fun he => he.trans hz.kernPd.symm)
    obtain ⟨hq0, hne⟩ := (h.root_without hz h' hpd).mp hq'
    exact hz.tableOf hi hd hq0 hne
  have hmem : ∀ l t, Table w.phys (w.roots.erase pd) l t → s'.mem t = w.phys.mem t := fun l t ht => by
    obtain ⟨h1, h2⟩ := h'.good.lev_of_table ((htab l t).mpr ht)
    have hl : v'.lev t ≠ 0 := by omega
    exact hz.mem t fun he => ((h.lev_razed hz h' hpd).mp hl).2 he.2
  unfold entries
  congr 1
  ext x
  constructor
  · rintro ⟨⟨l, hl⟩, hx, hid, ht⟩
    refine ⟨⟨l, (htab l x.1).mpr hl⟩, hx, ?_, ?_⟩
    · exact hz.ident.symm ▸ hid
    · change target (s'.mem x.1 x.2) = some f
      rw [hmem l x.1 hl]
      exact ht
  · rintro ⟨⟨l, hl⟩, hx, hid, ht⟩
    have hl' := (htab l x.1).mp hl
    refine ⟨⟨l, hl'⟩, hx, ?_, ?_⟩
    · exact hz.ident ▸ hid
    · change target (s'.mem x.1 x.2) = some f at ht
      rwa [hmem l x.1 hl'] at ht

lemma refs_razed : refs L s' v' f = 0 ↔
    ∀ t i, t < L.npage → i < 512 → key w.phys v (t, i) = some f → v.own t = pd := by
  rw [refs, occ_eq_zero]
  constructor
  · intro h0 t i ht hi hk
    by_contra ho
    exact h0 (t, i) (mem_words.mpr ⟨ht, hi⟩) ((h.key_razed hz h' hpd _).mpr ⟨hk, ho⟩)
  · rintro h0 ⟨t, i⟩ hx hk
    obtain ⟨hk, ho⟩ := (h.key_razed hz h' hpd _).mp hk
    obtain ⟨ht, hi⟩ := mem_words.mp hx
    exact ho (h0 t i ht hi hk)

end

end Raze

section Pages

variable (h : Neat L k w v)
include h

lemma leaf_plain (hq : w.Root q) (hm : Maps w.phys q f) : v.lev f = 0 := by
  obtain ⟨va, hc, ht⟩ := hm
  exact h.tidy.leaf q va f (h.root_iff.mpr hq) hc ht

lemma key_cases (hi : i < 512) (hk : key w.phys v (t, i) = some f) :
    (v.lev f ≠ 0 ∧ v.own f = v.own t) ∨ (v.lev f = 0 ∧ w.Root (v.own t) ∧ Maps w.phys (v.own t) f) := by
  have hs := h.tidy.inv.shape
  have hl : v.lev t ≠ 0 := fun h0 => by
    rw [key_of_lev_zero h0] at hk
    cases hk
  by_cases h3 : v.lev t = 3
  · have hq := h.root_iff.mp (hs.tableOf_own rfl hl).1
    have hm := hs.maps_of_key h3 hi hk
    exact .inr ⟨h.leaf_plain hq hm, hq, hm⟩
  · have := hs.lev_le t
    unfold key at hk
    split at hk
    · next hc =>
      obtain ⟨h1, h2⟩ := hs.link t i f ⟨by omega, hi, hc.2.1, hk⟩
      exact .inl ⟨by omega, h2⟩
    · cases hk

variable (hpd : pd ∈ w.roots)
include hpd

lemma lev_of_tableOf (ht : TableOf w.phys pd l f) : v.lev f ≠ 0 ∧ v.own f = pd := by
  obtain ⟨h1, h2, h3⟩ := h.tidy.inv.shape.of_tableOf h.tidy.dead (h.root_iff.mpr (.inr hpd)) ht
  exact ⟨by omega, h3⟩

lemma released_own (hr : Released w pd f) (hi : i < 512) (hk : key w.phys v (t, i) = some f) : v.own t = pd := by
  rcases hr with ⟨l, ht⟩ | ⟨hm, -, hno⟩
  · obtain ⟨hl, ho⟩ := h.lev_of_tableOf hpd ht
    rcases h.key_cases hi hk with ⟨-, he⟩ | ⟨h0, -⟩
    · exact he.symm.trans ho
    · exact absurd h0 hl
  · rcases h.key_cases hi hk with ⟨hl, -⟩ | ⟨-, hq, hm'⟩
    · exact absurd (h.leaf_plain (.inr hpd) hm) hl
    · by_contra hne
      exact hno _ hq hne hm'

lemma released_not_held (hr : Released w pd f) : f ∉ w.held.erase pd := by
  have hs := h.tidy.inv.shape
  intro hf
  rw [← h.held] at hf
  obtain ⟨hne, hf⟩ := hs.held_nodup.mem_erase_iff.mp hf
  rcases hr with ⟨l, ht⟩ | ⟨-, hn, -⟩
  · obtain ⟨hl, ho⟩ := h.lev_of_tableOf hpd ht
    rw [hs.own_root f (hs.root_of_mem (h.tidy.held f hf hl))] at ho
    exact hne ho
  · exact hn (h.held ▸ hf)

lemma released_used (hr : Released w pd f) : 0 < uses L w.phys v f := by
  have hs := h.tidy.inv.shape
  rcases hr with ⟨l, ht⟩ | ⟨⟨va, hc, ht⟩, -⟩
  · obtain ⟨hl, ho⟩ := h.lev_of_tableOf hpd ht
    refine hs.uses_table hl ?_
    rintro rfl
    rw [hs.own_root _ ((hs.root _).mpr (.inl rfl))] at ho
    exact hs.kern_root (ho ▸ h.roots ▸ hpd)
  · have := (hs.look_refs h.tidy.dead (h.root_iff.mpr (.inr hpd)) hc ht).2
    rw [uses]
    omega

lemma unreleased (hr : ¬ Released w pd f) (hu : 0 < uses L w.phys v f) : f ∈ w.held.erase pd ∨
    ∃ t i, t < L.npage ∧ i < 512 ∧ key w.phys v (t, i) = some f ∧ v.own t ≠ pd := by
  have hs := h.tidy.inv.shape
  by_cases hf : f ∈ w.held
  · have hne : f ≠ pd := by
      rintro rfl
      exact hr (.inl ⟨1, .root⟩)
    exact .inl ((mem_erase_of_ne hne).mpr hf)
  · have hpos : 0 < refs L w.phys v f := by
      rw [uses, h.held, count_eq_zero_of_not_mem hf] at hu
      omega
    obtain ⟨⟨t, i⟩, hx, hk⟩ := occ_pos.mp hpos
    obtain ⟨ht, hi⟩ := mem_words.mp hx
    by_cases ho : v.own t = pd
    · rcases h.key_cases hi hk with ⟨hl, hof⟩ | ⟨h0, -, hm⟩
      · refine absurd (.inl ⟨v.lev f, ?_⟩) hr
        have := (hs.tableOf_own rfl hl).2
        rwa [hof, ho] at this
      · rw [ho] at hm
        have hex : ∃ q, w.Root q ∧ q ≠ pd ∧ Maps w.phys q f := by
          by_contra hno
          push Not at hno
          exact hr (.inr ⟨hm, hf, hno⟩)
        obtain ⟨q, hq, hne, va, hc, htgt⟩ := hex
        obtain ⟨x, hx, hi, hk⟩ := hs.look_key h.tidy.dead (h.root_iff.mpr hq) hc htgt
        obtain ⟨hl, ho', -⟩ := hs.slot_lev h.tidy.dead (h.root_iff.mpr hq) hx
        exact .inr ⟨x.1, x.2, hs.lev_lt x.1 (by omega), hi, hk, ho'.symm ▸ hne⟩
    · exact .inr ⟨t, i, ht, hi, hk, ho⟩

lemma uses_razed (hz : Razed L w.phys v w.flight pd s' v') (h' : Neat L k
    ⟨s', w.roots.erase pd, w.held.erase pd, w.flight⟩ v') :
    uses L s' v' f = 0 ↔ uses L w.phys v f = 0 ∨ Released w pd f := by
  have hcount : uses L s' v' f = 0 ↔ refs L s' v' f = 0 ∧ f ∉ w.held.erase pd := by
    rw [uses, h'.held, ← count_eq_zero (l := w.held.erase pd)]
    exact Nat.add_eq_zero_iff
  rw [hcount, h.refs_razed hz h' hpd]
  by_cases hr : Released w pd f
  · exact iff_of_true ⟨fun t i _ hi hk => h.released_own hpd hr hi hk, h.released_not_held hpd hr⟩ (.inr hr)
  · rw [or_iff_left hr]
    constructor
    · rintro ⟨ho, hf⟩
      by_contra hu
      rcases h.unreleased hpd hr (pos_of_ne_zero hu) with hm | ⟨t, i, ht, hi, hk, hne⟩
      · exact hf hm
      · exact hne (ho t i ht hi hk)
    · intro hu
      rw [uses, h.held, Nat.add_eq_zero_iff, count_eq_zero] at hu
      refine ⟨fun t i ht hi hk => ?_, fun hm => hu.2 (mem_of_mem_erase hm)⟩
      exact absurd hk (occ_eq_zero.mp hu.1 (t, i) (mem_words.mpr ⟨ht, hi⟩))

lemma tornDown (hz : Razed L w.phys v w.flight pd s' v') (h' : Neat L k
    ⟨s', w.roots.erase pd, w.held.erase pd, w.flight⟩ v')
    (hb : ∀ f ∈ pool, L.pageused ≤ f ∧ f < L.npage ∧ f ≠ k) : TornDown L pool w pd s' where
  freed f hf := by
    obtain ⟨hu, hlt, -⟩ := hb f hf
    have hold := (h.good.exact hb).free f hf
    have hnew := (h'.good.exact hb).free f hf
    have hz0 := h.tidy.inv.account.ref_zero hu hlt
    have hz1 := h'.tidy.inv.account.ref_zero hu hlt
    rw [h.uses_razed hpd hz h'] at hz1
    rw [hold]
    refine hnew.trans ?_
    by_cases hr : Released w pd f
    · have hne : w.phys.ref f ≠ 0 := fun h0 => ne_of_gt (h.released_used hpd hr) (hz0.mp h0)
      have hfl : f ∉ w.flight := fun hm => hne (h.tidy.inv.account.flight_page f hm).2.2.1
      rw [if_pos ⟨hz1.mpr (.inr hr), hfl⟩, if_neg fun hc => hne hc.1, if_pos hr]
    · rw [or_iff_left hr, ← hz0] at hz1
      rw [if_neg hr, add_zero]
      exact if_congr (and_congr_left fun _ => hz1) rfl rfl
  count f hlt := by
    have := h'.tidy.inv.account.count f hlt
    rw [uses, ← h'.good.entries_eq, h'.held, ← h.entries_without hz h' hpd] at this
    rw [add_assoc]
    exact this
  others q l t hq hne ht := by
    have hi := h.tidy.inv
    have hq' := h.root_iff.mpr hq
    refine ⟨(hz.tableOf hi h.tidy.dead hq' hne).mpr ht, fun i _ => ?_⟩
    have ho := (hi.shape.of_tableOf h.tidy.dead hq' ht).2.2
    rw [hz.mem t fun he => hne (ho.symm.trans he.2)]

end Pages

end Neat

namespace Tidy

variable {va pa : BitVec 64} {perm : Pte} {p : ℕ}

lemma mapImage (h : Tidy L s v fl) (hpd : pd ∈ v.roots) (hpa : membase ≤ pa ∧ paToPage pa < L.pageused)
    (hperm : perm.toNat < 1024) : wp (Mm.ptMap pd va pa perm) (fun r s' => r = 0 ∧
      ∃ v', Tidy L s' v' fl ∧ Kept s v s' v') NotRefZero s := by
  have hlt := lt_of_lt_of_le hpa.2 L.used_le
  have href : 0 < (s.ref (paToPage pa)).toNat := by
    rw [h.inv.account.count _ hlt, Layout.base, if_pos hpa.2]
    omega
  have hlev : v.lev (paToPage pa) = 0 := by
    by_contra hl
    have := h.heap _ hl
    omega
  have hland : landed fl (entry s.ad pa perm) = fl := by
    rw [landed_entry s.ad hperm, if_pos hpa.1]
    exact erase_of_not_mem (h.inv.not_flight href)
  have hs := h.inv.shape
  refine wp_mono (h.ptMap (hs.root_of_mem hpd) (hs.user_counted h.dead hpd)
    ⟨hperm, fun _ => hlt, fun _ => .inr href⟩ fun _ => hlev) ?_
  rintro r s' ⟨hr, v', ht, hk⟩
  exact ⟨hr, v', hland ▸ ht, hk⟩

lemma mapFresh (h : Tidy L s v (p :: fl)) (hpd : pd ∈ v.roots) (hlt : p < L.npage) (hl : v.lev p = 0)
    (hperm : perm.toNat < 1024) : wp (Mm.ptMap pd va (pageToPa p) perm) (fun r s' => r = 0 ∧
      ∃ v', Tidy L s' v' fl ∧ Kept s v s' v') NotRefZero s := by
  have hlt' := lt_trans hlt L.npage_lt
  have hpage := paToPage_pageToPa hlt'
  have hland : landed (p :: fl) (entry s.ad (pageToPa p) perm) = fl := by
    rw [landed_entry s.ad hperm, if_pos (membase_le_pageToPa hlt'), hpage]
    exact erase_cons_head ..
  have hs := h.inv.shape
  refine wp_mono (h.ptMap (hs.root_of_mem hpd) (hs.user_counted h.dead hpd)
    ⟨hperm, fun _ => hpage.symm ▸ hlt, fun _ => .inl (hpage.symm ▸ mem_cons_self)⟩
    fun _ => hpage.symm ▸ hl) fun r s' ⟨hr, v', ht, hk⟩ => ?_
  exact ⟨hr, v', hland ▸ ht, hk⟩

lemma procInitupt (h : Tidy L s v fl) (img : Image L) :
    wp (procInitupt img) (fun c s' => ∃ v', Tidy L s' v' fl ∧ v'.roots = c :: v.roots ∧ v'.held = c :: v.held ∧
      s'.kernPd = s.kernPd) NotRefZero s := by
  unfold Mm.procInitupt
  refine wp_seq h.newPt fun c s1 ⟨h1, hk1, _⟩ => wp_bind.mpr ?_
  refine wp_mono (h1.mapImage mem_cons_self img.trampoline_page (by decide))
    fun r s2 ⟨hr, v2, h2, hk2⟩ => wp_bind.mpr (wp_panicOn_zero hr (wp_bind.mpr ?_))
  refine wp_mono (h2.mapImage (hk2.roots ▸ mem_cons_self) img.userSigReturn_page (by decide))
    fun r s3 ⟨hr, v3, h3, hk3⟩ => wp_bind.mpr (wp_panicOn_zero hr (wp_bind.mpr ?_))
  refine wp_mono h3.vmAlloc fun p s4 ⟨h4, hp⟩ => wp_bind.mpr ?_
  have hk := hk2.trans hk3
  refine wp_mono (h4.mapFresh (hk.roots ▸ mem_cons_self) hp.lt hp.lev (by decide))
    fun r s5 ⟨hr, v5, h5, hk5⟩ => wp_bind.mpr (wp_panicOn_zero hr (wp_pure.mpr ⟨v5, h5, ?_, ?_, ?_⟩))
  · exact hk5.roots.trans hk.roots
  · exact hk5.held.trans hk.held
  · exact hk5.kernPd.trans (hp.kernPd.trans (hk.kernPd.trans hk1))

end Tidy

lemma Neat.settles (h : Neat L k w v) (img : Image L) {d : Deed} (ha : d.Allowed L w) :
    Settles (d.exec img w) fun w' => ∃ v', Neat L k w' v' := by
  have ht := h.tidy
  have hroot : ∀ {pd}, pd ∈ w.roots → pd ∈ v.roots := fun hpd => h.roots.symm ▸ hpd
  have hkept : ∀ {s' v' fl}, Tidy L s' v' fl → Kept w.phys v s' v' →
      ∃ v', Neat L k ⟨s', w.roots, w.held, fl⟩ v' := fun ht hk =>
    ⟨_, ht, hk.roots.trans h.roots, hk.held.trans h.held, hk.kernPd.trans h.kernPd⟩
  cases d with
  | initupt =>
    refine settles_after (ht.procInitupt img) ?_
    rintro c s' ⟨v', ht', hr, hh, hk⟩
    exact ⟨v', ht', hr.trans (by rw [h.roots]), hh.trans (by rw [h.held]), hk.trans h.kernPd⟩
  | event e =>
    obtain ⟨ha, ho⟩ := ha
    cases e with
    | kvmAlloc =>
      refine settles_after ht.kvmAlloc fun p s' ht' => ⟨v.hold p, ht'.1, h.roots, ?_, ht'.2.1.trans h.kernPd⟩
      rw [View.hold, h.held]
    | kvmFree p =>
      refine settles_after (ht.kvmFree (h.held.symm ▸ ha.1) (h.roots.symm ▸ ha.2)) fun _ s' ht' =>
        ⟨v.drop p, ht'.1, h.roots, ?_, ht'.2.trans h.kernPd⟩
      rw [View.drop, h.held]
    | newPt =>
      refine settles_after ht.newPt fun p s' ht' => ⟨_, ht'.1, ?_, ?_, ht'.2.1.trans h.kernPd⟩
      · rw [View.plant, View.hold, h.roots]
      · rw [View.plant, View.hold, h.held]
    | vmAlloc =>
      exact settles_after ht.vmAlloc fun p s' hp => ⟨v, hp.1, h.roots, h.held, hp.2.kernPd.trans h.kernPd⟩
    | ptMap pd va pa perm =>
      obtain ⟨hpd, hc, hm⟩ := ha
      have hplain : membase ≤ pa → v.lev (paToPage pa) = 0 := fun hb => by
        by_contra hl
        exact ho hb _ (h.good.table_of_lev rfl hl)
      refine settles_after (ht.ptMap (h.root_iff.mpr hpd) hc hm hplain) ?_
      rintro _ s' ⟨_, v', ht', hk⟩
      rw [landed_entry w.phys.ad hm.perm_lt] at ht'
      exact hkept ht' hk
    | ptUnmap pd va =>
      refine settles_after (ht.ptUnmap (h.root_iff.mpr ha.1) ha.2) fun _ s' ht' => ?_
      exact ⟨v, ht'.1, h.roots, h.held, ht'.2.trans h.kernPd⟩
    | fork pd child =>
      refine settles_after (ht.fork (hroot ha.1) (hroot ha.2.1) ha.2.2) ?_
      rintro _ s' ⟨v', ht', hk⟩
      exact hkept ht' hk
    | pageFault pd violate badva =>
      refine settles_after (ht.pageFault (hroot ha)) ?_
      rintro _ s' ⟨v', ht', hk⟩
      exact hkept ht' hk
    | teardown pd =>
      refine settles_after (wp_mono_error (ht.recycleUpt (hroot ha)) (by simp)) ?_
      rintro _ s' ⟨_, v', ht', hz⟩
      exact ⟨v', ht', by rw [hz.roots, h.roots], by rw [hz.held, h.held], hz.kernPd.trans h.kernPd⟩

lemma Kernel.neat (h : Kernel L s v) (h0 : (s.ref 0).toNat = L.base 0) : Neat L s.kernPd (World.start s) v := by
  have hs := h.inv.shape
  refine ⟨⟨h.inv, h.dead, ?_, h.heap, fun r va f hr hc ht => ?_, fun f hf => ?_⟩, h.roots, h.held, rfl⟩
  · have := h.inv.account.count 0 (lt_of_le_of_lt (zero_le _) h.inv.account.kern_page.2)
    rw [uses] at this
    change (s.ref 0).toNat = _ at this
    change refs L s v 0 = 0
    omega
  · obtain ⟨x, hx, hi, hk⟩ := hs.look_key h.dead hr hc ht
    unfold key at hk
    split at hk
    · next hkey =>
      change target (s.mem x.1 x.2) = some f at hk
      rw [h.blank.leaf x (hs.slot_lev h.dead hr hx).1 hkey.2.2] at hk
      cases hk.symm.trans target_zero
    · cases hk
  · rw [h.held] at hf
    cases hf

lemma wp_boot_low (b : Board) (mem : ℕ → ℕ → BitVec 64) :
    wp (boot b) (fun _ s => (s.ref 0).toNat = b.layout.base 0) (fun _ => True) (powerOn b mem) := by
  rw [Mm.boot, wp_bind, pmmInit, wp_modify]
  refine wp_mono (keeps_vmmInit b _) fun _ s hs => ?_
  rw [hs]
  change (if 0 < b.pageused then (1 : UInt32) else 0).toNat = if 0 < b.pageused then 1 else 0
  split <;> rfl

lemma Neat.deeds {img : Image L} {ds : List Deed} (h : ∃ v, Neat L k w v)
    (hrun : Run (fun w d w' => Deed.Step img w d w') w ds w') : ∃ v, Neat L k w' v :=
  hrun.invariant (P := fun w => ∃ v, Neat L k w v) h fun w d w' ⟨v, hv⟩ hstep => by
    have := hv.settles img hstep.1
    rwa [hstep.2] at this

lemma wp_boot_neat (b : Board) (img : Image b.layout) (mem : ℕ → ℕ → BitVec 64) :
    wp (boot b) (fun _ s => ∀ ds w, Run (fun w d w' => Deed.Step img w d w') (World.start s) ds w →
      ∃ v, Neat b.layout s.kernPd w v) NotRefZero (powerOn b mem) :=
  wp_mono (wp_and (wp_boot b mem) (wp_boot_low b mem)) fun _ _ ⟨⟨v, hk⟩, h0⟩ _ _ hrun =>
    Neat.deeds ⟨v, hk.neat h0⟩ hrun

theorem teardown_frees_owned (b : Board) (img : Image b.layout) (mem : ℕ → ℕ → BitVec 64) :
    wp (boot b) (fun _ s => ∀ ds w, Run (fun w d w' => Deed.Step img w d w') (World.start s) ds w →
        ∀ pd ∈ w.roots, wp (recycleUpt pd) (fun r s' => r = 0 ∧ TornDown b.layout s.pageFreeList w pd s')
          (fun _ => False) w.phys)
      NotRefZero (powerOn b mem) := by
  refine wp_mono (wp_and (wp_boot b mem) (wp_boot_low b mem)) fun _ s ⟨⟨v, hk⟩, h0⟩ ds w hrun pd hpd => ?_
  obtain ⟨v', hn⟩ := Neat.deeds ⟨v, hk.neat h0⟩ hrun
  refine wp_mono (hn.tidy.recycleUpt (hn.roots.symm ▸ hpd)) fun r s' ⟨hr, v₂, ht, hz⟩ => ⟨hr, ?_⟩
  refine hn.tornDown hpd hz ⟨ht, ?_, ?_, hz.kernPd.trans hn.kernPd⟩ fun f hf => ?_
  · rw [hz.roots, hn.roots]
  · rw [hz.held, hn.held]
  · obtain ⟨hu, hlt, -, -, hne⟩ := (hk.inv.account.free_iff f).mp hf
    exact ⟨hu, hlt, hne⟩

end FarmOS.Mm

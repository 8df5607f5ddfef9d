import FarmOS.Lib.Run
import FarmOS.Mm.Boot
import FarmOS.Mm.Fault
import FarmOS.Mm.ForkWalk
import FarmOS.Mm.Hold
import FarmOS.Mm.Recycle
import Mathlib.Data.Set.Card

/-! Physical page reference counts are exact in every state that a booted kernel reaches. -/

namespace FarmOS.Mm

open Lib

structure World where
  phys : Phys
  roots : List ℕ
  held : List ℕ
  flight : List ℕ

inductive Event
  | kvmAlloc
  | kvmFree (p : ℕ)
  | newPt
  | vmAlloc
  | ptMap (pd : ℕ) (va pa : BitVec 64) (perm : Pte)
  | ptUnmap (pd : ℕ) (va : BitVec 64)
  | fork (pd child : ℕ)
  | pageFault (pd : ℕ) (violate : Pte) (badva : BitVec 64)
  | teardown (pd : ℕ)

def World.start (s : Phys) : World := ⟨s, [], [], []⟩

def World.after {α : Type} (w : World) (c : M α) (g : α → Phys → World) : Except Panic World :=
  match c.run w.phys with
  | .ok (a, s) => .ok (g a s)
  | .error p => .error p

namespace Event

def exec (w : World) : Event → Except Panic World
  | kvmAlloc => w.after Mm.kvmAlloc fun p s => { w with phys := s, held := p :: w.held }
  | kvmFree p => w.after (Mm.kvmFree p) fun _ s => { w with phys := s, held := w.held.erase p }
  | newPt => w.after Mm.kvmAlloc fun p s =>
      { w with phys := s, roots := p :: w.roots, held := p :: w.held }
  | vmAlloc => w.after Mm.vmAlloc fun p s => { w with phys := s, flight := p :: w.flight }
  | ptMap pd va pa perm => w.after (Mm.ptMap pd va pa perm) fun _ s =>
      { w with
        phys := s
        flight := if membase ≤ pa then w.flight.erase (paToPage pa) else w.flight }
  | ptUnmap pd va => w.after (Mm.ptUnmap pd va) fun _ s => { w with phys := s }
  | fork pd child => w.after (forkPages pd child) fun _ s => { w with phys := s }
  | pageFault pd violate badva => w.after (pageFaultHandler pd violate badva) fun _ s =>
      { w with phys := s }
  | teardown pd => w.after (recycleUpt pd) fun _ s =>
      { w with phys := s, roots := w.roots.erase pd, held := w.held.erase pd }

def Allowed (L : Layout) (w : World) : Event → Prop
  | kvmAlloc | newPt | vmAlloc => True
  | kvmFree p => p ∈ w.held ∧ p ∉ w.roots
  | ptMap pd va pa perm => (pd = w.phys.kernPd ∨ pd ∈ w.roots) ∧ ¬ Uncounted w.phys pd va ∧
      Mappable L w.phys w.flight pa perm
  | ptUnmap pd va => (pd = w.phys.kernPd ∨ pd ∈ w.roots) ∧ ¬ Uncounted w.phys pd va
  | fork pd child => pd ∈ w.roots ∧ child ∈ w.roots ∧ pd ≠ child
  | pageFault pd _ _ => pd ∈ w.roots
  | teardown pd => pd ∈ w.roots

def Step (L : Layout) (w : World) (e : Event) (w' : World) : Prop := e.Allowed L w ∧ e.exec w = .ok w'

end Event

inductive Table (s : Phys) (roots : List ℕ) : ℕ → ℕ → Prop
  | root {t : ℕ} : t = s.kernPd ∨ t ∈ roots → Table s roots 1 t
  | next {l t i : ℕ} : Table s roots l t → l < 3 → i < 512 → has (s.mem t i) pteV = true →
      Table s roots (l + 1) (paToPage (pteToPa (s.mem t i)))

inductive TableOf (s : Phys) (pd : ℕ) : ℕ → ℕ → Prop
  | root : TableOf s pd 1 pd
  | next {l t i : ℕ} : TableOf s pd l t → l < 3 → i < 512 → has (s.mem t i) pteV = true →
      TableOf s pd (l + 1) (paToPage (pteToPa (s.mem t i)))

noncomputable def entries (w : World) (f : ℕ) : ℕ :=
  Set.ncard {x : ℕ × ℕ | (∃ l, Table w.phys w.roots l x.1) ∧ x.2 < 512 ∧ x ∉ w.phys.ident ∧
    target (w.phys.mem x.1 x.2) = some f}

structure Exact (boot : List ℕ) (w : World) : Prop where
  ref (f : ℕ) : f ∈ boot → (w.phys.ref f).toNat = entries w f + w.held.count f
  free (f : ℕ) : f ∈ boot →
    w.phys.pageFreeList.count f = if w.phys.ref f = 0 ∧ f ∉ w.flight then 1 else 0
  left : w.phys.pageleft = w.phys.pageFreeList.length

structure Good (L : Layout) (k : ℕ) (w : World) (v : View) : Prop where
  inv : Inv L w.phys v w.flight
  dead : v.dead = ∅
  roots : v.roots = w.roots
  held : v.held = w.held
  kernPd : w.phys.kernPd = k

variable {L : Layout} {s : Phys} {w w' : World} {v : View} {k l t f pd q : ℕ}

lemma Shape.of_tableOf (h : Shape L s v) (hd : v.dead = ∅) (hq : v.lev q = 1) (ht : TableOf s q l t) :
    v.lev t = l ∧ l ≠ 0 ∧ v.own t = q := by
  induction ht with
  | root => exact ⟨hq, Nat.one_ne_zero, h.own_root q hq⟩
  | @next l t i _ h3 hi hV ih =>
    have hlev : v.lev t = 1 ∨ v.lev t = 2 := by omega
    have hlive : (t, i) ∉ v.dead := by simp [hd]
    obtain ⟨c, hc⟩ := h.link_some t i hlev hi hlive hV
    rw [((target_eq_some_iff _ _).mp hc).2]
    obtain ⟨h1, h2⟩ := h.link t i c ⟨hlev, hi, hlive, hc⟩
    exact ⟨by omega, by omega, h2.trans ih.2.2⟩

lemma Shape.tableOf_own (h : Shape L s v) (ht : v.lev t = l) (hl : l ≠ 0) :
    v.lev (v.own t) = 1 ∧ TableOf s (v.own t) l t := by
  induction l generalizing t with
  | zero => exact absurd rfl hl
  | succ l ih =>
    by_cases h0 : l = 0
    · subst h0
      rw [h.own_root t ht]
      exact ⟨ht, .root⟩
    · have := h.lev_le t
      obtain ⟨t', i, hlink⟩ := h.parent t (by omega)
      obtain ⟨h1, h2⟩ := h.link t' i t hlink
      obtain ⟨⟨hV, -⟩, he⟩ := (target_eq_some_iff _ _).mp hlink.tgt
      obtain ⟨hr, htab⟩ := ih (t := t') (by omega) h0
      rw [h2]
      refine ⟨hr, ?_⟩
      have := htab.next (by omega) hlink.index hV
      rwa [he] at this

lemma table_iff {roots : List ℕ} : Table s roots l t ↔ ∃ q, (q = s.kernPd ∨ q ∈ roots) ∧ TableOf s q l t := by
  constructor
  · intro h
    induction h with
    | @root t hr => exact ⟨t, hr, .root⟩
    | next _ h3 hi hV ih =>
      obtain ⟨q, hq, ht⟩ := ih
      exact ⟨q, hq, ht.next h3 hi hV⟩
  · rintro ⟨q, hq, ht⟩
    induction ht with
    | root => exact .root hq
    | next _ h3 hi hV ih => exact ih.next h3 hi hV

lemma Good.lev_of_table (h : Good L k w v) (ht : Table w.phys w.roots l t) : v.lev t = l ∧ l ≠ 0 := by
  have hs := h.inv.shape
  obtain ⟨q, hq, ht⟩ := table_iff.mp ht
  obtain ⟨hl, h0, -⟩ := hs.of_tableOf h.dead ((hs.root q).mpr (h.roots.symm ▸ hq)) ht
  exact ⟨hl, h0⟩

lemma Good.table_of_lev (h : Good L k w v) (ht : v.lev t = l) (hl : l ≠ 0) : Table w.phys w.roots l t := by
  have hs := h.inv.shape
  obtain ⟨hq, ht⟩ := hs.tableOf_own ht hl
  exact table_iff.mpr ⟨_, h.roots ▸ (hs.root _).mp hq, ht⟩

lemma Good.entries_eq (h : Good L k w v) (f : ℕ) : entries w f = refs L w.phys v f := by
  have hset : {x : ℕ × ℕ | (∃ l, Table w.phys w.roots l x.1) ∧ x.2 < 512 ∧ x ∉ w.phys.ident ∧
      target (w.phys.mem x.1 x.2) = some f} =
      ↑(L.words.filter fun x => key w.phys v x = some f) := by
    ext ⟨t, i⟩
    simp only [Set.mem_ofPred_eq, Finset.coe_filter, mem_words]
    constructor
    · rintro ⟨⟨l, ht⟩, hi, hid, htgt⟩
      obtain ⟨hl, h0⟩ := h.lev_of_table ht
      have hne : v.lev t ≠ 0 := by omega
      exact ⟨⟨h.inv.shape.lev_lt t hne, hi⟩, (if_pos ⟨hne, by simp [h.dead], hid⟩).trans htgt⟩
    · rintro ⟨⟨-, hi⟩, hk⟩
      unfold key at hk
      split at hk
      · next hc => exact ⟨⟨_, h.table_of_lev rfl hc.1⟩, hi, hc.2.2, hk⟩
      · cases hk
  rw [entries, hset, Set.ncard_coe_finset]
  rfl

lemma Good.exact (h : Good L k w v) {boot : List ℕ}
    (hb : ∀ f ∈ boot, L.pageused ≤ f ∧ f < L.npage ∧ f ≠ k) : Exact boot w where
  ref f hf := by
    obtain ⟨hu, hlt, -⟩ := hb f hf
    rw [h.inv.account.count f hlt, Layout.base, if_neg (by omega), uses, h.held, h.entries_eq]
    omega
  free f hf := by
    obtain ⟨hu, hlt, hk⟩ := hb f hf
    have hmem := h.inv.account.free_iff f
    rw [h.kernPd] at hmem
    by_cases hc : w.phys.ref f = 0 ∧ f ∉ w.flight
    · rw [if_pos hc]
      exact List.count_eq_one_of_mem h.inv.account.free_nodup (hmem.mpr ⟨hu, hlt, hc.1, hc.2, hk⟩)
    · rw [if_neg hc]
      exact List.count_eq_zero_of_not_mem fun hm => hc ⟨(hmem.mp hm).2.2.1, (hmem.mp hm).2.2.2.1⟩
  left := h.inv.account.left

def Settles (r : Except Panic World) (P : World → Prop) : Prop :=
  match r with
  | .ok w => P w
  | .error p => NotRefZero p

lemma settles_after {α : Type} {c : M α} {g : α → Phys → World} {Q : α → Phys → Prop}
    {P : World → Prop} (hc : wp c Q NotRefZero w.phys) (hQ : ∀ a s, Q a s → P (g a s)) :
    Settles (w.after c g) P := by
  unfold Settles World.after
  cases hr : c.run w.phys with
  | ok x => exact hQ _ _ (wp_of_ok hc hr)
  | error p => exact wp_of_error (E := NotRefZero) hc hr

lemma landed_entry {fl : List ℕ} {pa : BitVec 64} {perm : Pte} (ad : Bool) (hp : perm.toNat < 1024) :
    landed fl (entry ad pa perm) = if membase ≤ pa then fl.erase (paToPage pa) else fl := by
  by_cases h0 : pa = 0
  · subst h0
    rw [show entry ad 0 perm = perm from if_pos rfl, landed, target_perm hp, if_neg (by decide)]
  · rw [show entry ad pa perm = mkPte ad pa perm from if_neg h0, landed, target_mkPte _ _ hp]
    by_cases hm : membase ≤ pa
    · rw [if_pos hm, if_pos hm]
    · rw [if_neg hm, if_neg hm]

lemma Good.settles (h : Good L k w v) {e : Event} (ha : e.Allowed L w) :
    Settles (e.exec w) fun w' => ∃ v', Good L k w' v' := by
  have hs := h.inv.shape
  have hroot : ∀ {pd}, pd ∈ w.roots → pd ∈ v.roots := fun hpd => h.roots.symm ▸ hpd
  have hlev : ∀ {pd}, pd = w.phys.kernPd ∨ pd ∈ w.roots → v.lev pd = 1 := fun hpd =>
    (hs.root _).mpr (hpd.imp_right hroot)
  cases e with
  | kvmAlloc =>
    refine settles_after h.inv.kvmAlloc fun p s' h' => ?_
    obtain ⟨hinv, s1, hp, hsame, -⟩ := h'
    exact ⟨v.hold p, hinv, h.dead, h.roots, by rw [View.hold, h.held],
      hsame.kernPd.trans (hp.kernPd.trans h.kernPd)⟩
  | kvmFree p =>
    refine settles_after (h.inv.kvmFree (h.held.symm ▸ ha.1) (h.roots.symm ▸ ha.2)) fun _ s' h' => ?_
    exact ⟨v.drop p, h'.1, h.dead, h.roots, by rw [View.drop, h.held], h'.2.kernPd.trans h.kernPd⟩
  | newPt =>
    refine settles_after h.inv.newPt fun p s' h' => ?_
    obtain ⟨hinv, s1, hp, hsame, -⟩ := h'
    exact ⟨(v.hold p).plant p, hinv, h.dead, by rw [View.plant, View.hold, h.roots],
      by rw [View.plant, View.hold, h.held], hsame.kernPd.trans (hp.kernPd.trans h.kernPd)⟩
  | vmAlloc =>
    refine settles_after h.inv.pmAlloc fun p s' h' => ?_
    exact ⟨v, h'.inv, h.dead, h.roots, h.held, h'.kernPd.trans h.kernPd⟩
  | ptMap pd va pa perm =>
    obtain ⟨hpd, hc, hm⟩ := ha
    refine settles_after (h.inv.ptMap h.dead (hlev hpd) hc hm) fun _ s' h' => ?_
    obtain ⟨-, v', hw⟩ := h'
    have hk := hw.kept
    refine ⟨v', ?_, hk.dead.trans h.dead, hk.roots.trans h.roots, hk.held.trans h.held,
      hk.kernPd.trans h.kernPd⟩
    rw [← landed_entry w.phys.ad hm.perm_lt]
    exact hw.inv
  | ptUnmap pd va =>
    refine settles_after (h.inv.ptUnmap h.dead (hlev ha.1) ha.2) fun _ s' h' => ?_
    obtain ⟨hinv, x, -, hsame⟩ := h'
    exact ⟨v, hinv, h.dead, h.roots, h.held, hsame.kernPd.trans h.kernPd⟩
  | fork pd child =>
    obtain ⟨hpd, hch, hne⟩ := ha
    refine settles_after (h.inv.forkWalk h.dead (hroot hpd) (hroot hch) hne) fun _ s' h' => ?_
    obtain ⟨-, v', hr⟩ := h'
    have hk := hr.kept
    exact ⟨v', hr.inv, hk.dead.trans h.dead, hk.roots.trans h.roots, hk.held.trans h.held,
      hk.kernPd.trans h.kernPd⟩
  | pageFault pd violate badva =>
    refine settles_after (h.inv.pageFault_kept h.dead (hroot ha)) fun _ s' h' => ?_
    obtain ⟨v', hinv, hk⟩ := h'
    exact ⟨v', hinv, hk.dead.trans h.dead, hk.roots.trans h.roots, hk.held.trans h.held,
      hk.kernPd.trans h.kernPd⟩
  | teardown pd =>
    refine settles_after (h.inv.recycleUpt (fun _ _ _ => by rintro ⟨⟩) h.dead (hroot ha)) fun _ s' h' => ?_
    obtain ⟨-, v', hz⟩ := h'
    exact ⟨v', hz.inv, hz.dead, by rw [hz.roots, h.roots], by rw [hz.held, h.held], hz.kernPd.trans h.kernPd⟩

lemma Good.step (h : Good L k w v) {e : Event} (hstep : e.Step L w w') : ∃ v', Good L k w' v' := by
  have := h.settles hstep.1
  rwa [hstep.2] at this

lemma Kernel.good {s : Phys} (h : Kernel L s v) : Good L s.kernPd (World.start s) v :=
  ⟨h.inv, h.dead, h.roots, h.held, rfl⟩

theorem page_refs_exact (b : Board) (mem : ℕ → ℕ → BitVec 64) :
    wp (boot b) (fun _ s => ∀ es w, Run (fun w e w' => Event.Step b.layout w e w') (World.start s) es w →
        Exact s.pageFreeList w ∧ ∀ e : Event, e.Allowed b.layout w → e.exec w ≠ .error .refZero)
      NotRefZero (powerOn b mem) := by
  refine wp_mono (wp_boot b mem) fun _ s ⟨v, hk⟩ es w hrun => ?_
  obtain ⟨v', hg⟩ := hrun.invariant (P := fun w => ∃ v, Good b.layout s.kernPd w v) ⟨v, hk.good⟩
    fun w e w' ⟨v, hv⟩ hstep => hv.step hstep
  refine ⟨hg.exact fun f hf => ?_, fun e he hp => ?_⟩
  · obtain ⟨hu, hlt, -, -, hne⟩ := (hk.inv.account.free_iff f).mp hf
    exact ⟨hu, hlt, hne⟩
  · have := hg.settles he
    rw [hp] at this
    exact this rfl

theorem page_tables_apart (b : Board) (mem : ℕ → ℕ → BitVec 64) :
    wp (boot b) (fun _ s => ∀ es w, Run (fun w e w' => Event.Step b.layout w e w') (World.start s) es w →
        ∀ q q' l l' t, q = w.phys.kernPd ∨ q ∈ w.roots → q' = w.phys.kernPd ∨ q' ∈ w.roots →
          TableOf w.phys q l t → TableOf w.phys q' l' t → q = q' ∧ l = l')
      NotRefZero (powerOn b mem) := by
  refine wp_mono (wp_boot b mem) fun _ s ⟨v, hk⟩ es w hrun q q' l l' t hq hq' ht ht' => ?_
  obtain ⟨v', hg⟩ := hrun.invariant (P := fun w => ∃ v, Good b.layout s.kernPd w v) ⟨v, hk.good⟩
    fun w e w' ⟨v, hv⟩ hstep => hv.step hstep
  rw [← hg.roots, ← hg.inv.shape.root] at hq hq'
  obtain ⟨hl, -, hown⟩ := hg.inv.shape.of_tableOf hg.dead hq ht
  obtain ⟨hl', -, hown'⟩ := hg.inv.shape.of_tableOf hg.dead hq' ht'
  exact ⟨hown.symm.trans hown', hl.symm.trans hl'⟩

end FarmOS.Mm

import FarmOS.Mm.Edit
import FarmOS.Mm.Exact

/-! A page table that was built from an empty root is a finite map from page numbers to entries. -/

namespace FarmOS.Mm

open Lib Function

inductive TableOp
  | vmAlloc
  | newPt (p : ℕ)
  | ptWalk (pd : ℕ) (va : BitVec 64)
  | ptMap (pd : ℕ) (va pa : BitVec 64) (perm : Pte)
  | ptUnmap (pd : ℕ) (va : BitVec 64)

inductive TableOp.Step (L : Layout) (w : World) : TableOp → World → Prop
  | vmAlloc {p : ℕ} {s : Phys} : Mm.vmAlloc.run w.phys = .ok (p, s) →
      Step L w .vmAlloc { w with phys := s, flight := p :: w.flight }
  | newPt {p : ℕ} {s : Phys} : kvmAlloc.run w.phys = .ok (p, s) →
      Step L w (.newPt p) { w with phys := s, roots := p :: w.roots, held := p :: w.held }
  | ptWalk {pd : ℕ} {va : BitVec 64} {x : Option (ℕ × ℕ)} {s : Phys} : pd ∈ w.roots →
      (Mm.ptWalk pd va true).run w.phys = .ok (x, s) → Step L w (.ptWalk pd va) { w with phys := s }
  | ptMap {pd : ℕ} {va pa : BitVec 64} {perm : Pte} {r : ℤ} {s : Phys} : pd ∈ w.roots → va.toNat < 2 ^ 39 →
      Mappable L w.phys w.flight pa perm → (Mm.ptMap pd va pa perm).run w.phys = .ok (r, s) →
      Step L w (.ptMap pd va pa perm)
        { w with phys := s, flight := if membase ≤ pa then w.flight.erase (paToPage pa) else w.flight }
  | ptUnmap {pd : ℕ} {va : BitVec 64} {s : Phys} : pd ∈ w.roots → va.toNat < 2 ^ 39 →
      (Mm.ptUnmap pd va).run w.phys = .ok (0, s) → Step L w (.ptUnmap pd va) { w with phys := s }

def TableOp.law (ad : Bool) (r n : ℕ) (old : Pte) : TableOp → Pte
  | ptMap pd va pa perm => if r = pd ∧ n = va.toNat / pageSize then entry ad pa perm else old
  | ptUnmap pd va => if r = pd ∧ n = va.toNat / pageSize then 0 else old
  | vmAlloc | newPt _ | ptWalk _ _ => old

abbrev Tables := ℕ → Option (ℕ → Pte)

def TableOp.apply (ad : Bool) (t : Tables) : TableOp → Tables
  | newPt p => update t p (some fun _ => 0)
  | op => fun r => (t r).map fun m n => op.law ad r n (m n)

def tablesOf (ad : Bool) (ops : List TableOp) : Tables := ops.foldl (TableOp.apply ad) fun _ => none

variable {L : Layout} {w w' : World} {v v' : View} {k r : ℕ} {vb : BitVec 64} {op : TableOp} {t : Tables}

structure Charted (L : Layout) (k : ℕ) (w : World) (v : View) (t : Tables) : Prop where
  good : Good L k w v
  agree (r : ℕ) (m : ℕ → Pte) : t r = some m → r ∈ w.roots ∧
    ∀ vb : BitVec 64, vb.toNat < 2 ^ 39 → look w.phys r vb = m (vb.toNat / pageSize)

structure Lawful (L : Layout) (k : ℕ) (w : World) (op : TableOp) (w' : World) : Prop where
  good : ∃ v', Good L k w' v'
  ad : w'.phys.ad = w.phys.ad
  roots (r : ℕ) : r ∈ w.roots → r ∈ w'.roots
  look (r : ℕ) (vb : BitVec 64) : r ∈ w.roots → vb.toNat < 2 ^ 39 →
    look w'.phys r vb = op.law w.phys.ad r (vb.toNat / pageSize) (Mm.look w.phys r vb)
  root (p : ℕ) : op = .newPt p → p ∈ w'.roots ∧ ∀ vb, Mm.look w'.phys p vb = 0

section Steps

variable (h : Good L k w v)
include h

lemma Good.kept {s' : Phys} {fl' : List ℕ} (hk : Kept w.phys v s' v') (hi : Inv L s' v' fl') :
    Good L k ⟨s', w.roots, w.held, fl'⟩ v' :=
  ⟨hi, hk.dead.trans h.dead, hk.roots.trans h.roots, hk.held.trans h.held, hk.kernPd.trans h.kernPd⟩

lemma Good.root (hr : r ∈ w.roots) : v.lev r = 1 := h.inv.shape.root_of_mem (h.roots.symm ▸ hr)

lemma Good.lawful (hstep : op.Step L w w') : Lawful L k w op w' := by
  have hs := h.inv.shape
  have hd := h.dead
  cases hstep with
  | vmAlloc hrun =>
    have hp := wp_of_ok h.inv.pmAlloc hrun
    refine ⟨⟨v, hp.inv, hd, h.roots, h.held, hp.kernPd.trans h.kernPd⟩, hp.ad, fun _ hr => hr,
      fun r vb hr _ => hp.agrees.look hs hd (h.root hr), by simp⟩
  | @newPt p s hrun =>
    obtain ⟨hinv, s1, hp, hsame, -⟩ := wp_of_ok h.inv.newPt hrun
    have hmem : ∀ t, t ≠ p → s.mem t = w.phys.mem t := fun t ht => by rw [hsame.mem, hp.mem t ht]
    have hag : Agrees v w.phys s := ⟨fun t ht => hmem t fun he => ht (he ▸ hp.lev),
      hsame.kernPd.trans hp.kernPd, hsame.ident.trans hp.ident⟩
    refine ⟨⟨(v.hold p).plant p, hinv, hd, ?_, ?_, hag.kernPd.trans h.kernPd⟩, hsame.ad.trans hp.ad,
      fun r hr => List.mem_cons_of_mem p hr, fun r vb hr _ => hag.look hs hd (h.root hr), ?_⟩
    · rw [View.plant, View.hold, h.roots]
    · rw [View.plant, View.hold, h.held]
    · rintro _ ⟨⟩
      exact ⟨List.mem_cons_self, look_of_zero fun i => by rw [hsame.mem]; exact hp.zero i⟩
  | ptWalk hpd hrun =>
    obtain ⟨v', x, -, hw⟩ := wp_of_ok (h.inv.ptWalk hd (h.root hpd)) hrun
    have hg := hw.grown
    refine ⟨⟨v', hw.inv, hg.dead.trans hd, hg.roots.trans h.roots, hg.held.trans h.held,
      hg.kernPd.trans h.kernPd⟩, hg.ad, fun _ hr => hr, fun r vb hr _ => ?_, by simp⟩
    exact hg.look hs hw.inv.shape hd (h.root hr) vb
  | ptMap hpd hva hm hrun =>
    obtain ⟨-, v', hw⟩ := wp_of_ok
      (h.inv.ptMap hd (h.root hpd) (hs.user_counted hd (h.roots.symm ▸ hpd)) hm) hrun
    have hinv := hw.inv
    rw [landed_entry w.phys.ad hm.perm_lt] at hinv
    refine ⟨⟨v', h.kept hw.kept hinv⟩, hw.kept.ad, fun _ hr => hr, fun r vb hr hvb => ?_, by simp⟩
    rw [hw.look hd (h.root hpd) hs (h.root hr)]
    exact if_congr (and_congr_right' (samePage_canonical hvb hva)) rfl rfl
  | ptUnmap hpd hva hrun =>
    have hw := wp_of_ok (h.inv.unmapped hd (h.roots.symm ▸ hpd)) hrun
    refine ⟨⟨v, h.kept hw.kept hw.inv⟩, hw.kept.ad, fun _ hr => hr, fun r vb hr hvb => ?_, by simp⟩
    rw [hw.look r vb (h.root hr)]
    exact if_congr (and_congr_right' (samePage_canonical hvb hva)) rfl rfl

end Steps

lemma Charted.step {ad : Bool} (h : Charted L k w v t) (had : w.phys.ad = ad) (hstep : op.Step L w w') :
    w'.phys.ad = ad ∧ ∃ v', Charted L k w' v' (op.apply ad t) := by
  have hl := h.good.lawful hstep
  obtain ⟨v', hg⟩ := hl.good
  have hold : ∀ r m, t r = some m → r ∈ w'.roots ∧ ∀ vb : BitVec 64, vb.toNat < 2 ^ 39 →
      look w'.phys r vb = op.law ad r (vb.toNat / pageSize) (m (vb.toNat / pageSize)) := fun r m hm => by
    obtain ⟨hr, hlook⟩ := h.agree r m hm
    refine ⟨hl.roots r hr, fun vb hvb => ?_⟩
    rw [hl.look r vb hr hvb, hlook vb hvb, had]
  refine ⟨hl.ad.trans had, v', hg, fun r m hm => ?_⟩
  by_cases hnew : op = .newPt r
  · subst hnew
    obtain ⟨hr, hz⟩ := hl.root r rfl
    rw [TableOp.apply, update_self] at hm
    obtain rfl := Option.some.inj hm
    exact ⟨hr, fun vb _ => hz vb⟩
  · have hm' : ∃ m0, t r = some m0 ∧ (fun n => op.law ad r n (m0 n)) = m := by
      cases op with
      | newPt p =>
        have hne : r ≠ p := fun he => hnew (by rw [he])
        rw [TableOp.apply, update_of_ne hne] at hm
        exact ⟨m, hm, rfl⟩
      | vmAlloc | ptWalk _ _ | ptMap _ _ _ _ | ptUnmap _ _ => exact Option.map_eq_some_iff.mp hm
    obtain ⟨m0, hm0, rfl⟩ := hm'
    exact hold r m0 hm0

lemma run_ptLookup (s : Phys) (pd : ℕ) (va : BitVec 64) : (ptLookup pd va).run s = .ok (look s pd va, s) := by
  have h : wp (ptLookup pd va) (fun e s' => e = look s pd va ∧ s' = s) (fun _ => False) s :=
    wp_ptLookup.mpr ⟨rfl, rfl⟩
  cases hr : (ptLookup pd va).run s with
  | ok x =>
    obtain ⟨e, s'⟩ := x
    obtain ⟨rfl, rfl⟩ := wp_of_ok h hr
    rfl
  | error p => exact (wp_of_error h hr).elim

theorem page_table_finite_map (b : Board) (mem : ℕ → ℕ → BitVec 64) :
    wp (boot b) (fun _ s => ∀ es w₀, Run (fun w e w' => Event.Step b.layout w e w') (World.start s) es w₀ →
      ∀ ops w, Run (fun w op w' => TableOp.Step b.layout w op w') w₀ ops w →
      (∀ pd m, tablesOf w₀.phys.ad ops pd = some m → ∀ vb : BitVec 64, vb.toNat < 2 ^ 39 →
        (ptLookup pd vb).run w.phys = .ok (m (vb.toNat / pageSize), w.phys)) ∧
      ∀ op w', TableOp.Step b.layout w op w' → ∀ pd ∈ w.roots, ∀ vb : BitVec 64, vb.toNat < 2 ^ 39 →
        ∀ old, (ptLookup pd vb).run w.phys = .ok (old, w.phys) →
        (ptLookup pd vb).run w'.phys = .ok (op.law w.phys.ad pd (vb.toNat / pageSize) old, w'.phys))
      NotRefZero (powerOn b mem) := by
  refine wp_mono (wp_boot b mem) fun _ s ⟨v, hk⟩ es w₀ hrun₀ ops w hrun => ?_
  obtain ⟨v₀, hg₀⟩ := hrun₀.invariant (P := fun w => ∃ v, Good b.layout s.kernPd w v) ⟨v, hk.good⟩
    fun w e w' ⟨v, hv⟩ hstep => hv.step hstep
  obtain ⟨-, v', hc⟩ := hrun.folded (f := TableOp.apply w₀.phys.ad) (x := fun _ => none)
    (R := fun w t => w.phys.ad = w₀.phys.ad ∧ ∃ v, Charted b.layout s.kernPd w v t)
    ⟨rfl, v₀, hg₀, nofun⟩ fun w op w' t ⟨had, v, hv⟩ hstep => hv.step had hstep
  refine ⟨fun pd m hm vb hvb => ?_, fun op w' hstep pd hpd vb hvb old hold => ?_⟩
  · rw [run_ptLookup, (hc.agree pd m hm).2 vb hvb]
  · have hlook : look w.phys pd vb = old := by
      rw [run_ptLookup] at hold
      exact (Prod.mk.inj (Except.ok.inj hold)).1
    rw [run_ptLookup, (hc.good.lawful hstep).look pd vb hpd hvb, hlook]

end FarmOS.Mm

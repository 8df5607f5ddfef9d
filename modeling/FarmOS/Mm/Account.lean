import FarmOS.Mm.Vmm
import FarmOS.Lib.Pool

/-! The allocator's books: reference counts, the free list and the pages handed out but not yet
referenced. -/

namespace FarmOS.Mm

open Lib List

structure Layout where
  npage : ℕ
  pageused : ℕ
  used_le : pageused ≤ npage
  npage_lt : npage < 2 ^ 23

variable {L : Layout} {s s' : Phys} {R R' : ℕ → ℕ} {flight : List ℕ} {f g : ℕ}

def Layout.base (L : Layout) (f : ℕ) : ℕ := if f < L.pageused then 1 else 0

structure Account (L : Layout) (s : Phys) (R : ℕ → ℕ) (flight : List ℕ) : Prop where
  count (f : ℕ) : f < L.npage → (s.ref f).toNat = L.base f + R f
  bound (f : ℕ) : R f ≤ 512 * L.npage + 1
  free_nodup : s.pageFreeList.Nodup
  free_iff (f : ℕ) : f ∈ s.pageFreeList ↔
    L.pageused ≤ f ∧ f < L.npage ∧ s.ref f = 0 ∧ f ∉ flight ∧ f ≠ s.kernPd
  left : s.pageleft = s.pageFreeList.length
  flight_nodup : flight.Nodup
  flight_page (f : ℕ) : f ∈ flight → L.pageused ≤ f ∧ f < L.npage ∧ s.ref f = 0 ∧ f ≠ s.kernPd
  kern : R s.kernPd = 0
  kern_page : L.pageused ≤ s.kernPd ∧ s.kernPd < L.npage

structure SameMaps (s s' : Phys) : Prop where
  mem : s'.mem = s.mem
  kernPd : s'.kernPd = s.kernPd
  ident : s'.ident = s.ident
  ad : s'.ad = s.ad

lemma ref_eq_zero_iff (r : UInt32) : r = 0 ↔ r.toNat = 0 := by
  rw [← UInt32.toNat_inj]
  rfl

section

variable (h : Account L s R flight)
include h

lemma Account.ref_zero (hu : L.pageused ≤ f) (hf : f < L.npage) : s.ref f = 0 ↔ R f = 0 := by
  rw [ref_eq_zero_iff, h.count f hf, Layout.base, if_neg (by omega)]
  omega

lemma Account.ne_kernPd (hf : 0 < R f) : f ≠ s.kernPd := by
  rintro rfl
  have := h.kern
  omega

lemma Account.congr (hr : s'.ref = s.ref) (hfr : s'.pageFreeList = s.pageFreeList) (hl : s'.pageleft = s.pageleft)
    (hk : s'.kernPd = s.kernPd) (hR : ∀ f, R' f = R f) : Account L s' R' flight := by
  obtain rfl : R' = R := funext hR
  refine ⟨?_, h.bound, ?_, ?_, ?_, h.flight_nodup, ?_, ?_, ?_⟩
  · rw [hr]
    exact h.count
  · rw [hfr]
    exact h.free_nodup
  · rw [hfr, hr, hk]
    exact h.free_iff
  · rw [hl, hfr]
    exact h.left
  · rw [hr, hk]
    exact h.flight_page
  · rw [hk]
    exact h.kern
  · rw [hk]
    exact h.kern_page

lemma Account.alloc {rest : List ℕ} (hs : s.pageFreeList = f :: rest) :
    Account L ({ s with pageFreeList := rest, pageleft := s.pageleft - 1 }.setPage f fun _ => 0) R
      (f :: flight) := by
  have hnd := h.free_nodup
  rw [hs, nodup_cons] at hnd
  obtain ⟨hu, hlt, hr, hfl, hk⟩ := (h.free_iff f).mp (by simp [hs])
  refine ⟨h.count, h.bound, hnd.2, fun g => ?_, ?_, nodup_cons.mpr ⟨hfl, h.flight_nodup⟩,
    fun g hg => ?_, h.kern, h.kern_page⟩
  · have hg := h.free_iff g
    rw [hs, mem_cons] at hg
    change g ∈ rest ↔ L.pageused ≤ g ∧ g < L.npage ∧ s.ref g = 0 ∧ g ∉ f :: flight ∧ g ≠ s.kernPd
    rw [mem_cons, not_or]
    constructor
    · intro hm
      obtain ⟨h1, h2, h3, h4, h5⟩ := hg.mp (.inr hm)
      refine ⟨h1, h2, h3, ⟨?_, h4⟩, h5⟩
      rintro rfl
      exact hnd.1 hm
    · rintro ⟨h1, h2, h3, ⟨hne, h4⟩, h5⟩
      exact (hg.mpr ⟨h1, h2, h3, h4, h5⟩).resolve_left hne
  · change s.pageleft - 1 = rest.length
    rw [h.left, hs]
    rfl
  · rcases mem_cons.mp hg with rfl | hg
    · exact ⟨hu, hlt, hr, hk⟩
    · exact h.flight_page g hg

lemma Account.inc (hf : f < L.npage) (hsrc : f ∈ flight ∨ 0 < (s.ref f).toNat) (hb : R f ≤ 512 * L.npage)
    (hR : ∀ g, R' g = R g + if g = f then 1 else 0) :
    Account L (s.setRef f (s.ref f + 1)) R' (flight.erase f) := by
  have hN := L.npage_lt
  have hcf := h.count f hf
  have hbase : L.base f ≤ 1 := by
    unfold Layout.base
    split <;> omega
  have hself : (s.ref f + 1).toNat = (s.ref f).toNat + 1 := by
    have h1 : (1 : UInt32).toNat = 1 := rfl
    rw [UInt32.toNat_add, h1]
    omega
  have hk : f ≠ s.kernPd := by
    rintro rfl
    rcases hsrc with hfl | hpos
    · exact (h.flight_page _ hfl).2.2.2 rfl
    · have h0 := (h.ref_zero h.kern_page.1 hf).mpr h.kern
      rw [h0] at hpos
      exact absurd hpos (by decide)
  have hmem : ∀ g, g ∈ flight.erase f ↔ g ≠ f ∧ g ∈ flight := fun g =>
    h.flight_nodup.mem_erase_iff
  have hrne : ∀ g, g ≠ f → (s.setRef f (s.ref f + 1)).ref g = s.ref g := fun g hg => by
    simp [Phys.setRef, hg]
  have hrf : (s.setRef f (s.ref f + 1)).ref f = s.ref f + 1 := by simp [Phys.setRef]
  refine ⟨fun g hg => ?_, fun g => ?_, h.free_nodup, fun g => ?_, h.left, h.flight_nodup.erase f,
    fun g hg => ?_, ?_, h.kern_page⟩
  · rw [hR g]
    by_cases he : g = f
    · subst he
      rw [hrf, hself, hcf, if_pos rfl]
      omega
    · rw [hrne g he, if_neg he]
      exact h.count g hg
  · have := h.bound g
    rw [hR g]
    split
    · next he =>
      subst he
      omega
    · omega
  · change g ∈ s.pageFreeList ↔ _ ∧ _ ∧ _ ∧ _ ∧ g ≠ s.kernPd
    rw [h.free_iff g, hmem]
    by_cases he : g = f
    · subst he
      rw [hrf, ref_eq_zero_iff, ref_eq_zero_iff, hself]
      constructor
      · rintro ⟨-, -, h0, hfl, -⟩
        rcases hsrc with hfl' | hpos
        · exact absurd hfl' hfl
        · omega
      · rintro ⟨-, -, h0, -⟩
        omega
    · rw [hrne g he]
      simp [he]
  · obtain ⟨hne, hg⟩ := (hmem g).mp hg
    rw [hrne g hne]
    exact h.flight_page g hg
  · change R' s.kernPd = 0
    rw [hR, h.kern, if_neg (Ne.symm hk)]

end

lemma Account.dec {E : Panic → Prop} (h : Account L s R flight) (hf : f < L.npage) (hpos : 0 < R f)
    (hR : ∀ g, R' g + (if g = f then 1 else 0) = R g) :
    wp (pmPageDecRef f) (fun _ s' => Account L s' R' flight ∧ SameMaps s s') E s := by
  have hcf := h.count f hf
  have hRf := hR f
  rw [if_pos rfl] at hRf
  have hself : (s.ref f - 1).toNat = (s.ref f).toNat - 1 := by
    have h1 : (1 : UInt32).toNat = 1 := rfl
    have := (s.ref f).toNat_lt
    rw [UInt32.toNat_sub, h1]
    omega
  have hne0 : s.ref f ≠ 0 := by
    rw [Ne, ref_eq_zero_iff]
    omega
  have hk := h.ne_kernPd hpos
  have hfl : f ∉ flight := fun hm => hne0 (h.flight_page f hm).2.2.1
  have hfree : f ∉ s.pageFreeList := fun hm => hne0 ((h.free_iff f).mp hm).2.2.1
  have hrne : ∀ g, g ≠ f → (s.setRef f (s.ref f - 1)).ref g = s.ref g := fun g hg => by
    simp [Phys.setRef, hg]
  have hrf : (s.setRef f (s.ref f - 1)).ref f = s.ref f - 1 := by simp [Phys.setRef]
  have hcount : ∀ g, g < L.npage → ((s.setRef f (s.ref f - 1)).ref g).toNat = L.base g + R' g := by
    intro g hg
    have hRg := hR g
    by_cases he : g = f
    · subst he
      rw [hrf, hself]
      omega
    · rw [if_neg he] at hRg
      rw [hrne g he, h.count g hg]
      omega
  have hbound : ∀ g, R' g ≤ 512 * L.npage + 1 := fun g => by
    have := h.bound g
    have := hR g
    omega
  have hkern : R' s.kernPd = 0 := by
    have := hR s.kernPd
    have := h.kern
    omega
  have hflight : ∀ g, g ∈ flight → L.pageused ≤ g ∧ g < L.npage ∧
      (s.setRef f (s.ref f - 1)).ref g = 0 ∧ g ≠ s.kernPd := fun g hg => by
    rw [hrne g fun he => hfl (he ▸ hg)]
    exact h.flight_page g hg
  simp only [pmPageDecRef, wp_bind, wp_get, check, if_pos hne0, wp_pure]
  by_cases h0 : (s.setRef f (s.ref f - 1)).ref f = 0
  · rw [if_pos h0, wp_set]
    have hu : L.pageused ≤ f := by
      by_contra hu
      have := hcount f hf
      rw [h0, Layout.base, if_pos (by omega)] at this
      change 0 = _ at this
      omega
    refine ⟨⟨hcount, hbound, nodup_cons.mpr ⟨hfree, h.free_nodup⟩, fun g => ?_, ?_,
      h.flight_nodup, hflight, hkern, h.kern_page⟩, ⟨rfl, rfl, rfl, rfl⟩⟩
    · change g ∈ f :: s.pageFreeList ↔ _ ∧ _ ∧ (s.setRef f (s.ref f - 1)).ref g = 0 ∧ _ ∧ g ≠ s.kernPd
      rw [mem_cons]
      by_cases he : g = f
      · subst he
        simp [hu, hf, h0, hfl, hk]
      · rw [hrne g he, h.free_iff g]
        simp [he]
    · change s.pageleft + 1 = (f :: s.pageFreeList).length
      rw [h.left, length_cons]
  · rw [if_neg h0, wp_set]
    refine ⟨⟨hcount, hbound, h.free_nodup, fun g => ?_, h.left, h.flight_nodup, hflight, hkern,
      h.kern_page⟩, ⟨rfl, rfl, rfl, rfl⟩⟩
    change g ∈ s.pageFreeList ↔ _ ∧ _ ∧ (s.setRef f (s.ref f - 1)).ref g = 0 ∧ _ ∧ g ≠ s.kernPd
    by_cases he : g = f
    · subst he
      simp [hfree, h0]
    · rw [hrne g he]
      exact h.free_iff g

end FarmOS.Mm

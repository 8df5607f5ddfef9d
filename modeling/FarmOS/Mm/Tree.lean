import FarmOS.Mm.Account

/-! The forest of page tables held in physical memory: which pages are tables, of which level and of
which address space, and how many live entries point to a page. -/

namespace FarmOS.Mm

open Lib Finset
open scoped Classical

noncomputable section

structure View where
  lev : ℕ → ℕ
  own : ℕ → ℕ
  dead : Set (ℕ × ℕ)
  roots : List ℕ
  held : List ℕ

variable {L : Layout} {s : Phys} {v : View} {fl : List ℕ} {t i c f : ℕ} {x : ℕ × ℕ}

def key (s : Phys) (v : View) (x : ℕ × ℕ) : Option ℕ :=
  if v.lev x.1 ≠ 0 ∧ x ∉ v.dead ∧ x ∉ s.ident then target (s.mem x.1 x.2) else none

def Layout.words (L : Layout) : Finset (ℕ × ℕ) := range L.npage ×ˢ range 512

def refs (L : Layout) (s : Phys) (v : View) (f : ℕ) : ℕ := occ L.words (key s v) (some f)

def uses (L : Layout) (s : Phys) (v : View) (f : ℕ) : ℕ := refs L s v f + v.held.count f

structure Link (s : Phys) (v : View) (t i c : ℕ) : Prop where
  level : v.lev t = 1 ∨ v.lev t = 2
  index : i < 512
  live : (t, i) ∉ v.dead
  tgt : target (s.mem t i) = some c

structure Shape (L : Layout) (s : Phys) (v : View) : Prop where
  root (t : ℕ) : v.lev t = 1 ↔ t = s.kernPd ∨ t ∈ v.roots
  lev_le (t : ℕ) : v.lev t ≤ 3
  lev_lt (t : ℕ) : v.lev t ≠ 0 → t < L.npage
  own_root (t : ℕ) : v.lev t = 1 → v.own t = t
  link (t i c : ℕ) : Link s v t i c → v.lev c = v.lev t + 1 ∧ v.own c = v.own t
  link_some (t i : ℕ) : v.lev t = 1 ∨ v.lev t = 2 → i < 512 → (t, i) ∉ v.dead →
    has (s.mem t i) pteV = true → ∃ c, target (s.mem t i) = some c
  inj (t i t' i' c : ℕ) : Link s v t i c → Link s v t' i' c → t = t' ∧ i = i'
  parent (c : ℕ) : v.lev c = 2 ∨ v.lev c = 3 → ∃ t i, Link s v t i c
  inval (t i : ℕ) : v.lev t ≠ 0 → i < 512 → has (s.mem t i) pteV = false → pteToPa (s.mem t i) = 0
  tgt_lt (t i f : ℕ) : i < 512 → key s v (t, i) = some f → f < L.npage
  ident (x : ℕ × ℕ) : x ∈ s.ident → v.lev x.1 = 3 ∧ v.own x.1 = s.kernPd
  dead (x : ℕ × ℕ) : x ∈ v.dead → v.lev x.1 ≠ 3
  roots_nodup : v.roots.Nodup
  roots_held (t : ℕ) : t ∈ v.roots → t ∈ v.held
  kern_root : s.kernPd ∉ v.roots
  held_nodup : v.held.Nodup
  held_lt (f : ℕ) : f ∈ v.held → f < L.npage

structure Inv (L : Layout) (s : Phys) (v : View) (fl : List ℕ) : Prop where
  shape : Shape L s v
  account : Account L s (uses L s v) fl

lemma mem_words : (t, i) ∈ L.words ↔ t < L.npage ∧ i < 512 := by
  rw [Layout.words, mem_product, mem_range, mem_range]

lemma refs_le : refs L s v f ≤ 512 * L.npage := by
  have h : refs L s v f ≤ L.words.card := occ_le_card
  rw [Layout.words, card_product, card_range, card_range] at h
  omega

lemma uses_le (h : Shape L s v) : uses L s v f ≤ 512 * L.npage + 1 := by
  have h1 := refs_le (L := L) (s := s) (v := v) (f := f)
  have h2 : v.held.count f ≤ 1 := List.nodup_iff_count_le_one.mp h.held_nodup f
  rw [uses]
  omega

lemma key_of_lev_zero (h : v.lev x.1 = 0) : key s v x = none := if_neg fun hx => hx.1 h

lemma Link.key_eq (h : Link s v t i c) (hs : Shape L s v) : key s v (t, i) = some c := by
  have hl := h.level
  refine (if_pos ⟨by simp only; omega, h.live, fun hi => ?_⟩).trans h.tgt
  have := (hs.ident _ hi).1
  simp only at this
  omega

lemma refs_pos (ht : t < L.npage) (hi : i < 512) (hk : key s v (t, i) = some f) : 0 < refs L s v f :=
  occ_pos.mpr ⟨(t, i), mem_words.mpr ⟨ht, hi⟩, hk⟩

lemma Shape.root_of_mem (h : Shape L s v) (hr : t ∈ v.roots) : v.lev t = 1 := (h.root t).mpr (.inr hr)

lemma Shape.uses_table (h : Shape L s v) (hl : v.lev c ≠ 0) (hk : c ≠ s.kernPd) : 0 < uses L s v c := by
  have hle := h.lev_le c
  rw [uses]
  by_cases h1 : v.lev c = 1
  · have hr := ((h.root c).mp h1).resolve_left hk
    have := List.count_pos_iff.mpr (h.roots_held c hr)
    omega
  · obtain ⟨t, i, hlink⟩ := h.parent c (by omega)
    have := refs_pos (L := L) (h.lev_lt t (by have := hlink.level; omega)) hlink.index
      (hlink.key_eq h)
    omega

lemma Inv.lev_of_free (h : Inv L s v fl) (hu : L.pageused ≤ f) (hf : f < L.npage) (hr : s.ref f = 0)
    (hk : f ≠ s.kernPd) : v.lev f = 0 := by
  by_contra hl
  have := h.shape.uses_table hl hk
  have := (h.account.ref_zero hu hf).mp hr
  omega

end

end FarmOS.Mm

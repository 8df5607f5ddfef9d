import FarmOS.Mm.Boot

/-! No page table entry ever counts a reference to page 0: `pteToPage` refuses it. -/

namespace FarmOS.Mm

open Lib

def Keeps {α : Type} (c : M α) : Prop := ∀ s, wp c (fun _ s' => s'.ref 0 = s.ref 0) (fun _ => True) s

section Rules

variable {α β : Type} {c d : M α} {f : α → M β}

lemma keeps_pure (a : α) : Keeps (pure a : M α) := fun _ => wp_pure.mpr rfl

lemma keeps_throw (p : Panic) : Keeps (throw p : M α) := fun _ => wp_throw.mpr trivial

lemma keeps_get : Keeps (get : M Phys) := fun _ => wp_get.mpr rfl

lemma keeps_modify {g : Phys → Phys} (h : ∀ s, (g s).ref 0 = s.ref 0) : Keeps (modify g : M Unit) := fun s =>
  wp_modify.mpr (h s)

lemma Keeps.bind (h : Keeps c) (hf : ∀ a, Keeps (f a)) : Keeps (c >>= f) := fun s => by
  refine wp_seq (h s) fun a s1 h1 => ?_
  exact wp_mono (hf a s1) fun _ _ h2 => h2.trans h1

lemma Keeps.ite {p : Prop} [Decidable p] (h : Keeps c) (h' : Keeps d) : Keeps (if p then c else d) := by
  split
  · exact h
  · exact h'

lemma keeps_check (b : Prop) [Decidable b] (p : Panic) : Keeps (check b p) :=
  (keeps_pure ()).ite (keeps_throw p)

lemma keeps_loop {body : ℕ → M ℤ} (h : ∀ k, Keeps (body k)) (k n : ℕ) : Keeps (loop body k n) := by
  induction n generalizing k with
  | zero => exact keeps_pure 0
  | succ n ih => exact (h k).bind fun r => (keeps_pure r).ite (ih (k + 1))

end Rules

lemma page_pos {p : Pte} (h : membase < pteToPa p) : paToPage (pteToPa p) ≠ 0 := by
  intro h0
  have hlow : (pteToPa p).toNat % 4096 = 0 := by
    rw [pteToPa, BitVec.toNat_shiftLeft, Nat.shiftLeft_eq]
    omega
  have hlt := BitVec.lt_def.mp h
  have hb := (pteToPa p).isLt
  rw [paToPage, BitVec.toNat_ushiftRight, Nat.shiftRight_eq_div_pow, BitVec.toNat_sub] at h0
  rw [show membase.toNat = 2147483648 from rfl] at h0 hlt
  omega

lemma ref_setRef_ne (s : Phys) {f : ℕ} (r : UInt32) (h : f ≠ 0) : (s.setRef f r).ref 0 = s.ref 0 :=
  Function.update_of_ne h.symm ..

lemma keeps_pmPageDecRef {f : ℕ} (h : f ≠ 0) : Keeps (pmPageDecRef f) := fun s => by
  simp only [pmPageDecRef, check, wp_bind, wp_get, wp_ite, wp_pure, wp_throw, wp_set]
  have := ref_setRef_ne s (s.ref f - 1) h
  exact ⟨fun _ => ⟨fun _ => this, fun _ => this⟩, fun _ => trivial⟩

lemma keeps_counted {c : ℕ → M Unit} (h : ∀ f, f ≠ 0 → Keeps (c f)) (p : Pte) :
    Keeps (do c (← pteToPage p)) := fun s => by
  simp only [pteToPage, check, wp_bind, wp_ite, wp_pure, wp_throw]
  exact ⟨fun hm => h _ (page_pos hm) s, fun _ => trivial⟩

lemma keeps_ppDecOnValid (p : Pte) : Keeps (ppDecOnValid p) :=
  (keeps_counted (fun _ => keeps_pmPageDecRef) p).ite (keeps_pure ())

lemma keeps_ppIncOnValid (p : Pte) : Keeps (ppIncOnValid p) :=
  (keeps_counted (fun _ h => keeps_modify fun s => ref_setRef_ne s _ h) p).ite (keeps_pure ())

lemma keeps_store (x : ℕ × ℕ) (w : Pte) : Keeps (store x w) := keeps_modify fun _ => rfl

lemma keeps_load (x : ℕ × ℕ) : Keeps (load x) := keeps_get.bind fun _ => keeps_pure _

lemma keeps_ptModify (x : ℕ × ℕ) (w : Pte) : Keeps (ptModify x w) :=
  (keeps_load x).bind fun old => (keeps_store x w).ite <|
    (keeps_ppDecOnValid old).bind fun _ => (keeps_store x w).bind fun _ => keeps_ppIncOnValid w

lemma keeps_ptClear (x : ℕ × ℕ) : Keeps (ptClear x) :=
  (keeps_load x).bind fun old => (keeps_ppDecOnValid old).bind fun _ => keeps_store x 0

lemma keeps_pmAlloc : Keeps pmAlloc := fun _ => wp_pmAlloc (fun _ => trivial) fun _ _ _ => rfl

lemma keeps_ptStep (va : BitVec 64) (create : Bool) (level t : ℕ) : Keeps (ptStep va create level t) :=
  (keeps_load _).bind fun _ => (keeps_pure _).ite <| Keeps.ite
    (keeps_pmAlloc.bind fun _ => (keeps_ptModify _ _).bind fun _ => keeps_pure _) (keeps_pure _)

lemma keeps_ptWalk (pd : ℕ) (va : BitVec 64) (create : Bool) : Keeps (ptWalk pd va create) := by
  refine (keeps_ptStep va create 1 pd).bind fun r => ?_
  cases r with
  | none => exact keeps_pure _
  | some t =>
    refine (keeps_ptStep va create 2 t).bind fun r => ?_
    cases r <;> exact keeps_pure _

lemma keeps_ptLookup (pd : ℕ) (va : BitVec 64) : Keeps (ptLookup pd va) := by
  refine (keeps_ptWalk pd va false).bind fun r => ?_
  cases r with
  | none => exact keeps_pure _
  | some x => exact keeps_load x

lemma keeps_ptSlot (pd : ℕ) (va : BitVec 64) : Keeps (ptSlot pd va) := by
  refine (keeps_ptWalk pd va false).bind fun r => ?_
  cases r with
  | some x => exact keeps_pure _
  | none =>
    refine (keeps_ptWalk pd va true).bind fun r => ?_
    cases r with
    | none => exact keeps_throw _
    | some x => exact keeps_pure _

lemma keeps_ptMap (pd : ℕ) (va pa : BitVec 64) (perm : Pte) : Keeps (ptMap pd va pa perm) := by
  have hput : ∀ (b : Prop) [Decidable b] x w, Keeps (do check b .assertion; ptModify x w; pure (0 : ℤ)) :=
    fun b _ x w => (keeps_check b _).bind fun _ => (keeps_ptModify x w).bind fun _ => keeps_pure _
  exact (keeps_ptSlot pd va).bind fun x => (keeps_load x).bind fun pte => keeps_get.bind fun s =>
    (hput _ x _).ite ((hput _ x _).ite (hput _ x _))

lemma keeps_ptUnmap (pd : ℕ) (va : BitVec 64) : Keeps (ptUnmap pd va) := by
  refine (keeps_ptWalk pd va false).bind fun r => ?_
  cases r with
  | none => exact keeps_throw _
  | some x => exact (keeps_load x).bind fun _ => (keeps_pure _).ite <|
      (keeps_ptClear x).bind fun _ => keeps_pure _

lemma keeps_pdWalk {f : BitVec 64 → M ℤ} {g : ℕ → M ℤ} (hf : ∀ va, Keeps (f va)) (hg : ∀ t, Keeps (g t)) (pd : ℕ) :
    Keeps (pdWalk pd f g) := by
  have hthen : ∀ r t, Keeps (unwrapThen r (g t)) := fun r t => (keeps_pure r).ite (hg t)
  have h3 : ∀ i j pt2 k, Keeps (walkLeaf f i j pt2 k) := fun i j pt2 k =>
    (keeps_load _).bind fun _ => (hf _).ite (keeps_pure _)
  have h2 : ∀ i pt1 j, Keeps (walkPt2 f g i pt1 j) := fun i pt1 j =>
    (keeps_load _).bind fun _ => ((keeps_loop (h3 _ _ _) _ _).bind fun r => hthen r _).ite (keeps_pure _)
  have h1 : ∀ i, Keeps (walkPt1 f g pd i) := fun i =>
    (keeps_load _).bind fun _ => ((keeps_loop (h2 _ _) _ _).bind fun r => hthen r _).ite (keeps_pure _)
  exact (keeps_loop h1 _ _).bind fun r => hthen r pd

lemma keeps_duppage (pd child : ℕ) (va : BitVec 64) : Keeps (duppage pd child va) :=
  (keeps_ptLookup child va).bind fun _ => Keeps.ite
    ((keeps_ptLookup pd va).bind fun _ => (keeps_ptMap _ _ _ _).ite <| Keeps.ite
      ((keeps_ptMap _ _ _ _).bind fun _ => (keeps_pure _).ite ((keeps_ptMap _ _ _ _).bind fun _ => keeps_pure _))
      ((keeps_ptMap _ _ _ _).ite (keeps_throw _)))
    (keeps_pure _)

lemma keeps_forkPages (pd child : ℕ) : Keeps (forkPages pd child) :=
  keeps_pdWalk (keeps_duppage pd child) (fun _ => keeps_pure _) pd

lemma keeps_pageFaultHandler (pd : ℕ) (violate : Pte) (va : BitVec 64) : Keeps (pageFaultHandler pd violate va) := by
  have hcow : ∀ pte, Keeps (cowHandler pd pte va) := fun pte =>
    keeps_pmAlloc.bind fun _ => Keeps.bind (keeps_modify fun _ => rfl) fun _ => keeps_ptMap _ _ _ _
  have hpassive : ∀ pte, Keeps (passiveHandler pd pte va) := fun pte =>
    (keeps_check _ _).bind fun _ => keeps_pmAlloc.bind fun _ => keeps_ptMap _ _ _ _
  exact (keeps_ptLookup pd va).bind fun pte => (hcow pte).ite ((hpassive pte).ite (keeps_pure _))

lemma keeps_vmInitMap (pa va len : BitVec 64) (perm : Pte) : Keeps (vmInitMap pa va len perm) := by
  refine keeps_loop (fun k => keeps_get.bind fun s => (keeps_ptWalk _ _ true).bind fun r => ?_) _ _
  cases r with
  | none => exact keeps_throw _
  | some x => exact (keeps_store x _).bind fun _ => Keeps.bind (keeps_modify fun _ => rfl) fun _ => keeps_pure _

lemma keeps_vmmInit (b : Board) : Keeps (vmmInit b) := by
  have htest : Keeps (memoryTest b) := keeps_loop (fun _ => keeps_get.bind fun _ =>
    (keeps_ptLookup _ _).bind fun _ => (keeps_check _ _).bind fun _ => keeps_pure _) _ _
  refine keeps_pmAlloc.bind fun _ => Keeps.bind (keeps_modify fun _ => rfl) fun _ => ?_
  unfold vmInitMaps
  iterate 8 refine (keeps_vmInitMap _ _ _ _).bind fun _ => ?_
  exact htest.bind fun _ => keeps_pure _

end FarmOS.Mm

import Mathlib.Algebra.BigOperators.Ring.Finset

/-! Sv39 page table entries as `include/mm/vmm.h` reads and builds them. -/

namespace FarmOS.Mm

open BitVec

abbrev Pte := BitVec 64

def pageSize : ℕ := 4096
def membase : BitVec 64 := 0x80000000

def maxva : BitVec 64 := 1#64 <<< 38
def trampolineVa : BitVec 64 := maxva - 4096
def signalTrampolineVa : BitVec 64 := trampolineVa - 4096
def trapframeVa : BitVec 64 := signalTrampolineVa - 4096

def pteV : Pte := 1#64 <<< 0
def pteR : Pte := 1#64 <<< 1
def pteW : Pte := 1#64 <<< 2
def pteX : Pte := 1#64 <<< 3
def pteU : Pte := 1#64 <<< 4
def pteG : Pte := 1#64 <<< 5
def pteA : Pte := 1#64 <<< 6
def pteD : Pte := 1#64 <<< 7
def pteCow : Pte := 1#64 <<< 8
def pteShared : Pte := 1#64 <<< 9
def pteMachine (ad : Bool) : Pte := if ad then pteA ||| pteD else 0

def has (p m : Pte) : Bool := p &&& m != 0

def paToPte (pa : BitVec 64) : Pte := (pa >>> 12) <<< 10
def pteToPa (p : Pte) : BitVec 64 := (p >>> 10) <<< 12
def ptePerm (p : Pte) : Pte := p &&& 0x3ff
def ptePassive (p : Pte) : Bool := !has p pteV && has p pteU

def pageToPa (f : ℕ) : BitVec 64 := membase + BitVec.ofNat 64 f <<< 12
def paToPage (pa : BitVec 64) : ℕ := ((pa - membase) >>> 12).toNat
def pageToPte (f : ℕ) : Pte := paToPte membase + BitVec.ofNat 64 f <<< 10

def ptx (va : BitVec 64) (level : ℕ) : ℕ := ((va >>> (12 + (3 - level) * 9)) &&& 0x1ff).toNat

def mkPte (ad : Bool) (pa : BitVec 64) (perm : Pte) : Pte :=
  paToPte pa ||| perm ||| pteV ||| pteMachine ad

def target (p : Pte) : Option ℕ :=
  if has p pteV ∧ membase ≤ pteToPa p then some (paToPage (pteToPa p)) else none

lemma has_one_shiftLeft (p : Pte) {k : ℕ} (hk : k < 64) : has p (1#64 <<< k) = p.getLsbD k := by
  rw [has]
  cases hb : p.getLsbD k with
  | true =>
    rw [bne_iff_ne]
    intro h
    have := congrArg (fun v => v.getLsbD k) h
    rw [getLsbD_and, hb] at this
    simp [hk] at this
  | false =>
    rw [bne_eq_false_iff_eq]
    apply eq_of_getLsbD_eq
    intro n hn
    rw [getLsbD_and]
    by_cases hnk : n = k
    · simp [hnk, hb]
    · have : n - k ≠ 0 ∨ n < k := by omega
      rcases this with h | h <;> simp [h]

lemma has_V (p : Pte) : has p pteV = p.getLsbD 0 := has_one_shiftLeft p (by decide)

lemma has_cow (p : Pte) : has p pteCow = p.getLsbD 8 := has_one_shiftLeft p (by decide)

lemma pteToPa_or (p q : Pte) : pteToPa (p ||| q) = pteToPa p ||| pteToPa q := by
  rw [pteToPa, ushiftRight_or_distrib, shiftLeft_or_distrib]
  rfl

lemma pteToPa_perm {p : Pte} (h : p.toNat < 1024) : pteToPa p = 0 := by
  have hz : p >>> 10 = 0#64 := by
    apply eq_of_toNat_eq
    rw [toNat_ushiftRight, Nat.shiftRight_eq_div_pow, Nat.div_eq_of_lt (by omega)]
    rfl
  rw [pteToPa, hz, zero_shiftLeft]
  rfl

lemma pteToPa_paToPte (pa : BitVec 64) : pteToPa (paToPte pa) = (pa >>> 12) <<< 12 := by
  apply eq_of_toNat_eq
  have := pa.isLt
  simp only [pteToPa, paToPte, toNat_shiftLeft, toNat_ushiftRight,
    Nat.shiftRight_eq_div_pow, Nat.shiftLeft_eq]
  omega

lemma toNat_pteMachine_lt (ad : Bool) : (pteMachine ad).toNat < 1024 := by
  cases ad <;> decide

lemma pteToPa_mkPte (ad : Bool) (pa : BitVec 64) {perm : Pte} (h : perm.toNat < 1024) :
    pteToPa (mkPte ad pa perm) = (pa >>> 12) <<< 12 := by
  rw [mkPte, pteToPa_or, pteToPa_or, pteToPa_or, pteToPa_perm h, pteToPa_paToPte,
    show pteToPa pteV = 0 by decide, pteToPa_perm (toNat_pteMachine_lt ad)]
  simp

lemma getLsbD_paToPte_of_lt (pa : BitVec 64) {k : ℕ} (h : k < 10) : (paToPte pa).getLsbD k = false := by
  simp [paToPte, h]

lemma getLsbD_mkPte (ad : Bool) (pa : BitVec 64) (perm : Pte) {k : ℕ} (h : k < 10) : (mkPte ad pa perm).getLsbD k =
      (perm.getLsbD k || decide (k = 0 ∨ ad = true ∧ (k = 6 ∨ k = 7))) := by
  rw [mkPte, getLsbD_or, getLsbD_or, getLsbD_or, getLsbD_paToPte_of_lt pa h,
    Bool.false_or, Bool.or_assoc]
  congr 1
  have : ∀ ad, ∀ k < 10, (pteV.getLsbD k || (pteMachine ad).getLsbD k) =
      decide (k = 0 ∨ ad = true ∧ (k = 6 ∨ k = 7)) := by
    decide
  exact this ad k h

lemma has_V_mkPte (ad : Bool) (pa : BitVec 64) (perm : Pte) : has (mkPte ad pa perm) pteV = true := by
  rw [has_V, getLsbD_mkPte ad pa perm (by decide)]
  simp

lemma toNat_membase : membase.toNat = 2147483648 := rfl

lemma membase_le_pageBase (pa : BitVec 64) : membase ≤ (pa >>> 12) <<< 12 ↔ membase ≤ pa := by
  have := pa.isLt
  simp only [le_def, toNat_shiftLeft, toNat_ushiftRight,
    Nat.shiftRight_eq_div_pow, Nat.shiftLeft_eq, toNat_membase]
  omega

lemma paToPage_toNat {pa : BitVec 64} (h : membase ≤ pa) : paToPage pa = (pa.toNat - 2147483648) / 4096 := by
  have := pa.isLt
  rw [le_def, toNat_membase] at h
  rw [paToPage, toNat_ushiftRight, toNat_sub, Nat.shiftRight_eq_div_pow, toNat_membase]
  omega

lemma paToPage_pageBase {pa : BitVec 64} (h : membase ≤ pa) : paToPage ((pa >>> 12) <<< 12) = paToPage pa := by
  have := pa.isLt
  rw [paToPage_toNat h, paToPage_toNat ((membase_le_pageBase pa).mpr h)]
  rw [le_def, toNat_membase] at h
  simp only [toNat_shiftLeft, toNat_ushiftRight, Nat.shiftRight_eq_div_pow,
    Nat.shiftLeft_eq]
  omega

lemma toNat_pteToPa_mod (p : Pte) : (pteToPa p).toNat % 4096 = 0 := by
  have := p.isLt
  simp only [pteToPa, toNat_shiftLeft, toNat_ushiftRight, Nat.shiftRight_eq_div_pow,
    Nat.shiftLeft_eq]
  omega

lemma target_eq_some_iff (p : Pte) (f : ℕ) :
    target p = some f ↔ (has p pteV = true ∧ membase ≤ pteToPa p) ∧ paToPage (pteToPa p) = f := by
  unfold target
  split <;> simp [*]

lemma toNat_pteToPa_of_target {p : Pte} {f : ℕ} (h : target p = some f) :
    (pteToPa p).toNat = 2147483648 + f * 4096 := by
  obtain ⟨⟨-, hm⟩, rfl⟩ := (target_eq_some_iff p f).mp h
  have h0 := toNat_pteToPa_mod p
  rw [paToPage_toNat hm]
  rw [le_def, toNat_membase] at hm
  omega

lemma target_mkPte (ad : Bool) (pa : BitVec 64) {perm : Pte} (h : perm.toNat < 1024) :
    target (mkPte ad pa perm) = if membase ≤ pa then some (paToPage pa) else none := by
  rw [target, has_V_mkPte, pteToPa_mkPte ad pa h]
  simp only [true_and, membase_le_pageBase]
  split
  · next hm => rw [paToPage_pageBase hm]
  · rfl

lemma target_of_not_V {p : Pte} (h : has p pteV = false) : target p = none := by
  rw [target, if_neg (by simp [h])]

@[simp] lemma target_zero : target 0#64 = none := by decide

lemma target_perm {p : Pte} (h : p.toNat < 1024) : target p = none := by
  rw [target, pteToPa_perm h, if_neg]
  rintro ⟨-, hm⟩
  exact absurd hm (by decide)

lemma has_V_link (f : ℕ) : has (pageToPte f ||| pteV) pteV = true := by
  rw [has_V, getLsbD_or, show pteV.getLsbD 0 = true by decide, Bool.or_true]

section Pages

variable {f : ℕ} (hf : f < 2 ^ 23)
include hf

lemma toNat_pageToPa : (pageToPa f).toNat = 2147483648 + f * 4096 := by
  rw [pageToPa, toNat_add, toNat_shiftLeft, toNat_ofNat, toNat_membase,
    Nat.shiftLeft_eq]
  omega

lemma membase_le_pageToPa : membase ≤ pageToPa f := by
  rw [le_def, toNat_pageToPa hf, toNat_membase]
  omega

lemma paToPage_pageToPa : paToPage (pageToPa f) = f := by
  rw [paToPage_toNat (membase_le_pageToPa hf), toNat_pageToPa hf]
  omega

lemma toNat_pageToPte : (pageToPte f).toNat = (524288 + f) * 1024 := by
  have h0 : (paToPte membase).toNat = 536870912 := rfl
  rw [pageToPte, toNat_add, toNat_shiftLeft, toNat_ofNat, h0, Nat.shiftLeft_eq]
  omega

lemma pteToPa_pageToPte : pteToPa (pageToPte f ||| pteV) = pageToPa f := by
  rw [pteToPa_or, show pteToPa pteV = 0#64 by decide, or_zero]
  apply eq_of_toNat_eq
  rw [toNat_pageToPa hf, pteToPa, toNat_shiftLeft, toNat_ushiftRight,
    toNat_pageToPte hf, Nat.shiftRight_eq_div_pow, Nat.shiftLeft_eq]
  omega

lemma target_link : target (pageToPte f ||| pteV) = some f := by
  rw [target, has_V_link f, pteToPa_pageToPte hf, if_pos ⟨rfl, membase_le_pageToPa hf⟩,
    paToPage_pageToPa hf]

lemma target_mkPte_pageToPa (ad : Bool) {perm : Pte} (h : perm.toNat < 1024) :
    target (mkPte ad (pageToPa f) perm) = some f := by
  rw [target_mkPte _ _ h, if_pos (membase_le_pageToPa hf), paToPage_pageToPa hf]

end Pages

end FarmOS.Mm

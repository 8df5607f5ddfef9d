import FarmOS.Mm.Fork
import FarmOS.Mm.Transfer

/-! When no process can see the writes of another one: which frames may be mapped twice, and how the
changes made by fork and by page faults keep this so. -/

namespace FarmOS.Mm

variable {L : Layout} {roots : List ℕ} {tr : ℕ → BitVec 64 → Pte} {ad : Bool} {pd child r f : ℕ}
  {va va' : BitVec 64} {w p p' perm : Pte}

structure Sober (L : Layout) (w : Pte) : Prop where
  cow : ¬ (has w pteCow = true ∧ has w pteW = true)
  lazy : has w pteCow = true → has w pteV = true
  ram : has w pteV = true → ∃ f, target w = some f
  image (f : ℕ) : target w = some f → f < L.pageused → has w pteW = false
  heap (f : ℕ) : has w pteCow = true → target w = some f → L.pageused ≤ f
  small : has w pteV = false → w.toNat < 1024

def Shared (w : Pte) : Prop := has w pteShared = true

structure Isolated (L : Layout) (roots : List ℕ) (tr : ℕ → BitVec 64 → Pte) : Prop where
  page (r : ℕ) (va va' : BitVec 64) : SamePage va va' → tr r va = tr r va'
  sober (r : ℕ) (va : BitVec 64) : r ∈ roots → Sober L (tr r va)
  alone (r : ℕ) (va : BitVec 64) (r' : ℕ) (va' : BitVec 64) (f : ℕ) : r ∈ roots → r' ∈ roots →
    target (tr r va) = some f → target (tr r' va') = some f → has (tr r va) pteW = true →
    (r = r' ∧ SamePage va va') ∨ (Shared (tr r va) ∧ Shared (tr r' va'))

lemma samePage_symm (h : SamePage va va') : SamePage va' va := ⟨h.1.symm, h.2.1.symm, h.2.2.symm⟩

lemma samePage_trans {va'' : BitVec 64} (h : SamePage va va') (h' : SamePage va' va'') : SamePage va va'' :=
  ⟨h.1.trans h'.1, h.2.1.trans h'.2.1, h.2.2.trans h'.2.2⟩

lemma sober_zero (L : Layout) : Sober L 0 :=
  ⟨by decide, by decide, fun h => absurd h (by decide), fun _ h => (by cases h.symm.trans target_zero),
    fun _ _ h => (by cases h.symm.trans target_zero), fun _ => by decide⟩

structure Fresh (L : Layout) (roots : List ℕ) (tr : ℕ → BitVec 64 → Pte) (pd : ℕ) (va : BitVec 64)
    (w : Pte) : Prop where
  sober : Sober L w
  alone (r : ℕ) (va' : BitVec 64) (f : ℕ) : r ∈ roots → ¬ (r = pd ∧ SamePage va' va) →
    target w = some f → target (tr r va') = some f → has w pteW = false ∧ has (tr r va') pteW = false

lemma fresh_of_invalid (L : Layout) (roots : List ℕ) (tr : ℕ → BitVec 64 → Pte) (pd : ℕ) (va : BitVec 64)
    (hV : has w pteV = false) (hc : has w pteCow = false) (hs : w.toNat < 1024) : Fresh L roots tr pd va w := by
  have ht : ∀ f, target w ≠ some f := fun f hf => by
    rw [target_of_not_V hV] at hf
    cases hf
  refine ⟨⟨?_, ?_, ?_, fun f hf => absurd hf (ht f), fun f _ hf => absurd hf (ht f), fun _ => hs⟩,
    fun _ _ f _ _ hf => absurd hf (ht f)⟩
  · rw [hc]
    simp
  · rw [hc]
    nofun
  · rw [hV]
    nofun

lemma Isolated.put (h : Isolated L roots tr) (hw : Fresh L roots tr pd va w) :
    Isolated L roots (put tr pd va w) where
  page r va1 va2 hp := by
    unfold Mm.put
    by_cases h1 : r = pd ∧ SamePage va1 va
    · rw [if_pos h1, if_pos ⟨h1.1, samePage_trans (samePage_symm hp) h1.2⟩]
    · rw [if_neg h1, if_neg fun h2 => h1 ⟨h2.1, samePage_trans hp h2.2⟩]
      exact h.page r va1 va2 hp
  sober r va' hr := by
    unfold Mm.put
    split
    · exact hw.sober
    · exact h.sober r va' hr
  alone r1 va1 r2 va2 f h1 h2 ht1 ht2 hW := by
    unfold Mm.put at ht1 ht2 hW ⊢
    by_cases e1 : r1 = pd ∧ SamePage va1 va <;> by_cases e2 : r2 = pd ∧ SamePage va2 va
    · exact .inl ⟨e1.1.trans e2.1.symm, samePage_trans e1.2 (samePage_symm e2.2)⟩
    · rw [if_pos e1] at ht1 hW
      rw [if_neg e2] at ht2
      rw [(hw.alone r2 va2 f h2 e2 ht1 ht2).1] at hW
      cases hW
    · rw [if_neg e1] at ht1 hW
      rw [if_pos e2] at ht2
      rw [(hw.alone r1 va1 f h1 e1 ht2 ht1).2] at hW
      cases hW
    · rw [if_neg e1] at ht1 hW ⊢
      rw [if_neg e2] at ht2 ⊢
      exact h.alone r1 va1 r2 va2 f h1 h2 ht1 ht2 hW

lemma Isolated.cons (h : Isolated L roots tr) {tr' : ℕ → BitVec 64 → Pte} (hc : child ∉ roots)
    (hz : ∀ va, tr' child va = 0) (hs : ∀ r ∈ roots, tr' r = tr r)
    (hp : ∀ r va va', SamePage va va' → tr' r va = tr' r va') : Isolated L (child :: roots) tr' where
  page := hp
  sober r va hr := by
    rcases List.mem_cons.mp hr with rfl | hr
    · rw [hz va]
      exact sober_zero L
    · rw [hs r hr]
      exact h.sober r va hr
  alone r1 va1 r2 va2 f h1 h2 ht1 ht2 hW := by
    have hold : ∀ {r va}, r ∈ child :: roots → target (tr' r va) = some f → r ∈ roots := by
      intro r va hr ht
      rcases List.mem_cons.mp hr with rfl | hr
      · rw [hz va] at ht
        cases ht.symm.trans target_zero
      · exact hr
    have h1 := hold h1 ht1
    have h2 := hold h2 ht2
    rw [hs r1 h1] at ht1 hW ⊢
    rw [hs r2 h2] at ht2 ⊢
    exact h.alone r1 va1 r2 va2 f h1 h2 ht1 ht2 hW

structure Copies (p p' : Pte) : Prop where
  target : target p' = target p
  valid : has p' pteV = has p pteV
  user : has p' pteU = has p pteU
  shared : has p' pteShared = has p pteShared
  write : has p' pteW = true → has p pteW = true ∧ (has p pteShared = true ∨ Mm.target p = none)
  cow : ¬ (has p' pteCow = true ∧ has p' pteW = true)
  lazy : has p' pteCow = true → has p' pteV = true
  heap : has p' pteCow = true → has p pteCow = true ∨ has p pteW = true
  small : has p' pteV = false → p'.toNat < 1024

lemma Copies.sober (h : Copies p p') (hp : Sober L p) : Sober L p' where
  __ := h
  ram hV := by
    rw [h.target]
    exact hp.ram (h.valid ▸ hV)
  image f ht hf := by
    by_contra hW
    have := hp.image f (h.target ▸ ht) hf
    rw [(h.write (by simpa using hW)).1] at this
    cases this
  heap f hc ht := by
    have ht' : Mm.target p = some f := h.target ▸ ht
    rcases h.heap hc with hc | hW
    · exact hp.heap f hc ht'
    · by_contra hf
      rw [hp.image f ht' (by omega)] at hW
      cases hW

section Bits

lemma has_mkPte (ad : Bool) (pa : BitVec 64) (perm : Pte) {k : ℕ} (hk : k < 10)
    (hne : k ≠ 0 ∧ k ≠ 6 ∧ k ≠ 7) : has (mkPte ad pa perm) (1#64 <<< k) = has perm (1#64 <<< k) := by
  rw [has_one_shiftLeft _ (by omega), has_one_shiftLeft _ (by omega), getLsbD_mkPte ad pa perm hk,
    decide_eq_false (by omega), Bool.or_false]

lemma has_cowPerm (perm : Pte) {k : ℕ} (hk : k < 10) : has (cowPerm perm) (1#64 <<< k) =
    (decide (k = 8) || (has perm (1#64 <<< k) && !decide (k = 2))) := by
  have hc : ∀ k < 10, pteCow.getLsbD k = decide (k = 8) := by decide
  have hw : ∀ k < 10, (~~~pteW).getLsbD k = !decide (k = 2) := by decide
  rw [has_one_shiftLeft _ (by omega), has_one_shiftLeft _ (by omega), cowPerm, BitVec.getLsbD_or,
    BitVec.getLsbD_and, hc k hk, hw k hk, Bool.or_comm]

lemma Sober.entry (h : Sober L p) (hV : has p pteV = true) (ad : Bool) (perm : Pte) :
    entry ad (pteToPa p) perm = mkPte ad (pteToPa p) perm := by
  obtain ⟨f, hf⟩ := h.ram hV
  refine if_neg fun h0 => ?_
  have := ((target_eq_some_iff p f).mp hf).1.2
  rw [h0] at this
  exact absurd this (by decide)

lemma Sober.target_entry (h : Sober L p) (hV : has p pteV = true) (ad : Bool) (hp : perm.toNat < 1024) :
    target (Mm.entry ad (pteToPa p) perm) = target p := by
  obtain ⟨f, hf⟩ := h.ram hV
  obtain ⟨⟨-, hm⟩, he⟩ := (target_eq_some_iff p f).mp hf
  rw [h.entry hV, target_mkPte _ _ hp, if_pos hm, hf, he]

end Bits

lemma passive_iff (hU : has p pteU = true) : ptePassive (ptePerm p) = true ↔ has p pteV = false := by
  rw [ptePassive, show has (ptePerm p) pteV = has p pteV from has_ptePerm p (k := 0) (by decide),
    show has (ptePerm p) pteU = has p pteU from has_ptePerm p (k := 4) (by decide), hU]
  simp

lemma valid_of_not_passive (hU : has p pteU = true) (h : ¬ ptePassive (ptePerm p) = true) : has p pteV = true := by
  rw [passive_iff hU] at h
  simpa using h

lemma shared_of_not_private (hU : has p pteU = true) (h : ¬ Private (ptePerm p)) (hW : has p pteW = true) :
    has p pteShared = true := by
  by_contra hS
  refine h ⟨?_, ?_, ?_⟩
  · exact (has_ptePerm p (k := 2) (by decide)).trans hW
  · exact (has_ptePerm p (k := 4) (by decide)).trans hU
  · rw [show has (ptePerm p) pteShared = has p pteShared from has_ptePerm p (k := 9) (by decide)]
    exact hS

section Dup

variable (hp : Sober L p)
include hp

lemma copies_cow (hV : has p pteV = true) (hW0 : has p pteW = true) (ad : Bool) :
    Copies p (entry ad (pteToPa p) (cowPerm (ptePerm p))) := by
  have ht := hp.target_entry hV ad (toNat_cowPerm_lt (toNat_ptePerm_lt p))
  have hbit : ∀ k < 10, k ≠ 0 ∧ k ≠ 6 ∧ k ≠ 7 →
      has (entry ad (pteToPa p) (cowPerm (ptePerm p))) (1#64 <<< k) =
        (decide (k = 8) || (has p (1#64 <<< k) && !decide (k = 2))) := fun k hk hne => by
    rw [hp.entry hV, has_mkPte ad _ _ hk hne, has_cowPerm _ hk, has_ptePerm p hk]
  have hW : has (entry ad (pteToPa p) (cowPerm (ptePerm p))) pteW = false :=
    (hbit 2 (by decide) (by decide)).trans (by simp)
  have hV' : has (entry ad (pteToPa p) (cowPerm (ptePerm p))) pteV = true := by
    rw [hp.entry hV]
    exact has_V_mkPte ..
  refine ⟨ht, hV'.trans hV.symm, ?_, ?_, ?_, ?_, fun _ => hV', fun _ => .inr hW0,
    fun hn => absurd (hV'.symm.trans hn) nofun⟩
  · exact (hbit 4 (by decide) (by decide)).trans (by simp [pteU])
  · exact (hbit 9 (by decide) (by decide)).trans (by simp [pteShared])
  · rw [hW]
    nofun
  · rw [hW]
    simp

lemma copies_same (hV : has p pteV = true) (hS : has p pteW = true → has p pteShared = true) (ad : Bool) :
    Copies p (entry ad (pteToPa p) (ptePerm p)) := by
  have hbit : ∀ k < 10, k ≠ 0 ∧ k ≠ 6 ∧ k ≠ 7 →
      has (entry ad (pteToPa p) (ptePerm p)) (1#64 <<< k) = has p (1#64 <<< k) := fun k hk hne => by
    rw [hp.entry hV, has_mkPte ad _ _ hk hne, has_ptePerm p hk]
  have hW : has (entry ad (pteToPa p) (ptePerm p)) pteW = has p pteW := hbit 2 (by decide) (by decide)
  have hC : has (entry ad (pteToPa p) (ptePerm p)) pteCow = has p pteCow := hbit 8 (by decide) (by decide)
  have hV' : has (entry ad (pteToPa p) (ptePerm p)) pteV = true := by
    rw [hp.entry hV]
    exact has_V_mkPte ..
  refine ⟨hp.target_entry hV ad (toNat_ptePerm_lt p), hV'.trans hV.symm, hbit 4 (by decide) (by decide),
    hbit 9 (by decide) (by decide), ?_, ?_, fun _ => hV', fun hc => .inl (hC ▸ hc),
    fun hn => absurd (hV'.symm.trans hn) nofun⟩
  · rw [hW]
    exact fun hw => ⟨hw, .inl (hS hw)⟩
  · rw [hC, hW]
    exact hp.cow

lemma copies_perm (hV : has p pteV = false) : Copies p (ptePerm p) := by
  have hC : has (ptePerm p) pteCow = has p pteCow := has_ptePerm p (k := 8) (by decide)
  have hW : has (ptePerm p) pteW = has p pteW := has_ptePerm p (k := 2) (by decide)
  have hV' : has (ptePerm p) pteV = has p pteV := has_ptePerm p (k := 0) (by decide)
  have ht := target_of_not_V hV
  refine ⟨(target_perm (toNat_ptePerm_lt p)).trans ht.symm, hV', has_ptePerm p (k := 4) (by decide),
    has_ptePerm p (k := 9) (by decide), ?_, ?_, ?_, fun hc => .inl (hC ▸ hc), fun _ => toNat_ptePerm_lt p⟩
  · rw [hW]
    exact fun hw => ⟨hw, .inr ht⟩
  · rw [hC, hW]
    exact hp.cow
  · rw [hC, hV']
    exact hp.lazy

lemma copies_self (hS : has p pteW = true → has p pteShared = true ∨ target p = none) : Copies p p :=
  ⟨rfl, rfl, rfl, rfl, fun hw => ⟨hw, hS hw⟩, hp.cow, hp.lazy, .inl, hp.small⟩

variable (hU : has p pteU = true)
include hU

lemma copies_childEntry (ad : Bool) : Copies p (childEntry ad p) := by
  unfold childEntry
  by_cases h : ptePassive (ptePerm p) = true
  · rw [if_pos h]
    exact copies_perm hp ((passive_iff hU).mp h)
  · have hV := valid_of_not_passive hU h
    rw [if_neg h]
    split
    · next hpriv => exact copies_cow hp hV ((has_ptePerm p (k := 2) (by decide)).symm.trans hpriv.1) ad
    · next hn => exact copies_same hp hV (shared_of_not_private hU hn) ad

lemma copies_parentEntry (ad : Bool) : Copies p (parentEntry ad p) := by
  unfold parentEntry
  by_cases h : ptePassive (ptePerm p) = true
  · rw [if_pos h]
    exact copies_self hp fun _ => .inr (target_of_not_V ((passive_iff hU).mp h))
  · have hV := valid_of_not_passive hU h
    rw [if_neg h]
    split
    · next hpriv => exact copies_cow hp hV ((has_ptePerm p (k := 2) (by decide)).symm.trans hpriv.1) ad
    · next hn => exact copies_self hp fun hW => .inl (shared_of_not_private hU hn hW)

end Dup

def forked (tr : ℕ → BitVec 64 → Pte) (ad : Bool) (pd child r : ℕ) (va : BitVec 64) : Pte :=
  if tr child va = 0 ∧ tr pd va ≠ 0 then
    if r = child then childEntry ad (tr pd va)
    else if r = pd then parentEntry ad (tr pd va)
    else tr r va
  else tr r va

section Forked

variable (h : Isolated L roots tr) (hpd : pd ∈ roots)
  (hU : ∀ va, tr child va = 0 → tr pd va ≠ 0 → has (tr pd va) pteU = true)
include h hpd hU

lemma Isolated.forked_cases (ad : Bool) (r : ℕ) (va : BitVec 64) :
    (tr child va = 0 ∧ (r = child ∨ r = pd) ∧ Copies (tr pd va) (forked tr ad pd child r va)) ∨
      forked tr ad pd child r va = tr r va ∧ ((r = child ∨ r = pd) → tr child va ≠ 0 ∨ tr pd va = 0) := by
  unfold forked
  by_cases ha : tr child va = 0 ∧ tr pd va ≠ 0
  · rw [if_pos ha]
    have hp := h.sober pd va hpd
    have hu := hU va ha.1 ha.2
    by_cases hc : r = child
    · rw [if_pos hc]
      exact .inl ⟨ha.1, .inl hc, copies_childEntry hp hu ad⟩
    · rw [if_neg hc]
      by_cases hr : r = pd
      · rw [if_pos hr]
        exact .inl ⟨ha.1, .inr hr, copies_parentEntry hp hu ad⟩
      · rw [if_neg hr]
        exact .inr ⟨rfl, fun he => absurd he (not_or.mpr ⟨hc, hr⟩)⟩
  · rw [if_neg ha]
    refine .inr ⟨rfl, fun _ => ?_⟩
    by_cases h0 : tr child va = 0
    · exact .inr (by_contra fun hn => ha ⟨h0, hn⟩)
    · exact .inl h0

lemma Isolated.forked (ad : Bool) : Isolated L roots (forked tr ad pd child) where
  page r va va' hp := by
    unfold Mm.forked
    rw [h.page child va va' hp, h.page pd va va' hp, h.page r va va' hp]
  sober r va hr := by
    rcases h.forked_cases hpd hU ad r va with ⟨-, -, hc⟩ | ⟨he, -⟩
    · exact hc.sober (h.sober pd va hpd)
    · rw [he]
      exact h.sober r va hr
  alone r1 va1 r2 va2 f h1 h2 ht1 ht2 hW := by
    have horig : ∀ r va, r ∈ roots → Mm.target (Mm.forked tr ad pd child r va) = some f →
        ∃ o ∈ roots, Mm.target (tr o va) = some f ∧
          (has (Mm.forked tr ad pd child r va) pteW = true → has (tr o va) pteW = true) ∧
          has (Mm.forked tr ad pd child r va) pteShared = has (tr o va) pteShared ∧
          (o = r ∧ ((r = child ∨ r = pd) → tr child va ≠ 0 ∨ tr pd va = 0) ∨
            o = pd ∧ tr child va = 0 ∧ (r = child ∨ r = pd) ∧
              (has (Mm.forked tr ad pd child r va) pteW = true → has (tr o va) pteShared = true)) := by
      intro r va hr ht
      rcases h.forked_cases hpd hU ad r va with ⟨h0, hrc, hc⟩ | ⟨he, hne⟩
      · have htp : Mm.target (tr pd va) = some f := hc.target ▸ ht
        refine ⟨pd, hpd, htp, fun hw => (hc.write hw).1, hc.shared, .inr ⟨rfl, h0, hrc, fun hw => ?_⟩⟩
        refine (hc.write hw).2.resolve_right fun hn => ?_
        rw [hn] at htp
        cases htp
      · exact ⟨r, hr, he ▸ ht, fun hw => he ▸ hw, by rw [he], .inl ⟨rfl, hne⟩⟩
    obtain ⟨o1, ho1, hto1, hw1, hs1, hk1⟩ := horig r1 va1 h1 ht1
    obtain ⟨o2, ho2, hto2, hw2, hs2, hk2⟩ := horig r2 va2 h2 ht2
    rcases h.alone o1 va1 o2 va2 f ho1 ho2 hto1 hto2 (hw1 hW) with ⟨he, hp⟩ | ⟨hsh1, hsh2⟩
    · have hch' : tr child va1 = tr child va2 := h.page child va1 va2 hp
      have hne : ∀ {o va}, Mm.target (tr o va) = some f → tr o va ≠ 0 := by
        intro o va ht h0
        rw [h0] at ht
        cases ht.symm.trans target_zero
      rcases hk1 with ⟨e1, hx1⟩ | ⟨e1, hz1, hr1, hsh1⟩ <;> rcases hk2 with ⟨e2, hx2⟩ | ⟨e2, hz2, hr2, hsh2⟩
      · exact .inl ⟨e1.symm.trans (he.trans e2), hp⟩
      · have hr : r1 = pd := e1.symm.trans (he.trans e2)
        rcases hx1 (.inr hr) with h0 | h0
        · exact absurd (hch'.trans hz2) h0
        · exact absurd h0 (hr ▸ e1 ▸ hne hto1)
      · have hr : r2 = pd := e2.symm.trans (he.symm.trans e1)
        rcases hx2 (.inr hr) with h0 | h0
        · exact absurd (hch'.symm.trans hz1) h0
        · exact absurd h0 (hr ▸ e2 ▸ hne hto2)
      · have hsame : tr o2 va2 = tr o1 va1 := by rw [he, h.page o2 va1 va2 hp]
        exact .inr ⟨hs1.trans (hsh1 hW), hs2.trans (hsame ▸ hsh1 hW)⟩
    · exact .inr ⟨hs1.trans hsh1, hs2.trans hsh2⟩

end Forked

end FarmOS.Mm

import FarmOS.Mm.ForkWalk
import FarmOS.Mm.Panics

/-! The bytes behind the addresses of a process, and what page faults leave of them. -/

namespace FarmOS.Mm

open Lib BitVec Option

variable {k p : ℕ} {violate : Pte}

section Bytes

variable {s : Phys} {f f' off off' : ℕ} {b : Byte}

lemma getLsbD_setByte (w : BitVec 64) {n : ℕ} (b : Byte) (hk : k < 8) (hn : n < 64) : (setByte w k b).getLsbD n =
      if 8 * k ≤ n ∧ n < 8 * k + 8 then b.getLsbD (n - 8 * k) else w.getLsbD n := by
  rw [setByte, getLsbD_or, getLsbD_and, getLsbD_not, getLsbD_shiftLeft,
    getLsbD_shiftLeft, getLsbD_setWidth]
  have hff : ∀ m < 64, (0xff#64).getLsbD m = decide (m < 8) := by decide
  rw [hff (n - 8 * k) (by omega)]
  by_cases h : 8 * k ≤ n ∧ n < 8 * k + 8
  · have h1 : ¬ n < 8 * k := by omega
    have h2 : n - 8 * k < 8 := by omega
    have h3 : n - 8 * k < 64 := by omega
    simp [h, hn, h1, h2, h3]
  · rw [if_neg h]
    by_cases h1 : n < 8 * k
    · simp [hn, h1]
    · have h2 : ¬ n - 8 * k < 8 := by omega
      have hz : b.getLsbD (n - 8 * k) = false := getLsbD_of_ge b _ (by omega)
      simp [hn, h1, h2, hz]

lemma getLsbD_readByte (s : Phys) (f off : ℕ) (hk : k < 8) :
    (readByte s f off).getLsbD k = (s.mem f (off / 8)).getLsbD (8 * (off % 8) + k) := by
  rw [readByte, getLsbD_setWidth, getLsbD_ushiftRight]
  simp [hk]

lemma readByte_writeByte_self (s : Phys) (f off : ℕ) (b : Byte) : readByte (s.writeByte f off b) f off = b := by
  apply eq_of_getLsbD_eq
  intro k hk
  have hm : off % 8 < 8 := Nat.mod_lt _ (by decide)
  rw [getLsbD_readByte _ _ _ hk, Phys.writeByte, mem_setWord_self, getLsbD_setByte _ _ hm (by omega),
    if_pos (by omega), Nat.add_sub_cancel_left]

lemma readByte_writeByte_ne (h : f' ≠ f ∨ off' ≠ off) :
    readByte (s.writeByte f off b) f' off' = readByte s f' off' := by
  apply eq_of_getLsbD_eq
  intro k hk
  rw [getLsbD_readByte _ _ _ hk, getLsbD_readByte _ _ _ hk, Phys.writeByte]
  by_cases he : (f', off' / 8) = (f, off / 8)
  · obtain ⟨rfl, hw⟩ := Prod.mk.inj he
    have hm : off % 8 < 8 := Nat.mod_lt _ (by decide)
    have hm' : off' % 8 < 8 := Nat.mod_lt _ (by decide)
    have hne : off' ≠ off := h.resolve_left (by simp)
    rw [hw, mem_setWord_self, getLsbD_setByte _ _ hm (by omega), if_neg (by omega)]
  · rw [mem_setWord_ne s _ he]

lemma mem_writeBytes_ne {bs : List Byte} (h : f' ≠ f) : (s.writeBytes f off bs).mem f' = s.mem f' := by
  induction bs generalizing s off with
  | nil => rfl
  | cons b bs ih => exact ih.trans (Function.update_of_ne h ..)

lemma readByte_writeBytes (bs : List Byte) : readByte (s.writeBytes f off bs) f off' =
    if off ≤ off' then bs.getD (off' - off) (readByte s f off') else readByte s f off' := by
  induction bs generalizing s off with
  | nil => simp [Phys.writeBytes]
  | cons b bs ih =>
    rw [Phys.writeBytes, ih]
    by_cases h : off' = off
    · subst h
      rw [if_neg (by omega), if_pos (Nat.le_refl _), readByte_writeByte_self]
      simp
    · rw [readByte_writeByte_ne (.inr h)]
      by_cases hle : off ≤ off'
      · rw [if_pos hle, if_pos (by omega), show off' - off = off' - (off + 1) + 1 by omega]
        simp
      · rw [if_neg hle, if_neg (by omega)]

end Bytes

variable {L : Layout} {img : Image L} {s s' s1 s2 : Phys} {v v' : View} {roots fl : List ℕ} {f pd r : ℕ}
  {va va' : BitVec 64} {perm pte w : Pte} {g : ℕ → BitVec 64 → Pte}

def content (s : Phys) (r : ℕ) (va : BitVec 64) : Byte :=
  match target (look s r va) with
  | some f => readByte s f (pageOff va)
  | none => 0

lemma content_congr {r' : ℕ} (ht : target (look s' r' va) = target (look s r va))
    (hm : ∀ f, target (look s r va) = some f → s'.mem f = s.mem f) : content s' r' va = content s r va := by
  unfold content
  rw [ht]
  cases hf : target (look s r va) with
  | none => rfl
  | some f => simp only [readByte, hm f hf]

def signalEntry (img : Image L) (ad : Bool) : Pte := mkPte ad img.userSigReturn (pteR ||| pteX ||| pteU)

structure Walled (L : Layout) (s : Phys) (v : View) (fl : List ℕ) : Prop where
  inv : Inv L s v fl
  dead : v.dead = ∅
  heap (t : ℕ) : v.lev t ≠ 0 → L.pageused ≤ t
  plain (r : ℕ) (va : BitVec 64) (f : ℕ) : r ∈ v.roots → target (look s r va) = some f → v.lev f = 0
  iso : Isolated L v.roots (look s)
  kern (va : BitVec 64) : has (look s s.kernPd va) pteCow = false

structure KernelPage (pte : Pte) : Prop where
  valid : has pte pteV = true
  cow : has pte pteCow = false
  kernel : has pte pteU = false

structure Sealed (L : Layout) (img : Image L) (s : Phys) (v : View) (fl : List ℕ) : Prop
    extends Walled L s v fl where
  signal (r : ℕ) : r ∈ v.roots → look s r signalTrampolineVa = signalEntry img s.ad
  upper (r : ℕ) : r ∈ v.roots → KernelPage (look s r trampolineVa) ∧ KernelPage (look s r trapframeVa)

def Fixed (va : BitVec 64) : Prop :=
  SamePage trampolineVa va ∨ SamePage signalTrampolineVa va ∨ SamePage trapframeVa va

lemma Fixed.page (h : Fixed va) (hp : SamePage va va') : Fixed va' :=
  h.imp (samePage_trans · hp) (Or.imp (samePage_trans · hp) (samePage_trans · hp))

def permOf (write : Bool) : Pte := if write then pteW else pteR

def Usable (write : Bool) (pte : Pte) : Prop :=
  has pte pteU = true ∧ (has pte (permOf write) = true ∨ write = true ∧ has pte pteCow = true)

section

variable (write ad : Bool) (pa : BitVec 64) (perm : Pte)

lemma has_U_mkPte : has (mkPte ad pa perm) pteU = has perm pteU :=
  has_mkPte ad pa perm (k := 4) (by decide) (by decide)

lemma has_permOf_mkPte : has (mkPte ad pa perm) (permOf write) = has perm (permOf write) := by
  cases write with
  | true => exact has_mkPte ad pa perm (k := 2) (by decide) (by decide)
  | false => exact has_mkPte ad pa perm (k := 1) (by decide) (by decide)

lemma usable_mkPte : Usable write (mkPte ad pa perm) ↔ Usable write perm := by
  have hC : has (mkPte ad pa perm) pteCow = has perm pteCow :=
    has_mkPte ad pa perm (k := 8) (by decide) (by decide)
  rw [Usable, has_U_mkPte, hC, has_permOf_mkPte, Usable]

lemma allows_mkPte (hU : has perm pteU = true) (hp : has perm (permOf write) = true) :
    allows (permOf write) (mkPte ad pa perm) = true := by
  rw [allows, has_V_mkPte, has_U_mkPte, has_permOf_mkPte, hU, hp]
  rfl

end

def Kin (s : Phys) (r : ℕ) (va : BitVec 64) (r' : ℕ) (va' : BitVec 64) : Prop :=
  ∃ f, target (look s r va) = some f ∧ target (look s r' va') = some f

structure Quiet (roots : List ℕ) (s s' : Phys) : Prop where
  content (r : ℕ) (va : BitVec 64) : r ∈ roots → content s' r va = content s r va
  user (r : ℕ) (va : BitVec 64) : r ∈ roots → has (look s' r va) pteU = has (look s r va) pteU
  shared (r : ℕ) (va : BitVec 64) : r ∈ roots → has (look s' r va) pteShared = has (look s r va) pteShared
  usable (write : Bool) (r : ℕ) (va : BitVec 64) : r ∈ roots → Usable write (look s r va) →
    Usable write (look s' r va)
  kin (r : ℕ) (va : BitVec 64) (r' : ℕ) (va' : BitVec 64) : r ∈ roots → r' ∈ roots → Kin s' r va r' va' →
    r = r' ∧ SamePage va va' ∨ Kin s r va r' va'

lemma Quiet.refl (roots : List ℕ) (s : Phys) : Quiet roots s s :=
  ⟨fun _ _ _ => rfl, fun _ _ _ => rfl, fun _ _ _ => rfl, fun _ _ _ _ h => h, fun _ _ _ _ _ _ h => .inr h⟩

lemma Quiet.trans (h : Quiet roots s s1) (h' : Quiet roots s1 s2) : Quiet roots s s2 :=
  ⟨fun r va hr => (h'.content r va hr).trans (h.content r va hr),
    fun r va hr => (h'.user r va hr).trans (h.user r va hr),
    fun r va hr => (h'.shared r va hr).trans (h.shared r va hr),
    fun write r va hr hu => h'.usable write r va hr (h.usable write r va hr hu),
    fun r va r' va' hr hr' hk => (h'.kin r va r' va' hr hr' hk).elim .inl (h.kin r va r' va' hr hr')⟩

lemma content_rewritten (hw : Rewritten L s v fl g s' v') (hs : Shape L s v) (hd : v.dead = ∅) (hr : r ∈ v.roots)
    (hpl : ∀ f, target (look s r va) = some f → v.lev f = 0) (ht : target (g r va) = target (look s r va)) :
    content s' r va = content s r va := by
  refine content_congr ?_ fun f hf => (hw.frame f (hpl f hf) (Mapped.pinned ⟨r, hr, va, hf⟩ hs hd)).2
  rw [hw.look r va (hs.root_of_mem hr), ht]

namespace Walled

section

variable (h : Walled L s v fl)
include h

lemma rewritten (hw : Rewritten L s v fl g s' v') (hi : Isolated L v.roots g)
    (hp : ∀ r va f, r ∈ v.roots → target (g r va) = some f → Mapped s v f ∨ v'.lev f = 0)
    (hk : ∀ va, g s.kernPd va = look s s.kernPd va) : Walled L s' v' fl := by
  have hs := h.inv.shape
  have hlook : ∀ r va, r ∈ v.roots → look s' r va = g r va := fun r va hr =>
    hw.look r va (hs.root_of_mem hr)
  have hroots := hw.kept.roots
  refine ⟨hw.inv, hw.kept.dead.trans h.dead, fun t ht => ?_, fun r va f hr ht => ?_, ?_, fun va => ?_⟩
  · exact (hw.heap t ht).elim (h.heap t) id
  · rw [hroots] at hr
    rw [hlook r va hr] at ht
    rcases hp r va f hr ht with hm | h0
    · obtain ⟨q, hq, va', htq⟩ := hm
      exact (hw.frame f (h.plain q va' f hq htq) (Mapped.pinned ⟨q, hq, va', htq⟩ hs h.dead)).1
    · exact h0
  · rw [hroots]
    refine ⟨fun r va va' hp => hp.look s' r, fun r va hr => ?_, fun r va r' va' f hr hr' ht ht' hW => ?_⟩
    · rw [hlook r va hr]
      exact hi.sober r va hr
    · rw [hlook r va hr] at ht hW ⊢
      rw [hlook r' va' hr'] at ht' ⊢
      exact hi.alone r va r' va' f hr hr' ht ht' hW
  · rw [hw.kept.kernPd, hw.look _ va ((hs.root _).mpr (.inl rfl)), hk va]
    exact h.kern va

lemma content_eq (hw : Rewritten L s v fl g s' v') (hr : r ∈ v.roots)
    (ht : target (g r va) = target (look s r va)) : content s' r va = content s r va :=
  content_rewritten hw h.inv.shape h.dead hr (fun f => h.plain r va f hr) ht

lemma fresh_entry (hu : L.pageused ≤ p) (hlt : p < L.npage) (hz : s.ref p = 0)
    (hperm : perm.toNat < 1024) (hcow : ¬ (has perm pteCow = true ∧ has perm pteW = true)) :
    Fresh L v.roots (look s) pd va (mkPte s.ad (pageToPa p) perm) := by
  have ht : target (mkPte s.ad (pageToPa p) perm) = some p :=
    target_mkPte_pageToPa (Nat.lt_trans hlt L.npage_lt) s.ad hperm
  refine ⟨⟨?_, fun _ => has_V_mkPte .., fun _ => ⟨p, ht⟩, fun f hf hlt' => ?_, fun f _ hf => ?_, fun hn => ?_⟩,
    fun r va' f hr _ hf hf' => ?_⟩
  · rw [show has (mkPte s.ad (pageToPa p) perm) pteCow = has perm pteCow from
        has_mkPte s.ad _ perm (k := 8) (by decide) (by decide),
      show has (mkPte s.ad (pageToPa p) perm) pteW = has perm pteW from
        has_mkPte s.ad _ perm (k := 2) (by decide) (by decide)]
    exact hcow
  · have := some.inj (ht.symm.trans hf)
    omega
  · exact some.inj (ht.symm.trans hf) ▸ hu
  · rw [has_V_mkPte] at hn
    cases hn
  · have := (h.inv.user_ref h.dead hr hf').2
    rw [← some.inj (ht.symm.trans hf), hz] at this
    exact absurd this (by decide)

lemma kin_put {r1 r2 : ℕ} {va1 va2 : BitVec 64} (hz : s.ref p = 0) (ht : target w = some p)
    (h1 : r1 ∈ v.roots) (h2 : r2 ∈ v.roots)
    (hk : ∃ f, target (put (look s) pd va w r1 va1) = some f ∧ target (put (look s) pd va w r2 va2) = some f) :
    r1 = r2 ∧ SamePage va1 va2 ∨ Kin s r1 va1 r2 va2 := by
  have hnew : ∀ r va', r ∈ v.roots → target (look s r va') ≠ some p := fun r va' hr hf => by
    have := (h.inv.user_ref h.dead hr hf).2
    rw [hz] at this
    exact absurd this (by decide)
  obtain ⟨f, hf1, hf2⟩ := hk
  unfold put at hf1 hf2
  split at hf1 <;> split at hf2
  · next e1 e2 => exact .inl ⟨e1.1.trans e2.1.symm, samePage_trans e1.2 (samePage_symm e2.2)⟩
  · exact absurd (some.inj (ht.symm.trans hf1) ▸ hf2) (hnew r2 va2 h2)
  · exact absurd (some.inj (ht.symm.trans hf2) ▸ hf1) (hnew r1 va1 h1)
  · exact .inr ⟨f, hf1, hf2⟩

lemma put_kern (hpd : pd ∈ v.roots) : put (look s) pd va w s.kernPd va' = look s s.kernPd va' := by
  have hne : ¬ (s.kernPd = pd ∧ SamePage va' va) := fun he => h.inv.shape.kern_root (he.1 ▸ hpd)
  exact if_neg hne

end

end Walled

structure Resolves (s : Phys) (pd : ℕ) (va : BitVec 64) (perm : Pte) (page : ℕ → BitVec 64) : Prop where
  cow : ¬ (has perm pteCow = true ∧ has perm pteW = true)
  user : has perm pteU = has (look s pd va) pteU
  shared : has perm pteShared = has (look s pd va) pteShared
  usable (write : Bool) : Usable write (look s pd va) → Usable write perm
  page (i : ℕ) : page i = match target (look s pd va) with
    | some f => s.mem f i
    | none => 0

structure Steady (L : Layout) (s : Phys) (v : View) (fl : List ℕ) (s' : Phys) (v' : View) : Prop where
  walled : Walled L s' v' fl
  roots : v'.roots = v.roots
  ad : s'.ad = s.ad
  quiet : Quiet v.roots s s'
  settled (r : ℕ) (va : BitVec 64) : r ∈ v.roots → has (look s r va) pteV = true →
    has (look s r va) pteCow = false → look s' r va = look s r va

lemma Walled.steady (h : Walled L s v fl) : Steady L s v fl s v :=
  ⟨h, rfl, rfl, .refl _ _, fun _ _ _ _ _ => rfl⟩

lemma Walled.resolve (h : Walled L s v fl) (hpd : pd ∈ v.roots) {content : ℕ → ℕ → BitVec 64}
    (hpl : Placed L s v fl pd va perm content s')
    (hne : has (look s pd va) pteCow = true ∨ has (look s pd va) pteV = false)
    (hres : ∀ p, s.ref p = 0 → Resolves s pd va perm (content p)) :
    ∃ v', Steady L s v fl s' v' ∧ ∃ pa, look s' pd va = mkPte s.ad pa perm := by
  obtain ⟨hperm, v', p, hw, hu, hlt, hz, hl0, hmem⟩ := hpl
  have hr := hres p hz
  have ht : target (mkPte s.ad (pageToPa p) perm) = some p :=
    target_mkPte_pageToPa (Nat.lt_trans hlt L.npage_lt) s.ad hperm
  have hbit : ∀ k, k < 10 → k ≠ 0 ∧ k ≠ 6 ∧ k ≠ 7 →
      has (mkPte s.ad (pageToPa p) perm) (1#64 <<< k) = has perm (1#64 <<< k) := fun k hk hne =>
    has_mkPte s.ad _ perm hk hne
  have hlook : ∀ r va', r ∈ v.roots → look s' r va' = put (look s) pd va (mkPte s.ad (pageToPa p) perm) r va' :=
    fun r va' hr => hw.look r va' (h.inv.shape.root_of_mem hr)
  have hself : look s' pd va = mkPte s.ad (pageToPa p) perm := (hlook pd va hpd).trans (if_pos ⟨rfl, samePage_refl va⟩)
  have hwalled : Walled L s' v' fl := by
    refine h.rewritten hw (h.iso.put (h.fresh_entry hu hlt hz hperm hr.cow)) (fun r va' f hr ht' => ?_)
      fun va' => h.put_kern hpd
    unfold put at ht'
    split at ht'
    · exact .inr (some.inj (ht.symm.trans ht') ▸ hl0)
    · exact .inl ⟨r, hr, va', ht'⟩
  refine ⟨v', ⟨hwalled, hw.kept.roots, hw.kept.ad, ⟨fun r va' hrr => ?_, fun r va' hrr => ?_, fun r va' hrr => ?_,
    fun write r va' hrr hus => ?_, fun r1 va1 r2 va2 h1 h2 hk => ?_⟩, fun r va' hrr hV hC => ?_⟩, _, hself⟩
  · by_cases he : r = pd ∧ SamePage va' va
    · obtain ⟨rfl, hp⟩ := he
      unfold Mm.content
      rw [hlook r va' hrr, put, if_pos ⟨rfl, hp⟩, ht, hp.look s r]
      simp only [readByte, hmem, hr.page]
      cases target (look s r va) with
      | none => simp
      | some f => rfl
    · exact h.content_eq hw hrr (by rw [put, if_neg he])
  · rw [hlook r va' hrr, put]
    split
    · next he =>
      rw [he.1, he.2.look s pd]
      exact (hbit 4 (by decide) (by decide)).trans hr.user
    · rfl
  · rw [hlook r va' hrr, put]
    split
    · next he =>
      rw [he.1, he.2.look s pd]
      exact (hbit 9 (by decide) (by decide)).trans hr.shared
    · rfl
  · rw [hlook r va' hrr, put]
    split
    · next he =>
      rw [he.1, he.2.look s pd] at hus
      exact (usable_mkPte ..).mpr (hr.usable write hus)
    · exact hus
  · exact h.kin_put hz ht h1 h2 (by rwa [Kin, hlook r1 va1 h1, hlook r2 va2 h2] at hk)
  · rw [hlook r va' hrr, put, if_neg]
    rintro ⟨rfl, hp⟩
    rw [hp.look s r] at hV hC
    rcases hne with hn | hn
    · exact Bool.false_ne_true (hC.symm.trans hn)
    · exact Bool.false_ne_true (hn.symm.trans hV)

namespace Sealed

lemma of_fixed (h : Sealed L img s v fl) (hw : Walled L s' v' fl) (hr : v'.roots = v.roots) (ha : s'.ad = s.ad)
    (hf : ∀ r va, r ∈ v.roots → Fixed va → look s' r va = look s r va) : Sealed L img s' v' fl := by
  refine ⟨hw, fun r hrr => ?_, fun r hrr => ?_⟩
  · rw [hr] at hrr
    rw [hf r _ hrr (.inr (.inl (samePage_refl _))), h.signal r hrr, ha]
  · rw [hr] at hrr
    rw [hf r _ hrr (.inl (samePage_refl _)), hf r _ hrr (.inr (.inr (samePage_refl _)))]
    exact h.upper r hrr

lemma fixed_page (h : Sealed L img s v fl) (hpd : pd ∈ v.roots)
    (hne : has (look s pd va) pteCow = true ∨ has (look s pd va) pteV = false) : ¬ Fixed va := by
  have hup : ∀ {pte}, KernelPage pte → ¬ (has pte pteCow = true ∨ has pte pteV = false) := fun hu hn => by
    rw [hu.cow, hu.valid] at hn
    exact hn.elim nofun nofun
  rintro (hp | hp | hp)
  · exact hup (h.upper pd hpd).1 (hp.look s pd ▸ hne)
  · rw [← hp.look s pd, h.signal pd hpd] at hne
    rcases hne with hc | hV
    · rw [show has (signalEntry img s.ad) pteCow = has (pteR ||| pteX ||| pteU) pteCow from
        has_mkPte s.ad _ _ (k := 8) (by decide) (by decide)] at hc
      exact absurd hc (by decide)
    · rw [signalEntry, has_V_mkPte] at hV
      cases hV
  · exact hup (h.upper pd hpd).2 (hp.look s pd ▸ hne)

end Sealed

lemma has_cowedPerm (pte : Pte) (hk : k < 10) : has (cowedPerm pte) (1#64 <<< k) =
    (decide (k = 2) || (has pte (1#64 <<< k) && !decide (k = 8))) := by
  have hc : ∀ k < 10, (~~~pteCow).getLsbD k = !decide (k = 8) := by decide
  have hw : ∀ k < 10, pteW.getLsbD k = decide (k = 2) := by decide
  rw [← has_ptePerm pte hk, has_one_shiftLeft _ (by omega), has_one_shiftLeft _ (by omega), cowedPerm,
    getLsbD_or, getLsbD_and, hc k hk, hw k hk, Bool.or_comm]

section Faults

variable (h : Walled L s v fl) (hpd : pd ∈ v.roots)
include h hpd

lemma Walled.resolves_cow (hc : has (look s pd va) pteCow = true) (hz : s.ref p = 0) :
    Resolves s pd va (cowedPerm (look s pd va)) (copied s (paToPage (pteToPa (look s pd va))) p) := by
  have hsob := h.iso.sober pd va hpd
  obtain ⟨f, hf⟩ := hsob.ram (hsob.lazy hc)
  have hfe := ((target_eq_some_iff _ _).mp hf).2
  have hne : f ≠ p := by
    rintro rfl
    have := (h.inv.user_ref h.dead hpd hf).2
    rw [hz] at this
    exact absurd this (by decide)
  have hU : has (cowedPerm (look s pd va)) pteU = has (look s pd va) pteU :=
    (has_cowedPerm _ (k := 4) (by decide)).trans (by simp [pteU])
  refine ⟨?_, hU, ?_, fun write hus => ⟨hU.trans hus.1, .inl ?_⟩, fun i => ?_⟩
  · rw [show has (cowedPerm (look s pd va)) pteCow = _ from has_cowedPerm _ (k := 8) (by decide)]
    simp
  · exact (has_cowedPerm _ (k := 9) (by decide)).trans (by simp [pteShared])
  · cases write with
    | true => exact (has_cowedPerm _ (k := 2) (by decide)).trans (by simp)
    | false =>
      have hR := hus.2.resolve_right fun hw => Bool.false_ne_true hw.1
      exact (has_cowedPerm _ (k := 1) (by decide)).trans (by simpa [permOf, pteR] using hR)
  · rw [hf, hfe, copied, Function.update_of_ne hne]

lemma Walled.resolves_passive (hV : has (look s pd va) pteV = false) :
    Resolves s pd va (look s pd va) (fun _ => 0) := by
  refine ⟨(h.iso.sober pd va hpd).cow, rfl, rfl, fun _ hus => hus, fun i => ?_⟩
  rw [target_of_not_V hV]

lemma Walled.pageFault : wp (Mm.pageFaultHandler pd violate va) (fun r s' => ∃ v', Steady L s v fl s' v' ∧
    (r = 0 ∧ (∃ pa, CowFault violate (look s pd va) ∧ look s' pd va = mkPte s.ad pa (cowedPerm (look s pd va)) ∨
        PassiveFault violate (look s pd va) ∧ look s' pd va = mkPte s.ad pa (look s pd va)) ∨
      r = -1 ∧ s' = s ∧ ¬ CowFault violate (look s pd va) ∧ ¬ PassiveFault violate (look s pd va)))
    NotRefZero s := by
  refine wp_mono (h.inv.pageFaultHandler h.dead hpd) fun r s' h' => ?_
  rcases h' with ⟨hc, hr, hpl⟩ | ⟨hp, hr, hpl⟩ | ⟨hc, hp, hr, rfl⟩
  · obtain ⟨v', hs, pa, hlook⟩ :=
      h.resolve hpd hpl (.inl hc.2.2.2.2) fun p hz => h.resolves_cow hpd hc.2.2.2.2 hz
    exact ⟨v', hs, .inl ⟨hr, pa, .inl ⟨hc, hlook⟩⟩⟩
  · have hV : has (look s pd va) pteV = false := by simpa using hp.2.1
    obtain ⟨v', hs, pa, hlook⟩ := h.resolve hpd hpl (.inr hV) fun p _ => h.resolves_passive hpd hV
    exact ⟨v', hs, .inl ⟨hr, pa, .inr ⟨hp, hlook⟩⟩⟩
  · exact ⟨v, h.steady, .inr ⟨hr, rfl, hc, hp⟩⟩

lemma Walled.wp_pageFaultHandler (hu : 0 < L.pageused) :
    wp (Mm.pageFaultHandler pd violate va) (fun _ _ => True) Mild s :=
  have hs := h.iso.sober pd va hpd
  h.inv.wp_pageFaultHandler hu h.dead hpd hs.heap hs.small

lemma Walled.pageFaultHandler (write : Bool) : wp (pageFaultHandler pd (permOf write) va) (fun r s' =>
    ∃ v', Steady L s v fl s' v' ∧
      (r = 0 ∧ (Usable write (look s pd va) → allows (permOf write) (look s' pd va) = true) ∨
        r = -1 ∧ s' = s ∧ ¬ CowFault (permOf write) (look s pd va) ∧
          ¬ PassiveFault (permOf write) (look s pd va))) NotRefZero s := by
  refine wp_mono (h.pageFault hpd) fun r s' ⟨v', hs, h'⟩ => ⟨v', hs, h'.imp_left fun ⟨hr, pa, h'⟩ =>
    ⟨hr, fun hus => ?_⟩⟩
  rcases h' with ⟨hc, hlook⟩ | ⟨hp, hlook⟩
  · have hw : write = true := by
      by_contra hw
      have := hc.1
      rw [permOf, if_neg hw] at this
      exact absurd this (by decide)
    subst hw
    rw [hlook]
    refine allows_mkPte true s.ad pa _ ?_ ((has_cowedPerm _ (k := 2) (by decide)).trans (by simp))
    exact (has_cowedPerm _ (k := 4) (by decide)).trans (by simpa [pteU] using hc.2.2.1)
  · rw [hlook]
    refine allows_mkPte write s.ad pa _ hus.1 (hus.2.resolve_right fun hw => hp.2.1 ?_)
    exact (h.iso.sober pd va hpd).lazy hw.2

end Faults

structure Calm (L : Layout) (img : Image L) (s : Phys) (v : View) (fl : List ℕ) (s' : Phys) (v' : View) :
    Prop where
  inner : Sealed L img s' v' fl
  roots : v'.roots = v.roots
  quiet : Quiet v.roots s s'

lemma Sealed.calm (h : Sealed L img s v fl) (hs : Steady L s v fl s' v') : Calm L img s v fl s' v' := by
  refine ⟨h.of_fixed hs.walled hs.roots hs.ad fun r va hr hf => ?_, hs.roots, hs.quiet⟩
  refine hs.settled r va hr ?_ ?_
  · by_contra hV
    exact h.fixed_page hr (.inr (by simpa using hV)) hf
  · by_contra hC
    exact h.fixed_page hr (.inl (by simpa using hC)) hf

end FarmOS.Mm

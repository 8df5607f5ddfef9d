import FarmOS.Mm.Touch

/-! The pages of a range of addresses, and the calls that go through them one by one. -/

namespace FarmOS.Mm

open Lib BitVec Nat

variable {L : Layout} {s s' s0 : Phys} {v v' v0 : View} {fl : List ℕ} {pd n j fuel : ℕ}
  {va va' pa start len : BitVec 64} {perm w w' old : Pte} {R T : Pte → Pte → Prop} {E : Panic → Prop}
  {more : BitVec 64 → Bool} {body : BitVec 64 → M Unit} {a : BitVec 64} {ad : Bool} {fl' : List ℕ}

def Meets (start len va : BitVec 64) : Prop := ∃ i < len.toNat, SamePage va (start + BitVec.ofNat 64 i)

def Pages (start : BitVec 64) (n : ℕ) (va : BitVec 64) : Prop :=
  ∃ j < n, SamePage va (start + BitVec.ofNat 64 (4096 * j))

lemma not_pages_zero {start va : BitVec 64} : ¬ Pages start 0 va := by
  rintro ⟨j, hj, -⟩
  exact absurd hj (Nat.not_lt_zero j)

def Present (w : Pte) : Prop := has w pteV = true ∨ ptePassive w = true

instance (w : Pte) : Decidable (Present w) := inferInstanceAs (Decidable (_ ∨ _))

section Addresses

lemma toNat_and_not_fff (a : BitVec 64) : (a &&& ~~~0xfff#64).toNat = a.toNat / 4096 * 4096 := by
  have hmask : ∀ m < 64, (~~~0xfff#64).getLsbD m = decide (12 ≤ m) := by decide
  have h : a &&& ~~~0xfff#64 = (a >>> 12) <<< 12 := by
    apply eq_of_getLsbD_eq
    intro i hi
    rw [getLsbD_and, hmask i hi, getLsbD_shiftLeft, getLsbD_ushiftRight]
    by_cases hlt : 12 ≤ i
    · rw [decide_eq_true hlt, Nat.add_sub_cancel' hlt]
      simp [hi, hlt]
    · rw [decide_eq_false hlt]
      simp [hlt]
  have := a.isLt
  rw [h, toNat_shiftLeft, toNat_ushiftRight, Nat.shiftRight_eq_div_pow, Nat.shiftLeft_eq]
  omega

lemma toNat_pgRoundDown (a : BitVec 64) : (pgRoundDown a).toNat = a.toNat / 4096 * 4096 := toNat_and_not_fff a

lemma toNat_pgRoundUpVa (h : a.toNat + 4095 < 2 ^ 64) :
    (pgRoundUpVa a).toNat = (a.toNat + 4095) / 4096 * 4096 := by
  have h4 : (4095 : BitVec 64).toNat = 4095 := rfl
  rw [show pgRoundUpVa a = pgRoundDown (a + 4095) from rfl, toNat_pgRoundDown, toNat_add, h4,
    mod_eq_of_lt h]

lemma pgRoundUpVa_eq (h : a.toNat % 4096 = 0) : pgRoundUpVa a = a := by
  have := a.isLt
  refine eq_of_toNat_eq ?_
  rw [toNat_pgRoundUpVa (by omega)]
  omega

lemma samePage_of_div (h : va.toNat / 4096 = va'.toNat / 4096) : SamePage va va' := by
  have hptx : ∀ level, ptx va level = ptx va' level := fun level => by
    rw [ptx_eq, ptx_eq, Nat.pow_add, ← Nat.div_div_eq_div_mul, ← Nat.div_div_eq_div_mul]
    exact congrArg (fun n => n / 2 ^ ((3 - level) * 9) % 512) h
  exact ⟨hptx 1, hptx 2, hptx 3⟩

lemma pages_succ : Pages start (n + 1) va ↔ Pages start n va ∨ SamePage va (start + BitVec.ofNat 64 (4096 * n)) := by
  constructor
  · rintro ⟨j, hj, hp⟩
    obtain rfl | hlt := Nat.eq_or_lt_of_le (Nat.lt_succ_iff.mp hj)
    · exact .inr hp
    · exact .inl ⟨j, hlt, hp⟩
  · rintro (⟨j, hj, hp⟩ | hp)
    · exact ⟨j, lt_succ_of_lt hj, hp⟩
    · exact ⟨n, lt_succ_self n, hp⟩

def pageSpan (start len : BitVec 64) : ℕ := (start.toNat + len.toNat - 1) / 4096 - start.toNat / 4096 + 1

lemma meets_iff (hlen : 0 < len.toNat) (hend : start.toNat + len.toNat ≤ 2 ^ 64) :
    Meets start len va ↔ Pages (pgRoundDown start) (pageSpan start len) va := by
  have hpage : ∀ j < pageSpan start len, (pgRoundDown start + BitVec.ofNat 64 (4096 * j)).toNat =
      start.toNat / 4096 * 4096 + 4096 * j := fun j hj => by
    rw [pageSpan] at hj
    rw [toNat_add_ofNat (by rw [toNat_pgRoundDown]; omega), toNat_pgRoundDown]
  constructor
  · rintro ⟨i, hi, hp⟩
    have hj : (start.toNat + i) / 4096 - start.toNat / 4096 < pageSpan start len := by
      rw [pageSpan]
      omega
    refine ⟨_, hj, samePage_trans hp (samePage_of_div ?_)⟩
    rw [hpage _ hj, toNat_add_ofNat (by omega)]
    omega
  · rintro ⟨j, hj, hp⟩
    refine ⟨4096 * j - start.toNat % 4096, ?_, samePage_trans hp (samePage_of_div ?_)⟩
    · rw [pageSpan] at hj
      omega
    · rw [hpage j hj, toNat_add_ofNat (by rw [pageSpan] at hj; omega)]
      omega

lemma not_pages_of_lt (hend : start.toNat + 4096 * (n + 1) ≤ 2 ^ 39) :
    ¬ Pages start n (start + BitVec.ofNat 64 (4096 * n)) := by
  rintro ⟨j, hj, hp⟩
  have hn : (start + BitVec.ofNat 64 (4096 * n)).toNat = start.toNat + 4096 * n := toNat_add_ofNat (by omega)
  have hj' : (start + BitVec.ofNat 64 (4096 * j)).toNat = start.toNat + 4096 * j := toNat_add_ofNat (by omega)
  rw [samePage_canonical (by omega) (by omega), hn, hj'] at hp
  omega

end Addresses

lemma wp_whilePages_count {I : ℕ → Phys → Prop} (hfuel : n < fuel)
    (hin : ∀ j < n, more (start + BitVec.ofNat 64 (4096 * j)) = true)
    (hout : more (start + BitVec.ofNat 64 (4096 * n)) = false) (h : I 0 s)
    (hbody : ∀ j s, j < n → I j s →
      wp (body (start + BitVec.ofNat 64 (4096 * j))) (fun _ s' => I (j + 1) s') E s) :
    wp (whilePages more body fuel start) (fun _ s' => I n s') E s := by
  induction n generalizing start s fuel I with
  | zero =>
    obtain ⟨fuel, rfl⟩ : ∃ k, fuel = k + 1 := ⟨fuel - 1, by omega⟩
    rw [Nat.mul_zero, BitVec.add_zero] at hout
    rw [whilePages, hout]
    exact wp_pure.mpr h
  | succ n ih =>
    obtain ⟨fuel, rfl⟩ : ∃ k, fuel = k + 1 := ⟨fuel - 1, by omega⟩
    have h0 := hin 0 (succ_pos n)
    have hb := hbody 0 s (succ_pos n) h
    rw [Nat.mul_zero, BitVec.add_zero] at h0 hb
    rw [whilePages, if_pos h0]
    refine wp_seq hb fun _ s1 h1 => ?_
    refine ih (I := fun j => I (j + 1)) (by omega) (fun j hj => ?_) ?_ h1 fun j s hj hI => ?_
    · rw [add_pages]
      exact hin (j + 1) (by omega)
    · rw [add_pages]
      exact hout
    · rw [add_pages]
      exact hbody (j + 1) s (by omega) hI

def Alters (L : Layout) (s : Phys) (v : View) (fl : List ℕ) (pd : ℕ) (va : BitVec 64) (w : Pte) (s' : Phys) : Prop :=
  ∃ v', Tidy L s' v' fl ∧ Kept s v s' v' ∧ ∀ r va', v.lev r = 1 → look s' r va' = put (look s) pd va w r va'

structure Ranged (L : Layout) (s : Phys) (v : View) (fl : List ℕ) (pd : ℕ) (R : Pte → Pte → Prop) (start : BitVec 64)
    (n : ℕ) (s' : Phys) : Prop where
  tidy : ∃ v', Tidy L s' v' fl ∧ Kept s v s' v'
  inside (va : BitVec 64) : Pages start n va → R (look s pd va) (look s' pd va)
  outside (r : ℕ) (va : BitVec 64) : v.lev r = 1 → ¬ (r = pd ∧ Pages start n va) → look s' r va = look s r va

lemma Tidy.ranged (h : Tidy L s v fl) : Ranged L s v fl pd R start 0 s :=
  ⟨⟨v, h, .refl s v⟩, fun _ hj => absurd hj not_pages_zero, fun _ _ _ _ => rfl⟩

lemma Ranged.step (h : Ranged L s0 v0 fl pd R start n s) (ht0 : Tidy L s0 v0 fl) (hpd : v0.lev pd = 1)
    (ht : Tidy L s v fl) (hk : Kept s0 v0 s v)
    (ha : Alters L s v fl pd (start + BitVec.ofNat 64 (4096 * n)) w s')
    (hT : T (look s pd (start + BitVec.ofNat 64 (4096 * n))) w) (hfirst : ∀ old w, T old w → R old w)
    (hagain : ∀ old w w', R old w → T w w' → R old w') : Ranged L s0 v0 fl pd R start (n + 1) s' := by
  obtain ⟨v', ht', hk', hl⟩ := ha
  have hroot {r : ℕ} (hr : v0.lev r = 1) : v.lev r = 1 := (hk.root ht0.inv.shape ht.inv.shape).mpr hr
  have hw : R (look s0 pd (start + BitVec.ofNat 64 (4096 * n))) w := by
    by_cases hp : Pages start n (start + BitVec.ofNat 64 (4096 * n))
    · exact hagain _ _ _ (h.inside _ hp) hT
    · rw [h.outside pd _ hpd fun hc => hp hc.2] at hT
      exact hfirst _ _ hT
  refine ⟨⟨v', ht', hk.trans hk'⟩, fun va hp => ?_, fun r va hr hp => ?_⟩
  · rw [hl pd va (hroot hpd)]
    unfold put
    split
    · next hs =>
      rw [hs.2.look s0 pd]
      exact hw
    · next hs => exact h.inside va ((pages_succ.mp hp).resolve_right fun hc => hs ⟨rfl, hc⟩)
  · rw [hl r va (hroot hr), put, if_neg fun hc => hp ⟨hc.1, pages_succ.mpr (.inr hc.2)⟩]
    exact h.outside r va hr fun hc => hp ⟨hc.1, pages_succ.mpr (.inl hc.2)⟩

lemma Tidy.sweep (h : Tidy L s v fl) (hpd : v.lev pd = 1) (hfuel : n < fuel)
    (hin : ∀ j < n, more (start + BitVec.ofNat 64 (4096 * j)) = true)
    (hout : more (start + BitVec.ofNat 64 (4096 * n)) = false) (hfirst : ∀ old w, T old w → R old w)
    (hagain : ∀ old w w', R old w → T w w' → R old w')
    (hbody : ∀ j s' v', j < n → Tidy L s' v' fl → Kept s v s' v' → Ranged L s v fl pd R start j s' →
      wp (body (start + BitVec.ofNat 64 (4096 * j))) (fun _ s2 => ∃ w,
        T (look s' pd (start + BitVec.ofNat 64 (4096 * j))) w ∧
        Alters L s' v' fl pd (start + BitVec.ofNat 64 (4096 * j)) w s2) E s') :
    wp (whilePages more body fuel start) (fun _ s' => Ranged L s v fl pd R start n s') E s := by
  refine wp_whilePages_count (I := fun j s' => Ranged L s v fl pd R start j s') hfuel hin hout h.ranged
    fun j s' hj hI => ?_
  obtain ⟨v', ht, hk⟩ := hI.tidy
  exact wp_mono (hbody j s' v' hj ht hk hI) fun _ s2 ⟨w, hT, ha⟩ => hI.step h hpd ht hk ha hT hfirst hagain

section Errors

def Loud (e : Panic) : Prop := e = .noFreePage ∨ e = .assertion ∨ e = .refZero

def Halts (e : Panic) : Prop := e = .noFreePage ∨ e = .assertion

lemma loud_ppDecOnValid (w : Pte) (s : Phys) : wp (ppDecOnValid w) (fun _ _ => True) Loud s := by
  simp only [ppDecOnValid, pteToPage, pmPageDecRef, check, wp_bind, wp_ite, wp_pure, wp_throw, wp_get, wp_set]
  simp [Loud]

lemma loud_ppIncOnValid (w : Pte) (s : Phys) : wp (ppIncOnValid w) (fun _ _ => True) Loud s := by
  simp only [ppIncOnValid, pteToPage, pmPageIncRef, check, wp_bind, wp_ite, wp_pure, wp_throw, wp_modify]
  simp [Loud]

lemma loud_ptModify (x : ℕ × ℕ) (w : Pte) (s : Phys) : wp (ptModify x w) (fun _ _ => True) Loud s := by
  simp only [ptModify, load, store, wp_bind, wp_get, wp_pure, wp_ite, wp_modify]
  exact ⟨fun _ => trivial, fun _ => wp_mono (loud_ppDecOnValid _ _) fun _ _ _ => loud_ppIncOnValid _ _⟩

lemma loud_pmAlloc {Q : ℕ → Phys → Prop} (h : ∀ p s', Q p s') (s : Phys) : wp pmAlloc Q Loud s :=
  wp_pmAlloc (fun _ => .inl rfl) fun _ _ _ => h _ _

lemma loud_ptStep (va : BitVec 64) (level t : ℕ) (s : Phys) :
    wp (ptStep va true level t) (fun r _ => r.isSome = true) Loud s := by
  simp only [ptStep, load, wp_bind, wp_get, wp_pure, wp_ite]
  refine ⟨fun _ => rfl, fun _ => ⟨fun _ => loud_pmAlloc (fun p s' => ?_) s, by simp⟩⟩
  exact wp_mono (loud_ptModify _ _ s') fun _ _ _ => rfl

lemma loud_ptWalk (pd : ℕ) (va : BitVec 64) (s : Phys) :
    wp (ptWalk pd va true) (fun r _ => r.isSome = true) Loud s := by
  refine wp_seq (loud_ptStep va 1 pd s) fun r s1 hr => ?_
  obtain ⟨t, rfl⟩ := Option.isSome_iff_exists.mp hr
  refine wp_seq (loud_ptStep va 2 t s1) fun r s2 hr => ?_
  obtain ⟨t, rfl⟩ := Option.isSome_iff_exists.mp hr
  exact wp_pure.mpr rfl

lemma loud_ptSlot (pd : ℕ) (va : BitVec 64) (s : Phys) : wp (ptSlot pd va) (fun _ _ => True) Loud s := by
  simp only [ptSlot, wp_bind, wp_ptWalk_false]
  cases slot s pd va with
  | some x => exact wp_pure.mpr trivial
  | none =>
    refine wp_seq (loud_ptWalk pd va s) fun r s1 hr => ?_
    obtain ⟨x, rfl⟩ := Option.isSome_iff_exists.mp hr
    exact wp_pure.mpr trivial

lemma loud_ptMap (pd : ℕ) (va pa : BitVec 64) (perm : Pte) (s : Phys) :
    wp (ptMap pd va pa perm) (fun r _ => r = 0) Loud s := by
  refine wp_seq (loud_ptSlot pd va s) fun x s1 _ => ?_
  have hput : ∀ w, wp (ptModify x w) (fun _ _ => True) Loud s1 := fun w => loud_ptModify x w s1
  simp only [load, check, wp_bind, wp_get, wp_pure, wp_ite, wp_throw]
  exact ⟨fun _ => ⟨fun _ => hput _, fun _ => .inr (.inl rfl)⟩, fun _ =>
    ⟨fun _ => ⟨fun _ => hput _, fun _ => .inr (.inl rfl)⟩,
    fun _ => ⟨fun _ => hput _, fun _ => .inr (.inl rfl)⟩⟩⟩

lemma loud_mapOrPanic (pd : ℕ) (va pa : BitVec 64) (perm : Pte) (s : Phys) :
    wp (do panicOn (← ptMap pd va pa perm)) (fun _ _ => True) Loud s := by
  exact wp_seq (loud_ptMap pd va pa perm s) fun r s1 hr => wp_panicOn_zero hr trivial

lemma loud_mapPage (pd : ℕ) (perm : Pte) (va : BitVec 64) (s : Phys) :
    wp (mapPage pd perm va) (fun _ _ => True) Loud s := by
  refine wp_bind.mpr (wp_ptLookup.mpr (wp_ite.mpr ⟨fun _ => wp_ite.mpr ⟨fun _ => wp_bind.mpr ?_, fun _ => ?_⟩,
    fun _ => wp_pure.mpr trivial⟩))
  · exact loud_pmAlloc (fun p s' => loud_mapOrPanic pd va _ perm s') s
  · refine wp_bind.mpr ?_
    rw [check, wp_ite]
    exact ⟨fun _ => wp_pure.mpr (loud_mapOrPanic pd va 0 perm s), fun _ => wp_throw.mpr (.inr (.inl rfl))⟩

lemma loud_protectPage (pd : ℕ) (perm : Pte) (va : BitVec 64) (s : Phys) :
    wp (protectPage pd perm va) (fun _ _ => True) Loud s := by
  refine wp_bind.mpr (wp_ptLookup.mpr (wp_ite.mpr ⟨fun _ => wp_bind.mpr ?_, fun _ => wp_ite.mpr
    ⟨fun _ => loud_mapOrPanic pd va _ perm s, fun _ => wp_pure.mpr trivial⟩⟩))
  rw [check, wp_ite]
  exact ⟨fun _ => wp_pure.mpr (loud_mapOrPanic pd va 0 perm s), fun _ => wp_throw.mpr (.inr (.inl rfl))⟩

end Errors

section Entries

def Granted (L : Layout) (ad : Bool) (perm w : Pte) : Prop :=
  w = perm ∧ has perm pteU = true ∨ ∃ q < L.npage, w = mkPte ad (pageToPa q) perm

def Grants (L : Layout) (ad : Bool) (perm old w : Pte) : Prop :=
  pteToPa old ≠ 0 ∧ w = old ∨ pteToPa old = 0 ∧ Granted L ad perm w

def Reprotects (ad : Bool) (perm old w : Pte) : Prop := Reperm ad old perm w ∨ ¬ Present old ∧ w = old

lemma Grants.again (h : Grants L ad perm old w) (h' : Grants L ad perm w w') : Grants L ad perm old w' := by
  rcases h with ⟨h0, rfl⟩ | ⟨h0, hg⟩
  · rcases h' with ⟨-, rfl⟩ | ⟨hn, -⟩
    · exact .inl ⟨h0, rfl⟩
    · exact absurd hn h0
  · rcases h' with ⟨-, rfl⟩ | ⟨-, hg'⟩
    · exact .inr ⟨h0, hg⟩
    · exact .inr ⟨h0, hg'⟩

lemma pteToPa_reperm (ad : Bool) (old : Pte) (hp : perm.toNat < 1024) :
    pteToPa (mkPte ad (pteToPa old) perm) = pteToPa old := by
  have h := toNat_pteToPa_mod old
  rw [pteToPa_mkPte ad _ hp]
  refine eq_of_toNat_eq ?_
  have := (pteToPa old).isLt
  rw [toNat_shiftLeft, toNat_ushiftRight, Nat.shiftRight_eq_div_pow, Nat.shiftLeft_eq]
  omega

lemma Reprotects.again (hp : perm.toNat < 1024) (hV : has perm pteV = false)
    (h : Reprotects ad perm old w) (h' : Reprotects ad perm w w') : Reprotects ad perm old w' := by
  rcases h with (⟨hv, rfl⟩ | ⟨hv, hU, rfl⟩) | ⟨hn, rfl⟩
  · have hv' := has_V_mkPte ad (pteToPa old) perm
    rcases h' with (⟨-, rfl⟩ | ⟨hn, -⟩) | ⟨hn, -⟩
    · rw [pteToPa_reperm ad old hp]
      exact .inl (.inl ⟨hv, rfl⟩)
    · exact absurd (hn.symm.trans hv') nofun
    · exact absurd (.inl hv') hn
  · rcases h' with (⟨hv', -⟩ | ⟨-, -, rfl⟩) | ⟨-, rfl⟩
    · exact absurd (hV.symm.trans hv') nofun
    · exact .inl (.inr ⟨hv, hU, rfl⟩)
    · exact .inl (.inr ⟨hv, hU, rfl⟩)
  · exact h'

lemma Alters.refl (h : Tidy L s v fl) : Alters L s v fl pd va (look s pd va) s := by
  refine ⟨v, h, .refl s v, fun r va' _ => ?_⟩
  unfold put
  split
  · next hs => rw [hs.1, hs.2.look s pd]
  · rfl

lemma Alters.after {s1 : Phys} (h : Tidy L s v fl) (ha : Agrees v s s1) (had : s1.ad = s.ad)
    (h' : Alters L s1 v fl' pd va w s') : Alters L s v fl' pd va w s' := by
  obtain ⟨v', ht, hk, hl⟩ := h'
  refine ⟨v', ht, Kept.trans ⟨rfl, rfl, rfl, ha.kernPd, ha.ident, had⟩ hk, fun r va' hr => ?_⟩
  rw [hl r va' hr, put, put, ha.look h.inv.shape h.dead hr]

lemma Tidy.alters (h : Tidy L s v fl) (hpd : v.lev pd = 1) (hc : ¬ Uncounted s pd va)
    (hm : Mappable L s fl pa perm) (hp : membase ≤ pa → v.lev (paToPage pa) = 0)
    (hfl : landed fl (entry s.ad pa perm) = fl') :
    wp (Mm.ptMap pd va pa perm) (fun r s' => r = 0 ∧ Alters L s v fl' pd va (entry s.ad pa perm) s') NotRefZero s := by
  refine wp_mono (h.ptMapWritten hpd hc hm hp) fun r s' ⟨hr, v', ht, hw⟩ => ⟨hr, v', hfl ▸ ht, hw.kept, ?_⟩
  exact fun r va' hr => hw.look h.dead hpd h.inv.shape hr

lemma Tidy.altersFresh {p : ℕ} (h : Tidy L s v (p :: fl)) (hpd : v.lev pd = 1) (hc : ¬ Uncounted s pd va)
    (hlt : p < L.npage) (hl : v.lev p = 0) (hperm : perm.toNat < 1024) :
    wp (Mm.ptMap pd va (pageToPa p) perm) (fun r s' => r = 0 ∧
      Alters L s v fl pd va (mkPte s.ad (pageToPa p) perm) s') NotRefZero s := by
  have hlt' := lt_trans hlt L.npage_lt
  have hpage := paToPage_pageToPa hlt'
  have hbase := membase_le_pageToPa hlt'
  have hentry : entry s.ad (pageToPa p) perm = mkPte s.ad (pageToPa p) perm := by
    refine if_neg fun h0 => ?_
    rw [h0] at hbase
    exact absurd hbase (by decide)
  rw [← hentry]
  refine h.alters hpd hc ⟨hperm, fun _ => hpage.symm ▸ hlt, fun _ => .inl ?_⟩ (fun _ => hpage.symm ▸ hl) ?_
  · rw [hpage]
    exact List.mem_cons_self
  · rw [landed_entry s.ad hperm, if_pos hbase, hpage]
    exact List.erase_cons_head ..

lemma ptMap_valid (hV : has (look s pd va) pteV = true) :
    wp (ptMap pd va pa perm) (fun _ _ => pa ≠ 0) (fun _ => True) s := by
  cases hx : slot s pd va with
  | none =>
    rw [look, hx] at hV
    exact absurd (show has 0 pteV = true from hV) (by decide)
  | some x =>
    rw [look, hx] at hV
    simp only [ptMap, ptSlot, wp_bind, wp_ptWalk_false, hx, load, wp_get, wp_pure, wp_ite, check, wp_throw]
    refine ⟨fun _ => ⟨fun h0 => ?_, fun _ => trivial⟩, fun hn => absurd hV hn⟩
    exact wp_mono (wp_mono_error (loud_ptModify x _ s) fun _ _ => trivial) fun _ _ _ => h0

variable (h : Tidy L s v fl) (hpd : pd ∈ v.roots)
include h hpd

lemma Tidy.altersPassive (hperm : perm.toNat < 1024) :
    wp (Mm.ptMap pd va 0 perm) (fun r s' => r = 0 ∧ Alters L s v fl pd va perm s') NotRefZero s := by
  have hs := h.inv.shape
  obtain ⟨hm, hland⟩ := mappable_passive L s fl hperm
  refine wp_mono (h.alters (hs.root_of_mem hpd) (hs.user_counted h.dead hpd) hm (fun hb => absurd hb (by decide)) hland)
    fun r s' ⟨hr, ha⟩ => ⟨hr, ?_⟩
  rwa [show entry s.ad 0 perm = perm from if_pos rfl] at ha

omit h hpd in
lemma pteToPa_fresh {q : ℕ} (hq : q < L.npage) (hp : perm.toNat < 1024) : pteToPa (mkPte ad (pageToPa q) perm) ≠ 0 := by
  intro h0
  have hb := le_def.mp (membase_le_pageToPa (lt_trans hq L.npage_lt))
  have hm : membase.toNat = 2147483648 := rfl
  have hlt := (pageToPa q).isLt
  rw [pteToPa_mkPte ad _ hp] at h0
  have h1 := congrArg BitVec.toNat h0
  rw [toNat_shiftLeft, toNat_ushiftRight, Nat.shiftRight_eq_div_pow, Nat.shiftLeft_eq] at h1
  change _ = 0 at h1
  omega

/-- What `sys_map` does to the entry of one page, which depends on the side of the threshold the address is on. -/
structure MapsPage (L : Layout) (ad : Bool) (perm : Pte) (va : BitVec 64) (old w : Pte) : Prop where
  grants : Grants L ad perm old w
  low : va < passiveThreshold → pteToPa w ≠ 0
  high : ¬ va < passiveThreshold → pteToPa old = 0 → w = perm

lemma Tidy.mapPage (hperm : perm.toNat < 1024) : wp (mapPage pd perm va) (fun _ s' => ∃ w,
    MapsPage L s.ad perm va (look s pd va) w ∧ Alters L s v fl pd va w s') NotRefZero s := by
  have hs := h.inv.shape
  refine wp_bind.mpr (wp_ptLookup.mpr (wp_ite.mpr ⟨fun h0 => wp_ite.mpr ⟨fun hlow => wp_bind.mpr ?_,
    fun hhigh => wp_bind.mpr ?_⟩, fun hn => wp_pure.mpr ⟨look s pd va, ⟨.inl ⟨hn, rfl⟩, fun _ => hn, fun _ h0 =>
      absurd h0 hn⟩, .refl h⟩⟩))
  · refine wp_mono h.vmAlloc ?_
    rintro p s1 ⟨h1, hp⟩
    rw [wp_bind]
    refine wp_mono (h1.altersFresh (hs.root_of_mem hpd) (h1.inv.shape.user_counted h.dead hpd) hp.lt hp.lev hperm)
      fun r s2 ha => wp_panicOn fun _ => ⟨_, ⟨.inr ⟨h0, .inr ⟨p, hp.lt, ?_⟩⟩, fun _ => pteToPa_fresh hp.lt hperm,
        fun hn => absurd hlow hn⟩, ha.2.after h hp.agrees hp.ad⟩
    rw [hp.ad]
  · rw [check, wp_ite]
    refine ⟨fun hU => wp_pure.mpr (wp_bind.mpr ?_), fun _ => wp_throw.mpr (by rintro ⟨⟩)⟩
    exact wp_mono (h.altersPassive hpd hperm) fun r s1 ha => wp_panicOn fun _ =>
      ⟨perm, ⟨.inr ⟨h0, .inl ⟨rfl, hU⟩⟩, fun hn => absurd hn hhigh, fun _ _ => rfl⟩, ha.2⟩

lemma Tidy.protectPage (hperm : perm.toNat < 1024) : wp (protectPage pd perm va) (fun _ s' => ∃ w,
    Reprotects s.ad perm (look s pd va) w ∧ Alters L s v fl pd va w s') NotRefZero s := by
  have hs := h.inv.shape
  refine wp_bind.mpr (wp_ptLookup.mpr (wp_ite.mpr ⟨fun hv => wp_bind.mpr ?_, fun hn => wp_ite.mpr
    ⟨fun hv => wp_bind.mpr ?_, fun hv => wp_pure.mpr ⟨_, .inr ⟨?_, rfl⟩, .refl h⟩⟩⟩))
  · rw [check, wp_ite]
    refine ⟨fun _ => wp_pure.mpr (wp_bind.mpr ?_), fun _ => wp_throw.mpr (by rintro ⟨⟩)⟩
    exact wp_mono (h.altersPassive hpd hperm) fun r s1 ha => wp_panicOn fun _ =>
      ⟨perm, .inl (.inr ⟨by simpa using hv.1, hv.2, rfl⟩), ha.2⟩
  · obtain ⟨hm, hland⟩ := h.inv.sharing h.dead hpd hv hperm
    have hplain : membase ≤ pteToPa (look s pd va) → v.lev (paToPage (pteToPa (look s pd va))) = 0 := fun hb =>
      h.leaf pd va _ (hs.root_of_mem hpd) (hs.user_counted h.dead hpd) (if_pos ⟨hv, hb⟩)
    refine wp_mono (wp_and (h.alters (hs.root_of_mem hpd) (hs.user_counted h.dead hpd) hm hplain hland)
      (ptMap_valid hv)) fun r s1 ha => wp_panicOn fun _ => ⟨_, .inl (.inl ⟨hv, ?_⟩), ha.1.2⟩
    exact if_neg ha.2
  · rintro (hV | hp)
    · exact hv hV
    · rw [ptePassive, Bool.and_eq_true, Bool.not_eq_true'] at hp
      exact hn ⟨by simp [hp.1], hp.2⟩

omit h hpd in
lemma unmapPage_full : wp (unmapPage pd va) (fun _ _ => look s pd va ≠ 0) (fun _ => True) s := by
  simp only [unmapPage, Mm.ptUnmap, wp_bind, wp_ptWalk_false]
  cases hx : slot s pd va with
  | none => exact wp_throw.mpr trivial
  | some x =>
    simp only [wp_bind, load, wp_get, wp_pure, wp_ite, look, hx]
    exact ⟨fun _ => wp_throw.mpr trivial, fun hne => wp_any fun _ _ => wp_any fun _ _ => hne⟩

lemma Tidy.unmapPage : wp (unmapPage pd va) (fun _ s' => look s pd va ≠ 0 ∧ Alters L s v fl pd va 0 s')
    (fun _ => look s pd va = 0) s := by
  by_cases h0 : look s pd va = 0
  · exact wp_mono (wp_mono_error unmapPage_full fun _ _ => h0) fun _ _ hne => absurd h0 hne
  refine wp_mono (wp_mono_error (E := fun _ => False) ?_ fun _ => False.elim) fun _ _ ha => ⟨h0, ha⟩
  have hne := h0
  have hs := h.inv.shape
  have hroot := hs.root_of_mem hpd
  cases hx : slot s pd va with
  | none =>
    rw [look, hx] at hne
    exact absurd rfl hne
  | some x =>
    rw [look, hx] at hne
    obtain ⟨hl, -, hi⟩ := hs.slot_lev h.dead hroot hx
    have hleaf : Leaf s v x := ⟨hl, hi, fun hid => hs.user_counted h.dead hpd ⟨x, hx, hid⟩⟩
    refine wp_seq (wp_and (h.inv.clearSlot hx hleaf (h.soft x hi)) (wp_and (h.ptUnmap hroot
      (hs.user_counted h.dead hpd)) (h.inv.unmapped h.dead hpd))) ?_
    rintro r s' ⟨⟨hr, _⟩, ⟨ht, _⟩, hw⟩
    rw [panicOn, check, if_pos (hr hne)]
    exact wp_pure.mpr ⟨v, ht, hw.kept, fun r va' hr => hw.look r va' hr⟩

end Entries

def mapCount (start len : BitVec 64) : ℕ := (mapEnd start len).toNat / 4096 - start.toNat / 4096

lemma toNat_mapPage (hj : j ≤ mapCount start len) :
    (pgRoundDown start + BitVec.ofNat 64 (4096 * j)).toNat = start.toNat / 4096 * 4096 + 4096 * j := by
  have := (mapEnd start len).isLt
  have := start.isLt
  rw [mapCount] at hj
  rw [toNat_add_ofNat (by rw [toNat_pgRoundDown]; omega), toNat_pgRoundDown]

lemma mapPage_lt (hj : j ≤ mapCount start len) :
    decide (pgRoundDown start + BitVec.ofNat 64 (4096 * j) < mapEnd start len) = decide (j < mapCount start len) := by
  have hm : (mapEnd start len).toNat % 4096 = 0 := by
    rw [show mapEnd start len = pgRoundDown (start + len - 1 + 4095) from rfl, toNat_pgRoundDown]
    omega
  rw [decide_eq_decide, lt_def, toNat_mapPage hj]
  rw [mapCount] at hj ⊢
  omega

lemma mapCount_lt (start len : BitVec 64) : mapCount start len < allPages := by
  have := (mapEnd start len).isLt
  rw [mapCount, allPages]
  omega

lemma mapCount_eq (hlen : 0 < len.toNat) (hend : start.toNat + len.toNat + 4094 < 2 ^ 64)
    (hlast : (start.toNat + len.toNat - 1) % 4096 ≠ 0) : mapCount start len = pageSpan start len := by
  have hl : (start + len - 1).toNat = start.toNat + len.toNat - 1 := by
    have h1 : (1 : BitVec 64).toNat = 1 := rfl
    rw [toNat_sub, toNat_add, h1]
    omega
  rw [mapCount, mapEnd, toNat_pgRoundUpVa (by omega), hl, pageSpan]
  omega

lemma mapCount_le (hlen : 0 < len.toNat) (hend : start.toNat + len.toNat ≤ 2 ^ 64) :
    mapCount start len ≤ pageSpan start len := by
  have h1 : (1 : BitVec 64).toNat = 1 := rfl
  have h4 : (4095 : BitVec 64).toNat = 4095 := rfl
  have hl : (start + len - 1).toNat = start.toNat + len.toNat - 1 := by
    rw [toNat_sub, toNat_add, h1]
    omega
  rw [mapCount, mapEnd, show pgRoundUpVa (start + len - 1) = pgRoundDown (start + len - 1 + 4095) from rfl,
    toNat_pgRoundDown, toNat_add, hl, h4, pageSpan]
  omega

section Calls

lemma loud_sweep (hbody : ∀ va s, wp (body va) (fun _ _ => True) Loud s) (start len : BitVec 64) (s : Phys) :
    wp (whilePages (· < mapEnd start len) body allPages (pgRoundDown start)) (fun _ _ => True) Loud s :=
  wp_whilePages_count (I := fun _ _ => True) (mapCount_lt start len)
    (fun _ hj => (mapPage_lt (le_of_lt hj)).trans (decide_eq_true hj))
    ((mapPage_lt (le_refl _)).trans (decide_eq_false (lt_irrefl _))) trivial fun _ _ _ _ => hbody _ _

variable (h : Tidy L s v fl) (hpd : pd ∈ v.roots)
include h hpd

lemma Tidy.sweepRange (hfirst : ∀ old w, T old w → R old w) (hagain : ∀ old w w', R old w → T w w' → R old w')
    (hbody : ∀ va s' v', Tidy L s' v' fl → pd ∈ v'.roots → s'.ad = s.ad → wp (body va) (fun _ s2 => ∃ w,
      T (look s' pd va) w ∧ Alters L s' v' fl pd va w s2) NotRefZero s')
    (hloud : ∀ va s, wp (body va) (fun _ _ => True) Loud s) :
    wp (whilePages (· < mapEnd start len) body allPages (pgRoundDown start)) (fun _ s' =>
      Ranged L s v fl pd R (pgRoundDown start) (mapCount start len) s') Halts s := by
  refine wp_both (h.sweep (h.inv.shape.root_of_mem hpd) (mapCount_lt start len) (fun j hj => ?_) ?_ hfirst hagain
    fun _ s' v' _ ht hk _ => ?_) (loud_sweep hloud start len s) (fun _ _ hQ _ => hQ)
    fun _ hn hl => hl.imp_right fun hr => hr.resolve_right hn
  · exact (mapPage_lt (le_of_lt hj)).trans (decide_eq_true hj)
  · exact (mapPage_lt (le_refl _)).trans (decide_eq_false (lt_irrefl _))
  · exact hbody _ s' v' ht (hk.roots.symm ▸ hpd) hk.ad

lemma Tidy.sysMap (hperm : perm.toNat < 1024) : wp (sysMap pd start len perm) (fun r s' => r = 0 ∧
    Ranged L s v fl pd (Grants L s.ad perm) (pgRoundDown start) (mapCount start len) s') Halts s := by
  refine wp_seq (h.sweepRange hpd (T := Grants L s.ad perm) (fun _ _ => id) (fun _ _ _ => .again)
    (fun va s' v' ht hr had => ?_) fun va s => loud_mapPage pd perm va s) fun _ _ h' => wp_pure.mpr ⟨rfl, h'⟩
  rw [← had]
  exact wp_mono (ht.mapPage hr hperm) fun _ _ ⟨w, hw, ha⟩ => ⟨w, hw.grants, ha⟩

/-- The page of `va` is mapped through an address below the threshold. -/
def Low (start : BitVec 64) (n : ℕ) (va : BitVec 64) : Prop :=
  ∃ j < n, SamePage va (start + BitVec.ofNat 64 (4096 * j)) ∧ start + BitVec.ofNat 64 (4096 * j) < passiveThreshold

lemma Tidy.sysMap_passive (hperm : perm.toNat < 1024) (h0 : pteToPa (look s pd va) = 0) :
    wp (Mm.sysMap pd start len perm) (fun _ s' =>
      (Low (pgRoundDown start) (mapCount start len) va → pteToPa (look s' pd va) ≠ 0) ∧
      (¬ Low (pgRoundDown start) (mapCount start len) va → look s pd va = perm → look s' pd va = perm))
        NotRefZero s := by
  have hroot := h.inv.shape.root_of_mem hpd
  refine wp_seq (wp_whilePages_count (I := fun j s' => (∃ v', Tidy L s' v' fl ∧ Kept s v s' v') ∧
    (Low (pgRoundDown start) j va → pteToPa (look s' pd va) ≠ 0) ∧
    (¬ Low (pgRoundDown start) j va → look s pd va = perm → look s' pd va = perm)) (mapCount_lt start len)
    (fun _ hj => (mapPage_lt (le_of_lt hj)).trans (decide_eq_true hj))
    ((mapPage_lt (le_refl _)).trans (decide_eq_false (lt_irrefl _)))
    ⟨⟨v, h, .refl s v⟩, fun ⟨_, hj, _⟩ => absurd hj (not_lt_zero _), fun _ => id⟩ ?_) fun _ _ h' => wp_pure.mpr h'.2
  rintro j s' - ⟨⟨v', ht, hk⟩, hlow, hhigh⟩
  refine wp_mono (ht.mapPage (hk.roots.symm ▸ hpd) hperm) ?_
  rintro _ s2 ⟨w, hw, v2, ht2, hk2, hl⟩
  have hsucc : Low (pgRoundDown start) (j + 1) va ↔ Low (pgRoundDown start) j va ∨
      SamePage va (pgRoundDown start + BitVec.ofNat 64 (4096 * j)) ∧
        pgRoundDown start + BitVec.ofNat 64 (4096 * j) < passiveThreshold := by
    unfold Low
    rw [exists_lt_succ_right]
  rw [hsucc, hl pd va ((hk.root h.inv.shape ht.inv.shape).mpr hroot)]
  refine ⟨⟨v2, ht2, hk.trans hk2⟩, ?_⟩
  unfold put
  split
  · next hs =>
    rw [← hs.2.look s' pd] at hw
    refine ⟨fun hl => ?_, fun hl hp => ?_⟩
    · rcases hl with hl | hl
      · rcases hw.grants with ⟨hn, rfl⟩ | ⟨hz, -⟩
        · exact hn
        · exact absurd hz (hlow hl)
      · exact hw.low hl.2
    · have hs' := hhigh (fun hc => hl (.inl hc)) hp
      refine hw.high (fun hc => hl (.inr ⟨hs.2, hc⟩)) ?_
      rw [hs', ← hp]
      exact h0
  · next hs =>
    have hno : ¬ (SamePage va (pgRoundDown start + BitVec.ofNat 64 (4096 * j)) ∧
        pgRoundDown start + BitVec.ofNat 64 (4096 * j) < passiveThreshold) := fun hc => hs ⟨rfl, hc.1⟩
    rw [or_iff_left hno]
    exact ⟨hlow, hhigh⟩

lemma Tidy.sysMprotect (prot : BitVec 32) : wp (sysMprotect pd start len prot) (fun r s' => r = 0 ∧
    Ranged L s v fl pd (Reprotects s.ad (getPermByProt prot)) (pgRoundDown start) (mapCount start len) s') Halts s := by
  have hp := getPermByProt_lt prot
  refine wp_seq (h.sweepRange hpd (T := Reprotects s.ad (getPermByProt prot)) (fun _ _ => id)
    (fun _ _ _ => .again hp (getPermByProt_V prot)) (fun va s' v' ht hr had => ?_)
    fun va s => loud_protectPage pd _ va s) fun _ _ h' => wp_pure.mpr ⟨rfl, h'⟩
  rw [← had]
  exact ht.protectPage hr hp

lemma Tidy.sysUnmap (hstart : start.toNat % 4096 = 0) (hlen : 0 < len.toNat)
    (hend : start.toNat + len.toNat ≤ 2 ^ 38) :
    wp (sysUnmap pd start len) (fun r s' => r = 0 ∧
      Ranged L s v fl pd (fun old w => old ≠ 0 ∧ w = 0) start (pageSpan start len) s')
      (fun _ => ∃ va, Meets start len va ∧ look s pd va = 0) s := by
  have hdown : pgRoundDown start = start := eq_of_toNat_eq (by rw [toNat_pgRoundDown]; omega)
  have hlast : (start + len - 1).toNat = start.toNat + len.toNat - 1 := by
    have h1 : (1 : BitVec 64).toNat = 1 := rfl
    rw [toNat_sub, toNat_add, h1]
    omega
  have hpage : ∀ j ≤ pageSpan start len, (start + BitVec.ofNat 64 (4096 * j)).toNat = start.toNat + 4096 * j :=
    fun j hj => toNat_add_ofNat (by rw [pageSpan] at hj; omega)
  have hmore : ∀ j ≤ pageSpan start len, decide (start + BitVec.ofNat 64 (4096 * j) ≤ unmapEnd start len) =
      decide (j < pageSpan start len) := fun j hj => by
    rw [decide_eq_decide, le_def, hpage j hj, unmapEnd, toNat_pgRoundDown, hlast, pageSpan]
    omega
  rw [Mm.sysUnmap, pgRoundUpVa_eq hstart]
  refine wp_seq (h.sweep (T := fun old w => old ≠ 0 ∧ w = 0) (h.inv.shape.root_of_mem hpd) ?_
    (fun j hj => (hmore j (le_of_lt hj)).trans (decide_eq_true hj))
    ((hmore _ (le_refl _)).trans (decide_eq_false (lt_irrefl _))) (fun _ _ => id)
    (fun _ _ _ ho hw => ⟨ho.1, hw.2⟩) fun j s' v' hj ht hk hr => ?_) fun _ _ h' => wp_pure.mpr ⟨rfl, h'⟩
  · rw [pageSpan, allPages]
    omega
  · refine wp_mono (wp_mono_error (ht.unmapPage (hk.roots.symm ▸ hpd)) fun _ h0 =>
      ⟨start + BitVec.ofNat 64 (4096 * j), ?_, ?_⟩) fun _ _ ha => ⟨0, ⟨ha.1, rfl⟩, ha.2⟩
    · refine (meets_iff hlen (by omega)).mpr ⟨j, hj, ?_⟩
      rw [hdown]
      exact samePage_refl _
    rw [← hr.outside pd _ (h.inv.shape.root_of_mem hpd) fun hc => not_pages_of_lt ?_ hc.2]
    · exact h0
    · rw [pageSpan] at hj
      omega

end Calls

end FarmOS.Mm

import FarmOS.Mm.Content

/-! What a user load or store, and a kernel copy to or from user memory, does to the bytes of every
process. -/

namespace FarmOS.Mm

open Lib List

variable {L : Layout} {img : Image L} {s s' s1 : Phys} {v v' v1 : View} {roots fl : List ℕ} {f pd r off : ℕ}
  {va va' uptr : BitVec 64} {bs data : List Byte} {perm : Pte} {len : ℕ} {b : Byte}

lemma samePage_align (va : BitVec 64) : SamePage (va &&& ~~~0xfff#64) va := by
  have hmask : ∀ m < 64, (~~~0xfff#64).getLsbD m = decide (12 ≤ m) := by decide
  have h : ∀ n, 12 ≤ n → (va &&& ~~~0xfff#64) >>> n = va >>> n := by
    intro n hn
    apply BitVec.eq_of_getLsbD_eq
    intro i hi
    rw [BitVec.getLsbD_ushiftRight, BitVec.getLsbD_ushiftRight, BitVec.getLsbD_and]
    by_cases hlt : n + i < 64
    · rw [hmask _ hlt, decide_eq_true (by omega), Bool.and_true]
    · rw [BitVec.getLsbD_of_ge va _ (by omega), Bool.false_and]
  exact ⟨congrArg (fun x => (x &&& 0x1ff).toNat) (h 30 (by decide)),
    congrArg (fun x => (x &&& 0x1ff).toNat) (h 21 (by decide)),
    congrArg (fun x => (x &&& 0x1ff).toNat) (h 12 (by decide))⟩

section

variable (h : Walled L s v fl)
include h

lemma target_of_allows (hpd : pd ∈ v.roots) (ha : allows perm (look s pd va) = true) :
    target (look s pd va) = some (paToPage (pteToPa (look s pd va))) ∧ has (look s pd va) perm = true := by
  rw [allows, Bool.and_eq_true, Bool.and_eq_true] at ha
  obtain ⟨f, hf⟩ := (h.iso.sober pd va hpd).ram ha.1.1
  exact ⟨hf.trans (by rw [((target_eq_some_iff _ _).mp hf).2]), ha.2⟩

omit h in
lemma Usable.fault {write : Bool} {pte : Pte} (h : Usable write pte) (ha : ¬ allows (permOf write) pte = true) :
    CowFault (permOf write) pte ∨ PassiveFault (permOf write) pte := by
  by_cases hc : CowFault (permOf write) pte
  · exact .inl hc
  · refine .inr ⟨hc, fun hV => ?_, h.1⟩
    by_cases hp : has pte (permOf write) = true
    · refine ha ?_
      rw [allows, hV, h.1, hp]
      rfl
    · obtain ⟨rfl, hcow⟩ := h.2.resolve_left hp
      refine hc ⟨by decide, ?_, h.1, hp, hcow⟩
      rintro rfl
      exact absurd hV (by decide)

lemma Walled.userAccess (hpd : pd ∈ v.roots) (write : Bool) :
    wp (userAccess (permOf write) pd va) (fun ok s' => ∃ v', Steady L s v fl s' v' ∧
      (ok = true → allows (permOf write) (look s' pd va) = true) ∧
        (Usable write (look s pd va) → ok = true)) NotRefZero s := by
  have hp : SamePage (va &&& ~~~0xfff) va := samePage_align va
  simp only [Mm.userAccess, trapPgfault, wp_bind, wp_ptLookup, wp_ite, wp_pure]
  refine ⟨fun ha => ⟨v, h.steady, fun _ => ha, fun _ => trivial⟩, fun hna => ?_⟩
  refine wp_mono (h.pageFaultHandler hpd write) ?_
  rintro r s' ⟨v', hc, hr⟩
  refine ⟨fun h0 => ⟨v', hc, by simp, fun hus => ?_⟩, fun h0 => ⟨v', hc, id, fun hus => ?_⟩⟩
  all_goals rw [hp.look s pd, hp.look s' pd] at hr
  · rcases hr with ⟨hr, -⟩ | ⟨-, -, hcow, hpas⟩
    · exact absurd hr h0
    · exact absurd (hus.fault hna) (not_or.mpr ⟨hcow, hpas⟩)
  · rcases hr with ⟨-, hr⟩ | ⟨-, -, hcow, hpas⟩
    · exact hr hus
    · exact absurd (hus.fault hna) (not_or.mpr ⟨hcow, hpas⟩)

lemma Walled.wp_userAccess (hu : 0 < L.pageused) (hpd : pd ∈ v.roots) (perm : Pte) :
    wp (Mm.userAccess perm pd va) (fun _ _ => True) Mild s := by
  simp only [Mm.userAccess, trapPgfault, wp_bind, wp_ptLookup, wp_ite, wp_pure]
  exact ⟨fun _ => trivial, fun _ => wp_mono (h.wp_pageFaultHandler hpd hu) fun _ _ _ =>
    ⟨fun _ => trivial, fun _ => trivial⟩⟩

lemma Walled.userLoad (hpd : pd ∈ v.roots) : wp (userLoad pd va) (fun r s' => ∃ v',
    Steady L s v fl s' v' ∧ (∀ b, r = some b → b = content s pd va ∧ has (look s pd va) pteU = true) ∧
      (Usable false (look s pd va) → r ≠ none)) NotRefZero s := by
  simp only [Mm.userLoad, wp_bind]
  refine wp_mono (h.userAccess hpd false) ?_
  rintro ok s' ⟨v', hc, hok, hus⟩
  simp only [wp_ite, wp_bind, wp_ptLookup, wp_get, wp_pure]
  refine ⟨fun ho => ⟨v', hc, fun b hb => ?_, fun _ => by simp⟩,
    fun hn => ⟨v', hc, by simp, fun hu => absurd (hus hu) hn⟩⟩
  have hal := hok ho
  have ht := (target_of_allows hc.walled (hc.roots.symm ▸ hpd) hal).1
  refine ⟨?_, ?_⟩
  · rw [← Option.some.inj hb, ← hc.quiet.content pd va hpd]
    unfold content
    rw [ht]
  · rw [allows, Bool.and_eq_true, Bool.and_eq_true] at hal
    exact (hc.quiet.user pd va hpd).symm.trans hal.1.2

lemma Walled.wp_userLoad (hu : 0 < L.pageused) (hpd : pd ∈ v.roots) :
    wp (Mm.userLoad pd va) (fun _ _ => True) Mild s := by
  simp only [Mm.userLoad, wp_bind]
  refine wp_mono (h.wp_userAccess hu hpd pteR) fun ok s' _ => ?_
  simp only [wp_ite, wp_bind, wp_ptLookup, wp_get, wp_pure]
  exact ⟨fun _ => trivial, fun _ => trivial⟩

lemma Walled.load_content (hu : 0 < L.pageused) (hpd : pd ∈ v.roots) (hus : Usable false (look s pd va)) :
    wp (Mm.userLoad pd va) (fun r _ => r = some (content s pd va)) OutOfMemory s := by
  refine wp_mono (wp_outOfMemory (h.userLoad hpd) (h.wp_userLoad hu hpd)) fun r _ ⟨_, _, hb, hsome⟩ => ?_
  obtain ⟨b, hr⟩ := Option.ne_none_iff_exists'.mp (hsome hus)
  rw [hr, (hb b hr).1]

end

lemma Sealed.userLoad (h : Sealed L img s v fl) (hpd : pd ∈ v.roots) :
    wp (userLoad pd va) (fun r s' => ∃ v', Calm L img s v fl s' v' ∧
      (∀ b, r = some b → b = content s pd va ∧ has (look s pd va) pteU = true) ∧
        (Usable false (look s pd va) → r ≠ none)) NotRefZero s :=
  wp_mono (h.toWalled.userLoad hpd) fun _ _ ⟨v', hs, h'⟩ => ⟨v', h.calm hs, h'⟩

def Aliased (s : Phys) (pd : ℕ) (hit : BitVec 64 → Option Byte) (r : ℕ) (va : BitVec 64) : Prop :=
  ∃ va', hit va' ≠ none ∧ va'.toNat < 2 ^ 38 ∧ Kin s r va pd va' ∧ ¬ (r = pd ∧ SamePage va va')

lemma Aliased.mono {hit hit' : BitVec 64 → Option Byte} (h : Aliased s pd hit r va)
    (hh : ∀ va', hit va' ≠ none → hit' va' ≠ none) : Aliased s pd hit' r va :=
  let ⟨va', h1, h2⟩ := h
  ⟨va', hh va' h1, h2⟩

lemma Aliased.old {hit : BitVec 64 → Option Byte} (h : Aliased s' pd hit r va)
    (hk : ∀ va', Kin s' r va pd va' → r = pd ∧ SamePage va va' ∨ Kin s r va pd va') : Aliased s pd hit r va :=
  let ⟨va', h1, h2, h3, h4⟩ := h
  ⟨va', h1, h2, (hk va' h3).resolve_left h4, h4⟩

structure Stored (roots : List ℕ) (pd : ℕ) (hit : BitVec 64 → Option Byte) (s s' : Phys) : Prop where
  content (r : ℕ) (va : BitVec 64) : r ∈ roots → va.toNat < 2 ^ 38 →
    ¬ (Shared (look s r va) ∧ Aliased s pd hit r va) →
    content s' r va = if r = pd then (hit va).getD (content s r va) else content s r va
  kin (r : ℕ) (va : BitVec 64) (r' : ℕ) (va' : BitVec 64) : r ∈ roots → r' ∈ roots → Kin s' r va r' va' →
    r = r' ∧ SamePage va va' ∨ Kin s r va r' va'
  user (r : ℕ) (va : BitVec 64) : r ∈ roots → has (look s' r va) pteU = has (look s r va) pteU
  shared (r : ℕ) (va : BitVec 64) : r ∈ roots → has (look s' r va) pteShared = has (look s r va) pteShared
  usable (write : Bool) (r : ℕ) (va : BitVec 64) : r ∈ roots → Usable write (look s r va) →
    Usable write (look s' r va)

lemma Quiet.stored (h : Quiet roots s s') (pd : ℕ) : Stored roots pd (fun _ => none) s s' where
  content r va hr _ _ := by
    rw [h.content r va hr]
    split <;> rfl
  __ := h

section Sequence

variable {hit hit' : BitVec 64 → Option Byte} (hpd : pd ∈ roots)
include hpd

lemma Stored.trans (h : Stored roots pd hit s s1) (h' : Stored roots pd hit' s1 s') :
    Stored roots pd (fun va => (hit' va).or (hit va)) s s' where
  content r va hr hva hsh := by
    have hleft : ∀ va', hit va' ≠ none → (hit' va').or (hit va') ≠ none := fun va' hn => by
      cases hit' va' <;> simp [hn]
    have hright : ∀ va', hit' va' ≠ none → (hit' va').or (hit va') ≠ none := fun va' hn => by
      cases h' : hit' va' <;> simp_all
    have hsh1 : ¬ (Shared (look s r va) ∧ Aliased s pd hit r va) := fun ⟨hS, ha⟩ => hsh ⟨hS, ha.mono hleft⟩
    have hsh2 : ¬ (Shared (look s1 r va) ∧ Aliased s1 pd hit' r va) := fun ⟨hS, ha⟩ =>
      hsh ⟨(h.shared r va hr).symm.trans hS, (ha.old fun va' => h.kin r va pd va' hr hpd).mono hright⟩
    rw [h'.content r va hr hva hsh2, h.content r va hr hva hsh1]
    split
    · cases hit' va <;> rfl
    · rfl
  kin r va r' va' hr hr' hk := (h'.kin r va r' va' hr hr' hk).elim .inl (h.kin r va r' va' hr hr')
  user r va hr := (h'.user r va hr).trans (h.user r va hr)
  shared r va hr := (h'.shared r va hr).trans (h.shared r va hr)
  usable write r va hr hu := h'.usable write r va hr (h.usable write r va hr hu)

lemma Stored.after (h : Quiet roots s s1) (h' : Stored roots pd hit s1 s') : Stored roots pd hit s s' := by
  simpa only [Option.or_none] using (h.stored pd).trans hpd h'

end Sequence

lemma Walled.of_agrees (h : Walled L s v fl) (ha : Agrees v s s') (hi : Inv L s' v fl) : Walled L s' v fl := by
  have hlook : ∀ r va, r ∈ v.roots → look s' r va = look s r va := fun r va hr =>
    ha.look h.inv.shape h.dead (h.inv.shape.root_of_mem hr)
  refine ⟨hi, h.dead, h.heap, fun r va f hr ht => ?_, ⟨fun r va va' hp => hp.look s' r, fun r va hr => ?_,
    fun r va r' va' f hr hr' ht ht' hW => ?_⟩, fun va => ?_⟩
  · exact h.plain r va f hr (hlook r va hr ▸ ht)
  · rw [hlook r va hr]
    exact h.iso.sober r va hr
  · rw [hlook r va hr] at ht hW ⊢
    rw [hlook r' va' hr'] at ht' ⊢
    exact h.iso.alone r va r' va' f hr hr' ht ht' hW
  · rw [ha.kernPd, ha.look h.inv.shape h.dead ((h.inv.shape.root _).mpr (.inl rfl))]
    exact h.kern va

lemma Sealed.of_agrees (h : Sealed L img s v fl) (ha : Agrees v s s') (hi : Inv L s' v fl)
    (had : s'.ad = s.ad) : Sealed L img s' v fl := by
  refine h.of_fixed (h.toWalled.of_agrees ha hi) rfl had fun r va hr _ => ?_
  exact ha.look h.inv.shape h.dead (h.inv.shape.root_of_mem hr)

lemma writeBytes_fields (s : Phys) (f off : ℕ) (bs : List Byte) : (s.writeBytes f off bs).ref = s.ref ∧
    (s.writeBytes f off bs).pageFreeList = s.pageFreeList ∧ (s.writeBytes f off bs).pageleft = s.pageleft ∧
    (s.writeBytes f off bs).kernPd = s.kernPd ∧ (s.writeBytes f off bs).ident = s.ident ∧
    (s.writeBytes f off bs).ad = s.ad := by
  induction bs generalizing s off with
  | nil => exact ⟨rfl, rfl, rfl, rfl, rfl, rfl⟩
  | cons b bs ih => exact ih (s.writeByte f off b) (off + 1)

def covers (a : ℕ) (bs : List Byte) (va : BitVec 64) : Option Byte :=
  if a ≤ va.toNat then bs[va.toNat - a]? else none

lemma samePage_canonical (h : va.toNat < 2 ^ 39) (h' : va'.toNat < 2 ^ 39) :
    SamePage va va' ↔ va.toNat / 4096 = va'.toNat / 4096 := by
  rw [samePage_iff, vpn_eq h, vpn_eq h']

lemma covers_page (hlen : pageOff va + bs.length ≤ 4096) (hva : va.toNat < 2 ^ 38) (hva' : va'.toNat < 2 ^ 38)
    (hp : ¬ SamePage va' va) : covers va.toNat bs va' = none := by
  rw [samePage_canonical (by omega) (by omega)] at hp
  have hoff : pageOff va = va.toNat % 4096 := rfl
  unfold covers
  split
  · rw [getElem?_eq_none_iff]
    omega
  · rfl

lemma readByte_covers (hva : va.toNat < 2 ^ 38) (hva' : va'.toNat < 2 ^ 38) (hp : SamePage va' va) :
    readByte (s.writeBytes f (pageOff va) bs) f (pageOff va') =
      (covers va.toNat bs va').getD (readByte s f (pageOff va')) := by
  rw [samePage_canonical (by omega) (by omega)] at hp
  have hoff : pageOff va = va.toNat % 4096 := rfl
  have hoff' : pageOff va' = va'.toNat % 4096 := rfl
  rw [readByte_writeBytes, covers]
  by_cases hle : va.toNat ≤ va'.toNat
  · rw [if_pos hle, if_pos (by omega), show pageOff va' - pageOff va = va'.toNat - va.toNat by omega]
    rfl
  · rw [if_neg hle, if_neg (by omega)]
    rfl

lemma Walled.write (h : Walled L s v fl) (bs : List Byte) (hpd : pd ∈ v.roots) (hva : va.toNat < 2 ^ 38)
    (ha : allows pteW (look s pd va) = true) (hlen : pageOff va + bs.length ≤ 4096) :
    let s' := s.writeBytes (paToPage (pteToPa (look s pd va))) (pageOff va) bs
    Inv L s' v fl ∧ Agrees v s s' ∧ s'.ad = s.ad ∧ Stored v.roots pd (covers va.toNat bs) s s' := by
  intro s'
  obtain ⟨ht, hW⟩ := target_of_allows h hpd ha
  obtain ⟨f, hf⟩ : ∃ f, paToPage (pteToPa (look s pd va)) = f := ⟨_, rfl⟩
  obtain ⟨h1, h2, h3, h4, h5, h6⟩ := writeBytes_fields s (paToPage (pteToPa (look s pd va))) (pageOff va) bs
  have hs' : s' = s.writeBytes f (pageOff va) bs := by rw [← hf]
  rw [hf] at ht
  have h0 := h.plain pd va f hpd ht
  have hag : Agrees v s s' := ⟨fun t ht => hs' ▸ mem_writeBytes_ne fun he => ht (he ▸ h0), h4, h5⟩
  have hlook : ∀ r va', r ∈ v.roots → look s' r va' = look s r va' :=
    fun r va' hr => hag.look h.inv.shape h.dead (h.inv.shape.root_of_mem hr)
  refine ⟨⟨h.inv.shape.of_agrees hag, h.inv.account.congr h1 h2 h3 h4 fun g => by rw [hag.uses]⟩, hag, h6,
    fun r va' hr hlt hsh => ?_, fun r va1 r' va2 hr hr' hk => ?_, fun r va' hr => by rw [hlook r va' hr],
    fun r va' hr => by rw [hlook r va' hr], fun write r va' hr hus => by rwa [hlook r va' hr]⟩
  by_cases he : r = pd ∧ SamePage va' va
  · obtain ⟨rfl, hp⟩ := he
    unfold content
    rw [hlook r va' hr, hp.look s r, ht, if_pos rfl, hs']
    exact readByte_covers hva hlt hp
  · have hkeep : content s' r va' = content s r va' := by
      cases bs with
      | nil => rfl
      | cons b bs =>
        refine content_congr (by rw [hlook r va' hr]) fun g hg => hs' ▸ mem_writeBytes_ne ?_
        rintro rfl
        rcases h.iso.alone pd va r va' g hpd hr ht hg hW with hs | hs
        · exact he ⟨hs.1.symm, samePage_symm hs.2⟩
        · exact hsh ⟨hs.2, va, by simp [covers], hva, ⟨g, hg, ht⟩, he⟩
    rw [hkeep]
    split
    · next hr' => rw [covers_page hlen hva hlt fun hp => he ⟨hr', hp⟩, Option.getD_none]
    · rfl
  · exact .inr (by rwa [Kin, hlook r va1 hr, hlook r' va2 hr'] at hk)

lemma covers_append (a : ℕ) (bs cs : List Byte) (va : BitVec 64) :
    covers a (bs ++ cs) va = (covers (a + bs.length) cs va).or (covers a bs va) := by
  unfold covers
  by_cases h : a + bs.length ≤ va.toNat
  · rw [if_pos h, if_pos (by omega), if_pos (by omega), getElem?_append_right (by omega),
      getElem?_eq_none (l := bs) (by omega), Option.or_none, Nat.sub_sub]
  · rw [if_neg h, Option.none_or]
    split
    · exact getElem?_append_left (by omega)
    · rfl

structure Stable (L : Layout) (fl : List ℕ) (K : Phys → View → Prop) : Prop where
  walled (s : Phys) (v : View) : K s v → Walled L s v fl
  steady (s : Phys) (v : View) (s' : Phys) (v' : View) : K s v → Steady L s v fl s' v' → K s' v'
  agrees (s : Phys) (v : View) (s' : Phys) : K s v → Agrees v s s' → Inv L s' v fl → s'.ad = s.ad → K s' v

lemma walled_stable (L : Layout) (fl : List ℕ) : Stable L fl (fun s v => Walled L s v fl) :=
  ⟨fun _ _ h => h, fun _ _ _ _ _ h => h.walled, fun _ _ _ h ha hi _ => h.of_agrees ha hi⟩

lemma sealed_stable (img : Image L) (fl : List ℕ) : Stable L fl (fun s v => Sealed L img s v fl) :=
  ⟨fun _ _ h => h.toWalled, fun _ _ _ _ h hs => (h.calm hs).inner, fun _ _ _ h => h.of_agrees⟩

section

variable {K : Phys → View → Prop} (hK : Stable L fl K)
include hK

lemma Stable.write (h : K s v) (bs : List Byte) (hpd : pd ∈ v.roots) (hva : va.toNat < 2 ^ 38)
    (ha : allows pteW (look s pd va) = true) (hlen : pageOff va + bs.length ≤ 4096) :
    K (s.writeBytes (paToPage (pteToPa (look s pd va))) (pageOff va) bs) v ∧
      Stored v.roots pd (covers va.toNat bs) s
        (s.writeBytes (paToPage (pteToPa (look s pd va))) (pageOff va) bs) := by
  obtain ⟨hinv, hag, had, hst⟩ := (hK.walled s v h).write bs hpd hva ha hlen
  exact ⟨hK.agrees s v _ h hag hinv had, hst⟩

lemma Stable.userStore (h : K s v) (hpd : pd ∈ v.roots) (hva : va.toNat < 2 ^ 38) :
    wp (userStore pd va b) (fun ok s' => (Usable true (look s pd va) → ok = true) ∧ ∃ v', K s' v' ∧
      v'.roots = v.roots ∧ Stored v.roots pd (if ok then covers va.toNat [b] else fun _ => none) s s')
        NotRefZero s := by
  simp only [Mm.userStore, wp_bind]
  refine wp_mono ((hK.walled s v h).userAccess hpd true) ?_
  rintro ok s' ⟨v', hc, hok, hus⟩
  have hs' := hK.steady s v s' v' h hc
  simp only [wp_ite, wp_bind, wp_ptLookup, wp_modify, wp_pure]
  refine ⟨fun ho => ⟨fun _ => trivial, v', ?_⟩,
    fun ho => ⟨fun hu => absurd (hus hu) ho, v', hs', hc.roots, hc.quiet.stored pd⟩⟩
  have hlen : pageOff va + [b].length ≤ 4096 := Nat.mod_lt _ (by decide)
  obtain ⟨hk, hst⟩ := hK.write hs' [b] (hc.roots.symm ▸ hpd) hva (hok ho) hlen
  rw [hc.roots] at hst
  exact ⟨hk, hc.roots, .after hpd hc.quiet hst⟩

end

lemma Walled.wp_userStore (h : Walled L s v fl) (hu : 0 < L.pageused) (hpd : pd ∈ v.roots) :
    wp (Mm.userStore pd va b) (fun _ _ => True) Mild s := by
  simp only [Mm.userStore, wp_bind]
  refine wp_mono (h.wp_userAccess hu hpd pteW) fun ok s' _ => ?_
  simp only [wp_ite, wp_bind, wp_ptLookup, wp_modify, wp_pure]
  exact ⟨fun _ => trivial, fun _ => trivial⟩

lemma Walled.testPageFault (h : Walled L s v fl) (hu : 0 < L.pageused) (hpd : pd ∈ v.roots) (write : Bool)
    (hus : Usable write (look s pd va)) : wp (testPageFault pd va (look s pd va) (permOf write)) (fun _ s' =>
      ∃ v', Steady L s v fl s' v' ∧ allows (permOf write) (look s' pd va) = true) OutOfMemory s := by
  have hWR : has pteW pteR = false := by decide
  have hRW : has pteR pteW = false := by decide
  have hWW : has pteW pteW = true := by decide
  have hlazy := (h.iso.sober pd va hpd).lazy
  have hskip : has (look s pd va) (permOf write) = true →
      ¬ (has (permOf write) pteW = true ∧ ¬ has (look s pd va) pteW = true) ∧
        ¬ (has (permOf write) pteR = true ∧ ¬ has (look s pd va) pteR = true) := by
    intro hp
    cases write with
    | true => exact ⟨fun h' => h'.2 hp, fun h' => absurd (hWR.symm.trans h'.1) (by simp)⟩
    | false => exact ⟨fun h' => absurd (hRW.symm.trans h'.1) (by simp), fun h' => h'.2 hp⟩
  unfold Mm.testPageFault
  by_cases hV : has (look s pd va) pteV = true
  · rw [if_neg (not_not.mpr hV)]
    by_cases hp : has (look s pd va) (permOf write) = true
    · rw [if_neg (hskip hp).1, if_neg (hskip hp).2]
      refine wp_bind.mpr (wp_pure.mpr (wp_bind.mpr (wp_pure.mpr (wp_pure.mpr ⟨v, h.steady, ?_⟩))))
      rw [allows, hV, hus.1, hp]
      rfl
    · obtain ⟨rfl, hc⟩ := hus.2.resolve_left hp
      have hno : ¬ (has (permOf true) pteR = true ∧ ¬ has (look s pd va) pteR = true) := fun h' =>
        absurd (hWR.symm.trans h'.1) (by simp)
      rw [if_pos ⟨hWW, hp⟩]
      refine wp_seq (wp_outOfMemory (h.pageFaultHandler hpd true) (h.wp_pageFaultHandler hpd hu)) ?_
      rintro r s' ⟨v', hs, hr⟩
      rw [if_neg hno, panicOn, check, wp_bind, wp_ite]
      rcases hr with hr | hr
      · exact ⟨fun _ => wp_pure.mpr (wp_pure.mpr ⟨v', hs, hr.2 hus⟩), fun hn => absurd hr.1 hn⟩
      · refine absurd ⟨hWW, ?_, hus.1, hp, hc⟩ hr.2.2.1
        intro h0
        rw [h0] at hV
        exact absurd hV (by decide)
  · rw [if_pos hV, wp_bind]
    have hp : has (look s pd va) (permOf write) = true := hus.2.resolve_right fun h' => hV (hlazy h'.2)
    refine wp_mono (wp_outOfMemory (h.pageFaultHandler hpd write) (h.wp_pageFaultHandler hpd hu)) ?_
    rintro r s' ⟨v', hs, hr⟩
    rw [if_neg (hskip hp).1, if_neg (hskip hp).2]
    refine wp_pure.mpr ⟨v', hs, ?_⟩
    rcases hr with hr | hr
    · exact hr.2 hus
    · exact absurd ⟨hr.2.2.1, hV, hus.1⟩ hr.2.2.2

structure Transfers {κ : Type} (K : Phys → View → Prop) (roots : List ℕ) (pd : ℕ) (uptr : BitVec 64)
    (len : ℕ) (write : Bool) (callback : Callback κ) (I : ℕ → κ → Phys → Prop) (P : κ → Phys → Prop) : Prop where
  usable (i : ℕ) (buf : κ) (s : Phys) : I i buf s → i < len → Usable write (look s pd (uptr + BitVec.ofNat 64 i))
  calm (i : ℕ) (buf : κ) (s s' : Phys) : I i buf s → Quiet roots s s' → I i buf s'
  chunk (i ulen : ℕ) (buf : κ) (s : Phys) (v : View) : I i buf s → K s v → v.roots = roots →
    0 < ulen → i + ulen ≤ len → pageOff (uptr + BitVec.ofNat 64 i) + ulen ≤ 4096 →
    allows (permOf write) (look s pd (uptr + BitVec.ofNat 64 i)) = true →
    wp (callback (paToPage (pteToPa (look s pd (uptr + BitVec.ofNat 64 i))))
      (pageOff (uptr + BitVec.ofNat 64 i)) i ulen buf) (fun r s' => (∃ v', K s' v' ∧ v'.roots = roots) ∧
        if r.2 = true then P r.1 s' else I (i + ulen) r.1 s') OutOfMemory s
  done (buf : κ) (s : Phys) : I len buf s → P buf s

lemma toNat_add_ofNat {i : ℕ} (h : uptr.toNat + i < 2 ^ 64) : (uptr + BitVec.ofNat 64 i).toNat = uptr.toNat + i := by
  rw [BitVec.toNat_add, BitVec.toNat_ofNat, Nat.add_mod_mod, Nat.mod_eq_of_lt h]

lemma pageOff_add (uptr : BitVec 64) (i : ℕ) : pageOff (uptr + BitVec.ofNat 64 i) = (uptr.toNat + i) % 4096 := by
  rw [pageOff, BitVec.toNat_add, BitVec.toNat_ofNat, pageSize]
  omega

section Copying

variable {K : Phys → View → Prop} (hK : Stable L fl K) (hu : 0 < L.pageused)
include hK hu

lemma Transfers.userToKernel {κ : Type} {write : Bool} {callback : Callback κ}
    {I : ℕ → κ → Phys → Prop} {P : κ → Phys → Prop}
    (ht : Transfers K roots pd uptr len write callback I P) (hpd : pd ∈ roots)
    (fuel : ℕ) {i uoff : ℕ} {buf : κ} (hf : len ≤ i + fuel) (hi : i ≤ len)
    (hoff : i < len → uoff = pageOff (uptr + BitVec.ofNat 64 i)) (hI : I i buf s)
    (hs : K s v) (hr : v.roots = roots) :
    wp (userToKernel pd uptr len callback (permOf write) fuel i uoff buf) (fun buf' s' => P buf' s' ∧
      ∃ v', K s' v' ∧ v'.roots = roots) OutOfMemory s := by
  induction fuel generalizing i uoff buf s v with
  | zero =>
    obtain rfl : i = len := by omega
    exact wp_pure.mpr ⟨ht.done _ _ hI, v, hs, hr⟩
  | succ fuel ih =>
    rw [Mm.userToKernel]
    by_cases hlt : i < len
    · rw [if_pos hlt, hoff hlt]
      have hw := hK.walled s v hs
      refine wp_bind.mpr (wp_ptLookup.mpr (wp_bind.mpr ?_))
      refine wp_mono (hw.testPageFault hu (hr.symm ▸ hpd) write (ht.usable i buf s hI hlt)) ?_
      rintro _ s1 ⟨v1, hst, ha⟩
      have hr1 : v1.roots = roots := hst.roots.trans hr
      refine wp_bind.mpr (wp_ptLookup.mpr (wp_bind.mpr ?_))
      have hlow := ((target_eq_some_iff _ _).mp (target_of_allows hst.walled (hr1.symm ▸ hpd) ha).1).1.2
      rw [check, if_pos (BitVec.le_trans (by decide) hlow), wp_pure]
      have hI1 : I i buf s1 := ht.calm i buf s s1 hI (hr ▸ hst.quiet)
      have hps : pageSize = 4096 := rfl
      have hmod := pageOff_add uptr i
      have hmod' := Nat.mod_lt (uptr.toNat + i) (show 4096 > 0 by decide)
      refine wp_seq (ht.chunk i _ buf s1 v1 hI1 (hK.steady s v s1 v1 hs hst) hr1
        (by omega) (by omega) (by omega) ha) ?_
      rintro x s' ⟨⟨v', hs', hr'⟩, hx⟩
      by_cases hstop : x.2 = true
      · rw [if_pos hstop] at hx ⊢
        exact wp_pure.mpr ⟨hx, v', hs', hr'⟩
      · rw [if_neg hstop] at hx ⊢
        refine ih (by omega) (by omega) (fun hlt' => ?_) hx hs' hr'
        rw [pageOff_add]
        omega
    · obtain rfl : i = len := by omega
      rw [if_neg hlt]
      exact wp_pure.mpr ⟨ht.done _ _ hI, v, hs, hr⟩

end Copying

def Accessible (s : Phys) (write : Bool) (pd : ℕ) (uptr : BitVec 64) (n : ℕ) : Prop :=
  uptr.toNat + n ≤ 2 ^ 38 ∧ ∀ i, i < n → Usable write (look s pd (uptr + BitVec.ofNat 64 i))

def contents (s : Phys) (pd : ℕ) (uptr : BitVec 64) (n : ℕ) : List Byte :=
  (range n).map fun j => content s pd (uptr + BitVec.ofNat 64 j)

lemma readBytes_content (ht : target (look s pd va) = some f) {n : ℕ} (hn : pageOff va + n ≤ 4096)
    (hva : va.toNat + n ≤ 2 ^ 38) :
    readBytes s f (pageOff va) n = (range n).map fun j => content s pd (va + BitVec.ofNat 64 j) := by
  refine map_congr_left fun j hj => ?_
  have hj := mem_range.mp hj
  have hadd : (va + BitVec.ofNat 64 j).toNat = va.toNat + j := toNat_add_ofNat (by omega)
  have hoff : pageOff va = va.toNat % 4096 := rfl
  have hp : SamePage (va + BitVec.ofNat 64 j) va := by
    rw [samePage_canonical (by omega) (by omega), hadd]
    omega
  rw [content, hp.look s pd, ht, pageOff, pageOff, hadd]
  have : (va.toNat + j) % pageSize = va.toNat % pageSize + j := by
    rw [pageSize]
    omega
  rw [this]

section Copying

variable {K : Phys → View → Prop} (hK : Stable L fl K)
include hK

lemma copyOut_transfers (hpd : pd ∈ roots) (ha : Accessible s true pd uptr data.length) :
    Transfers K roots pd uptr data.length true (copyOutCallback data)
      (fun i _ s' => Stored roots pd (covers uptr.toNat (data.take i)) s s')
      (fun _ s' => Stored roots pd (covers uptr.toNat data) s s') where
  usable i _ _ hI hi := hI.usable true pd _ hpd (ha.2 i hi)
  calm _ _ _ _ hI hq := by
    have := hI.trans hpd (hq.stored pd)
    simpa only [Option.none_or] using this
  chunk i ulen _ s1 v1 hI hs hr hpos hlen hoff hal := by
    have hb := ha.1
    have hl : ((data.drop i).take ulen).length = ulen := by
      rw [length_take, length_drop]
      omega
    have hva : (uptr + BitVec.ofNat 64 i).toNat = uptr.toNat + i := toNat_add_ofNat (by omega)
    obtain ⟨hs', hst⟩ := hK.write hs ((data.drop i).take ulen) (hr.symm ▸ hpd) (by omega) hal (by omega)
    rw [hr, hva] at hst
    refine wp_bind.mpr (wp_modify.mpr (wp_pure.mpr ⟨⟨v1, hs', hr⟩, ?_⟩))
    have htake : data.take (i + ulen) = data.take i ++ (data.drop i).take ulen := take_add
    have hti : (data.take i).length = i := by
      rw [length_take]
      omega
    have hcov : covers uptr.toNat (data.take (i + ulen)) = fun va =>
        (covers (uptr.toNat + i) ((data.drop i).take ulen) va).or (covers uptr.toNat (data.take i) va) := by
      funext va
      rw [htake, covers_append, hti]
    rw [if_neg Bool.false_ne_true, hcov]
    exact hI.trans hpd hst
  done _ _ hI := by rwa [take_length] at hI

lemma Stable.copyOut (hu : 0 < L.pageused) (h : K s v) (hpd : pd ∈ v.roots)
    (ha : Accessible s true pd uptr data.length) : wp (copyOut pd uptr data) (fun _ s' =>
      Stored v.roots pd (covers uptr.toNat data) s s' ∧ ∃ v', K s' v' ∧ v'.roots = v.roots) OutOfMemory s := by
  have h0 : Stored v.roots pd (covers uptr.toNat (data.take 0)) s s := by
    have := (Quiet.refl v.roots s).stored pd
    convert this using 1
    funext va
    simp [covers]
  exact (copyOut_transfers hK hpd ha).userToKernel hK hu hpd data.length (by omega) (by omega)
    (fun _ => by rw [BitVec.add_zero]) h0 h rfl

lemma copyIn_transfers (hpd : pd ∈ roots) (ha : Accessible s false pd uptr len) :
    Transfers K roots pd uptr len false copyInCallback
      (fun i buf s' => Quiet roots s s' ∧ buf = contents s pd uptr i)
      (fun buf s' => Quiet roots s s' ∧ buf = contents s pd uptr len) where
  usable i _ _ hI hi := hI.1.usable false pd _ hpd (ha.2 i hi)
  calm _ _ _ _ hI hq := ⟨hI.1.trans hq, hI.2⟩
  chunk i ulen buf s1 v1 hI hs hr hpos hlen hoff hal := by
    have hb := ha.1
    have hva : (uptr + BitVec.ofNat 64 i).toNat = uptr.toNat + i := toNat_add_ofNat (by omega)
    have ht := (target_of_allows (hK.walled s1 v1 hs) (hr.symm ▸ hpd) hal).1
    refine wp_bind.mpr (wp_get.mpr (wp_pure.mpr ⟨⟨v1, hs, hr⟩, ?_⟩))
    rw [if_neg Bool.false_ne_true]
    refine ⟨hI.1, ?_⟩
    rw [hI.2, contents, contents, range_add, map_append, map_map, readBytes_content ht hoff (by omega)]
    refine congrArg _ (map_congr_left fun j _ => ?_)
    rw [hI.1.content pd _ hpd, BitVec.add_assoc, ← BitVec.ofNat_add, Function.comp_apply]
  done _ _ hI := hI

lemma Stable.copyIn (hu : 0 < L.pageused) (h : K s v) (hpd : pd ∈ v.roots)
    (ha : Accessible s false pd uptr len) : wp (copyIn pd uptr len) (fun buf s' =>
      (Quiet v.roots s s' ∧ buf = contents s pd uptr len) ∧ ∃ v', K s' v' ∧ v'.roots = v.roots) OutOfMemory s :=
  (copyIn_transfers hK hpd ha).userToKernel hK hu hpd len (by omega) (by omega)
    (fun _ => by rw [BitVec.add_zero]) ⟨.refl _ _, rfl⟩ h rfl

end Copying

lemma Image.used_pos (img : Image L) : 0 < L.pageused := Nat.lt_of_le_of_lt (Nat.zero_le _) img.trampoline_page.2

lemma Sealed.copyOut (h : Sealed L img s v fl) (hpd : pd ∈ v.roots)
    (ha : Accessible s true pd uptr data.length) : wp (copyOut pd uptr data) (fun _ s' => ∃ v',
      Sealed L img s' v' fl ∧ v'.roots = v.roots ∧ Stored v.roots pd (covers uptr.toNat data) s s')
      NotRefZero s := by
  refine wp_mono (wp_mono_error ((sealed_stable img fl).copyOut img.used_pos h hpd ha)
    fun _ => OutOfMemory.notRefZero) fun _ s' ⟨hst, v', hs, hr⟩ => ?_
  exact ⟨v', hs, hr, hst⟩

lemma Sealed.copyIn (h : Sealed L img s v fl) (hpd : pd ∈ v.roots)
    (ha : Accessible s false pd uptr len) : wp (copyIn pd uptr len) (fun buf s' =>
      buf = contents s pd uptr len ∧ ∃ v', Calm L img s v fl s' v') NotRefZero s := by
  refine wp_mono (wp_mono_error ((sealed_stable img fl).copyIn img.used_pos h hpd ha)
    fun _ => OutOfMemory.notRefZero) fun buf s' ⟨hq, v', hs, hr⟩ => ?_
  exact ⟨hq.2, v', hs, hr, hq.1⟩

end FarmOS.Mm

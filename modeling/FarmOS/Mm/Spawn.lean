import FarmOS.Mm.Access
import FarmOS.Mm.Boot
import FarmOS.Mm.Hold

/-! New address spaces: an empty one, one with pages loaded into it, and the copy made by fork. -/

namespace FarmOS.Mm

open Lib Function List Option

variable {L : Layout} {img : Image L} {s s' s1 : Phys} {v v' v1 : View} {roots fl : List ℕ}
  {f pd child r offset : ℕ} {va va' pa : BitVec 64} {w perm : Pte} {src : List Byte} {c : ℕ}

lemma Kernel.sealed (h : Kernel L s v) (img : Image L) : Sealed L img s v [] := by
  have hroot : v.lev s.kernPd = 1 := (h.inv.shape.root _).mpr (.inl rfl)
  have hno : ∀ r, r ∉ v.roots := by simp [h.roots]
  refine ⟨⟨h.inv, h.dead, h.heap, fun r _ _ hr => absurd hr (hno r), ⟨fun r va va' hp => hp.look s r,
    fun r _ hr => absurd hr (hno r), fun r _ _ _ _ hr => absurd hr (hno r)⟩, fun va => ?_⟩,
    fun r hr => absurd hr (hno r), fun r hr => absurd hr (hno r)⟩
  unfold look
  cases hx : slot s s.kernPd va with
  | none => exact (by decide : has 0 pteCow = false)
  | some x =>
    simp only
    by_cases hi : x ∈ s.ident
    · exact h.cow x hi
    · rw [h.blank.leaf x (h.inv.shape.slot_lev h.dead hroot hx).1 hi]
      decide

lemma writeBytes_eq (s : Phys) (f off : ℕ) (bs : List Byte) :
    s.writeBytes f off bs = s.setPage f ((s.writeBytes f off bs).mem f) := by
  obtain ⟨h1, h2, h3, h4, h5, h6⟩ := writeBytes_fields s f off bs
  have hm : (s.writeBytes f off bs).mem = update s.mem f ((s.writeBytes f off bs).mem f) := by
    funext t
    by_cases ht : t = f
    · rw [ht, update_self]
    · rw [update_of_ne ht, mem_writeBytes_ne ht]
  rw [Phys.setPage, ← hm]
  cases hs : s.writeBytes f off bs
  rw [hs] at h1 h2 h3 h4 h5 h6
  congr

def loaded (offset : ℕ) (src : List Byte) (va : BitVec 64) : Byte :=
  if offset ≤ pageOff va then src.getD (pageOff va - offset) 0 else 0

structure Mapping (L : Layout) (s : Phys) (v : View) (fl : List ℕ) (pd : ℕ) (va : BitVec 64) (w : Pte)
    (s' : Phys) (v' : View) : Prop where
  walled : Walled L s' v' fl
  roots : v'.roots = v.roots
  look (r : ℕ) (va' : BitVec 64) : r ∈ v.roots → look s' r va' = put (look s) pd va w r va'
  content (r : ℕ) (va' : BitVec 64) : r ∈ v.roots → ¬ (r = pd ∧ SamePage va' va) →
    content s' r va' = content s r va'
  ad : s'.ad = s.ad

lemma Walled.mapping (h : Walled L s v fl) (hpd : pd ∈ v.roots) (hw : Rewritten L s v fl (put (look s) pd va w) s' v')
    (hf : Fresh L v.roots (look s) pd va w) (hl : ∀ f, target w = some f → v'.lev f = 0) :
    Mapping L s v fl pd va w s' v' where
  walled := by
    refine h.rewritten hw (h.iso.put hf) (fun r va' f hr ht => ?_) fun va' => h.put_kern hpd
    unfold put at ht
    split at ht
    · exact .inr (hl f ht)
    · exact .inl ⟨r, hr, va', ht⟩
  __ := hw.kept
  look r va' hr := hw.look r va' (h.inv.shape.root_of_mem hr)
  content r va' hr he := h.content_eq hw hr (by rw [put, if_neg he])

section Pages

variable (h : Walled L s v fl) (hpd : pd ∈ v.roots)
include h hpd

lemma Walled.mapImage (hpa : membase ≤ pa ∧ paToPage pa < L.pageused) (hperm : perm.toNat < 1024)
    (hW : has perm pteW = false) (hC : has perm pteCow = false) : wp (ptMap pd va pa perm) (fun r s' => r = 0 ∧
      ∃ v', Mapping L s v fl pd va (mkPte s.ad pa perm) s' v') NotRefZero s := by
  have hlt : paToPage pa < L.npage := Nat.lt_of_lt_of_le hpa.2 L.used_le
  have href : 0 < (s.ref (paToPage pa)).toNat := by
    rw [h.inv.account.count _ hlt, Layout.base, if_pos hpa.2]
    omega
  have hentry : entry s.ad pa perm = mkPte s.ad pa perm := by
    refine if_neg fun h0 => ?_
    have := hpa.1
    rw [h0] at this
    exact absurd this (by decide)
  have ht : target (mkPte s.ad pa perm) = some (paToPage pa) := by
    rw [target_mkPte s.ad pa hperm, if_pos hpa.1]
  have hland : landed fl (entry s.ad pa perm) = fl := by
    refine landed_of_notMem fun f hf hfl => ?_
    rw [hentry, ht] at hf
    have := (h.inv.account.flight_page f hfl).1
    rw [← some.inj hf] at this
    omega
  have hm : Mappable L s fl pa perm := ⟨hperm, fun _ => hlt, fun _ => .inr href⟩
  refine wp_mono (h.inv.remap h.dead hpd hm hland) ?_
  rintro r s' ⟨hr, v', hw⟩
  refine ⟨hr, v', ?_⟩
  rw [hentry] at hw
  have hWm : has (mkPte s.ad pa perm) pteW = false :=
    (has_mkPte s.ad pa perm (k := 2) (by decide) (by decide)).trans hW
  refine h.mapping hpd hw ⟨⟨?_, fun _ => has_V_mkPte .., fun _ => ⟨_, ht⟩, fun _ _ _ => hWm, fun f hc => ?_,
    fun hn => ?_⟩, fun r va' f hr _ hf hf' => ⟨hWm, ?_⟩⟩ fun f hf => ?_
  · rw [hWm]
    simp
  · rw [show has (mkPte s.ad pa perm) pteCow = has perm pteCow from
      has_mkPte s.ad pa perm (k := 8) (by decide) (by decide), hC] at hc
    cases hc
  · rw [has_V_mkPte] at hn
    cases hn
  · refine (h.iso.sober r va' hr).image f hf' ?_
    rw [← some.inj (ht.symm.trans hf)]
    exact hpa.2
  · by_contra hl
    have := (hw.heap f hl).elim (h.heap f) id
    rw [← some.inj (ht.symm.trans hf)] at this
    omega

lemma Walled.mapPassive (hperm : perm.toNat < 1024) (hV : has perm pteV = false) (hc : has perm pteCow = false) :
    wp (ptMap pd va 0 perm) (fun r s' => r = 0 ∧ ∃ v', Mapping L s v fl pd va perm s' v') NotRefZero s := by
  obtain ⟨hm, hland⟩ := mappable_passive L s fl hperm
  refine wp_mono (h.inv.remap h.dead hpd hm hland) fun r s' ⟨hr, v', hw⟩ => ⟨hr, v', ?_⟩
  rw [show entry s.ad 0 perm = perm from if_pos rfl] at hw
  refine h.mapping hpd hw (fresh_of_invalid L v.roots (look s) pd va hV hc hperm) fun f hf => ?_
  rw [target_of_not_V hV] at hf
  cases hf

lemma Walled.mapTaken {p : ℕ} (hp : Taken L s v fl p s1) (offset : ℕ) (src : List Byte)
    (hperm : perm.toNat < 1024) (hc : has perm pteCow = false) : wp (ptMap pd va (pageToPa p) perm)
    (fun r s' => r = 0 ∧ ∃ v' p,
      Mapping L s v fl pd va (mkPte s.ad (pageToPa p) perm) s' v' ∧
      ∀ va', SamePage va' va → content s' pd va' = loaded offset src va') NotRefZero
      (s1.writeBytes p offset src) := by
  rw [writeBytes_eq]
  obtain ⟨page, hpage⟩ : ∃ page, page = (s1.writeBytes p offset src).mem p := ⟨_, rfl⟩
  rw [← hpage]
  have hplace : wp (ptMap pd va (pageToPa p) perm) (fun r s' => r = 0 ∧
      Placed L s v fl pd va perm (fun _ => page) s') NotRefZero (s1.setPage p page) :=
    h.inv.place h.dead hpd hp hperm page rfl
  refine wp_mono hplace fun r s' ⟨hr, _, v', q, hw, hu, hlt, hz, hl0, hmem⟩ => ⟨hr, v', q, ?_, fun va' hp' => ?_⟩
  all_goals
    have ht : target (mkPte s.ad (pageToPa q) perm) = some q :=
      target_mkPte_pageToPa (Nat.lt_trans hlt L.npage_lt) s.ad hperm
  · refine h.mapping hpd hw (h.fresh_entry hu hlt hz hperm fun hcow => ?_) fun f hf => ?_
    · rw [hc] at hcow
      exact absurd hcow.1 nofun
    · rw [← some.inj (ht.symm.trans hf)]
      exact hl0
  · have hlook : look s' pd va' = mkPte s.ad (pageToPa q) perm :=
      (hw.look pd va' (h.inv.shape.root_of_mem hpd)).trans (if_pos ⟨rfl, hp'⟩)
    have hzero : ∀ off, readByte s1 p off = 0 := fun off => by
      rw [readByte, hp.zero]
      simp
    unfold content
    rw [hlook, ht]
    have hread : readByte s' q (pageOff va') = readByte (s1.writeBytes p offset src) p (pageOff va') := by
      simp only [readByte, hmem, hpage]
    refine hread.trans ?_
    rw [readByte_writeBytes, hzero]
    rfl

lemma Walled.loadDataMapper (hperm : perm.toNat < 1024) (hc : has perm pteCow = false) :
    wp (loadDataMapper pd va offset perm src) (fun r s' => r = 0 ∧ ∃ v' p,
      Mapping L s v fl pd va (mkPte s.ad (pageToPa p) perm) s' v' ∧
      ∀ va', SamePage va' va → content s' pd va' = loaded offset src va') NotRefZero s := by
  simp only [Mm.loadDataMapper, wp_bind, vmAlloc, wp_modify]
  exact wp_mono h.inv.pmAlloc fun p s1 hp => h.mapTaken hpd hp offset src hperm hc

end Pages

def overlay (e : BitVec 64 → Pte) (va : BitVec 64) (w : Pte) (va' : BitVec 64) : Pte :=
  if SamePage va' va then w else e va'

structure Spawned (L : Layout) (s : Phys) (v : View) (fl : List ℕ) (c : ℕ) (e : BitVec 64 → Pte)
    (s' : Phys) (v' : View) : Prop where
  walled : Walled L s' v' fl
  roots : v'.roots = c :: v.roots
  new : c ∉ v.roots
  look (r : ℕ) (va : BitVec 64) : r ∈ v.roots → look s' r va = look s r va
  content (r : ℕ) (va : BitVec 64) : r ∈ v.roots → content s' r va = content s r va
  child (va : BitVec 64) : Mm.look s' c va = e va
  ad : s'.ad = s.ad

lemma Spawned.map {e : BitVec 64 → Pte} (h : Spawned L s v fl c e s1 v1)
    (hm : Mapping L s1 v1 fl c va w s' v') : Spawned L s v fl c (overlay e va w) s' v' where
  walled := hm.walled
  roots := hm.roots.trans h.roots
  new := h.new
  look r va' hr := by
    have hrc : r ≠ c := fun he => h.new (he ▸ hr)
    rw [hm.look r va' (h.roots ▸ mem_cons_of_mem c hr), put, if_neg fun he => hrc he.1, h.look r va' hr]
  content r va' hr := by
    have hrc : r ≠ c := fun he => h.new (he ▸ hr)
    rw [hm.content r va' (h.roots ▸ mem_cons_of_mem c hr) fun he => hrc he.1, h.content r va' hr]
  child va' := by
    rw [hm.look c va' (h.roots ▸ mem_cons_self), put, overlay, h.child va']
    simp only [true_and]
  ad := hm.ad.trans h.ad

lemma Walled.newPt (h : Walled L s v fl) : wp kvmAlloc (fun c s' => ∃ v', Spawned L s v fl c (fun _ => 0) s' v')
    NotRefZero s := by
  refine wp_mono h.inv.newPt fun c s' ⟨hinv, s1, hp, hsame, href⟩ => ⟨(v.hold c).plant c, ?_⟩
  have hs := h.inv.shape
  have hmem : ∀ t, t ≠ c → s'.mem t = s.mem t := fun t ht => by
    rw [hsame.mem]
    exact hp.mem t ht
  have hag : Agrees v s s' :=
    ⟨fun t ht => hmem t fun he => ht (he ▸ hp.lev), hsame.kernPd.trans hp.kernPd, hsame.ident.trans hp.ident⟩
  have hnew : c ∉ v.roots := fun hr => by
    have := hs.root_of_mem hr
    rw [hp.lev] at this
    cases this
  have hlook : ∀ r va, v.lev r = 1 → Mm.look s' r va = Mm.look s r va := fun r va hr => hag.look hs h.dead hr
  have hzero : ∀ va, Mm.look s' c va = 0 := look_of_zero fun i => by
    rw [hsame.mem]
    exact hp.zero i
  have hne : ∀ r va f, r ∈ v.roots → target (Mm.look s r va) = some f → f ≠ c := fun r va f hr hf he => by
    have := (h.inv.user_ref h.dead hr hf).2
    rw [he, hp.fresh] at this
    exact absurd this (by decide)
  have hlev : ∀ t, t ≠ c → ((v.hold c).plant c).lev t = v.lev t := fun t ht => update_of_ne ht ..
  refine ⟨⟨hinv, h.dead, fun t ht => ?_, fun r va f hr hf => ?_, ?_, fun va => ?_⟩, rfl, hnew,
    fun r va hr => hlook r va (hs.root_of_mem hr), fun r va hr => ?_, hzero, hsame.ad.trans hp.ad⟩
  · by_cases he : t = c
    · rw [he]
      exact hp.used
    · exact h.heap t (hlev t he ▸ ht)
  · rcases mem_cons.mp hr with rfl | hr
    · rw [hzero] at hf
      cases hf.symm.trans target_zero
    · rw [hlook r va (hs.root_of_mem hr)] at hf
      rw [hlev f (hne r va f hr hf)]
      exact h.plain r va f hr hf
  · exact h.iso.cons hnew hzero (fun r hr => funext fun va => hlook r va (hs.root_of_mem hr))
      fun r va va' hp => hp.look s' r
  · rw [hag.kernPd, hlook _ va ((hs.root _).mpr (.inl rfl))]
    exact h.kern va
  · exact content_congr (by rw [hlook r va (hs.root_of_mem hr)]) fun f hf => hmem f (hne r va f hr hf)

structure ForkedTo (L : Layout) (img : Image L) (s : Phys) (v : View) (fl : List ℕ) (pd c : ℕ) (s' : Phys)
    (v' : View) : Prop where
  inner : Sealed L img s' v' fl
  roots : v'.roots = c :: v.roots
  new : c ∉ v.roots
  content (r : ℕ) (va : BitVec 64) : r ∈ v.roots → content s' r va = content s r va
  user (r : ℕ) (va : BitVec 64) : r ∈ v.roots → has (look s' r va) pteU = has (look s r va) pteU
  shared (r : ℕ) (va : BitVec 64) : r ∈ v.roots → has (look s' r va) pteShared = has (look s r va) pteShared
  child_user (va : BitVec 64) : has (look s' c va) pteU = has (look s pd va) pteU
  child_shared (va : BitVec 64) : has (look s' c va) pteU = true →
    has (look s' c va) pteShared = has (look s pd va) pteShared
  child_content (va : BitVec 64) : has (look s' c va) pteU = true → Mm.content s' c va = Mm.content s pd va

structure Started (L : Layout) (img : Image L) (s : Phys) (v : View) (fl : List ℕ) (c : ℕ) (s' : Phys)
    (v' : View) : Prop where
  inner : Sealed L img s' v' fl
  spawned : ∃ e, Spawned L s v fl c e s' v'
  child (va : BitVec 64) : look s' c va = 0 ∨
    (SamePage va signalTrampolineVa ∧ look s' c va = signalEntry img s.ad) ∨
    ((SamePage va trampolineVa ∨ SamePage va trapframeVa) ∧ KernelPage (look s' c va))

lemma kernelPage_mkPte (ad : Bool) (pa : BitVec 64) (hc : has perm pteCow = false) (hU : has perm pteU = false) :
    KernelPage (mkPte ad pa perm) :=
  ⟨has_V_mkPte .., (has_mkPte ad pa perm (k := 8) (by decide) (by decide)).trans hc, (has_U_mkPte ..).trans hU⟩

def initialEntries (img : Image L) (ad : Bool) (trapframe : ℕ) : BitVec 64 → Pte :=
  overlay (overlay (overlay (fun _ => 0) trampolineVa (mkPte ad img.trampoline (pteR ||| pteX ||| pteG)))
    signalTrampolineVa (signalEntry img ad)) trapframeVa (mkPte ad (pageToPa trapframe) (pteR ||| pteW))

lemma Walled.procInitupt (h : Walled L s v fl) (img : Image L) : wp (procInitupt img) (fun c s' => ∃ v' p,
    Spawned L s v fl c (initialEntries img s.ad p) s' v') NotRefZero s := by
  unfold Mm.procInitupt
  refine wp_seq h.newPt fun c s1 ⟨v1, h1⟩ => wp_bind.mpr ?_
  have hc : ∀ {e : BitVec 64 → Pte} {s' : Phys} {v' : View}, Spawned L s v fl c e s' v' → c ∈ v'.roots :=
    fun h' => h'.roots ▸ mem_cons_self
  refine wp_mono (h1.walled.mapImage (hc h1) img.trampoline_page (by decide) (by decide) (by decide))
    fun r s2 ⟨hr, v2, hm2⟩ => wp_bind.mpr (wp_panicOn_zero hr (wp_bind.mpr ?_))
  have h2 := h1.map hm2
  refine wp_mono (h2.walled.mapImage (hc h2) img.userSigReturn_page (by decide) (by decide) (by decide))
    fun r s3 ⟨hr, v3, hm3⟩ => wp_bind.mpr (wp_panicOn_zero hr (wp_bind.mpr ?_))
  have h3 := h2.map hm3
  refine wp_mono h3.walled.inv.pmAlloc fun p s4 hp => wp_bind.mpr ?_
  refine wp_mono (h3.walled.mapTaken (hc h3) hp 0 [] (by decide) (by decide))
    fun r s5 ⟨hr, v5, q, hm5, _⟩ => wp_bind.mpr (wp_panicOn_zero hr (wp_pure.mpr ⟨v5, q, ?_⟩))
  have h5 := h3.map hm5
  rw [h1.ad, h2.ad, h3.ad] at h5
  exact h5

lemma initialEntries_cases (img : Image L) (ad : Bool) (p : ℕ) (va : BitVec 64) : initialEntries img ad p va = 0 ∨
    (SamePage va signalTrampolineVa ∧ initialEntries img ad p va = signalEntry img ad) ∨
    ((SamePage va trampolineVa ∨ SamePage va trapframeVa) ∧ KernelPage (initialEntries img ad p va)) := by
  unfold initialEntries overlay
  split
  · next hp => exact .inr (.inr ⟨.inr hp, kernelPage_mkPte _ _ (by decide) (by decide)⟩)
  · split
    · next hp => exact .inr (.inl ⟨hp, rfl⟩)
    · split
      · next hp => exact .inr (.inr ⟨.inl hp, kernelPage_mkPte _ _ (by decide) (by decide)⟩)
      · exact .inl rfl

lemma initialEntries_fixed (img : Image L) (ad : Bool) (p : ℕ) :
    initialEntries img ad p signalTrampolineVa = signalEntry img ad ∧
      KernelPage (initialEntries img ad p trampolineVa) ∧ KernelPage (initialEntries img ad p trapframeVa) := by
  unfold initialEntries overlay
  rw [if_neg (by decide), if_pos (by decide), if_neg (by decide), if_neg (by decide), if_pos (by decide),
    if_pos (by decide)]
  exact ⟨rfl, kernelPage_mkPte _ _ (by decide) (by decide), kernelPage_mkPte _ _ (by decide) (by decide)⟩

lemma Sealed.started {c p : ℕ} (h : Sealed L img s v fl)
    (hsp : Spawned L s v fl c (initialEntries img s.ad p) s' v') : Started L img s v fl c s' v' := by
  obtain ⟨hsig, hup⟩ := initialEntries_fixed img s.ad p
  have hold : ∀ {r}, r ∈ v'.roots → r = c ∨ r ∈ v.roots := fun hr => mem_cons.mp (hsp.roots ▸ hr)
  refine ⟨⟨hsp.walled, fun r hr => ?_, fun r hr => ?_⟩, ⟨_, hsp⟩, fun va => ?_⟩
  · rcases hold hr with rfl | hr
    · rw [hsp.child, hsig, hsp.ad]
    · rw [hsp.look r _ hr, h.signal r hr, hsp.ad]
  · rcases hold hr with rfl | hr
    · rw [hsp.child, hsp.child]
      exact hup
    · rw [hsp.look r _ hr, hsp.look r _ hr]
      exact h.upper r hr
  · rw [hsp.child]
    exact initialEntries_cases img s.ad p va

lemma Sealed.procInitupt (h : Sealed L img s v fl) :
    wp (procInitupt img) (fun c s' => ∃ v', Started L img s v fl c s' v') NotRefZero s :=
  wp_mono (h.toWalled.procInitupt img) fun _ _ ⟨v', _, hsp⟩ => ⟨v', h.started hsp⟩

lemma Started.fixed (h : Started L img s v fl c s1 v1) (hc : c ∈ v1.roots) (hf : Fixed va) : look s1 c va ≠ 0 := by
  intro h0
  refine h.inner.fixed_page hc (.inr ?_) hf
  rw [h0]
  decide

lemma Started.kid (h : Started L img s v fl c s1 v1) (hs : Sealed L img s v fl) (hpd : pd ∈ v.roots)
    (hne : look s1 c va ≠ 0 ∨ look s1 pd va = 0) :
    has (look s1 c va) pteU = has (look s1 pd va) pteU ∧
      (has (look s1 c va) pteU = true → look s1 c va = look s1 pd va) := by
  obtain ⟨e, hsp⟩ := h.spawned
  have hkern : KernelPage (look s1 c va) → KernelPage (look s pd va) →
      has (look s1 c va) pteU = has (look s1 pd va) pteU ∧
        (has (look s1 c va) pteU = true → look s1 c va = look s1 pd va) := fun hk hk' => by
    rw [hsp.look pd va hpd, hk.kernel, hk'.kernel]
    exact ⟨rfl, nofun⟩
  rcases h.child va with h0 | ⟨hp, he⟩ | ⟨hp, hk⟩
  · rw [h0, hne.resolve_left (not_not.mpr h0)]
    exact ⟨rfl, fun _ => rfl⟩
  · have : look s1 c va = look s1 pd va := by
      rw [he, hsp.look pd va hpd, hp.look s pd, hs.signal pd hpd]
    rw [this]
    exact ⟨rfl, fun _ => rfl⟩
  · rcases hp with hp | hp
    · exact hkern hk (hp.look s pd ▸ (hs.upper pd hpd).1)
    · exact hkern hk (hp.look s pd ▸ (hs.upper pd hpd).2)

structure Copied (L : Layout) (img : Image L) (s : Phys) (v : View) (fl : List ℕ) (pd c : ℕ) (s1 : Phys)
    (v1 : View) (s' : Phys) (v' : View) : Prop where
  spawned : ∃ p, Spawned L s v fl c (initialEntries img s.ad p) s1 v1
  user (va : BitVec 64) : look s1 c va = 0 → look s1 pd va ≠ 0 → has (look s1 pd va) pteU = true
  rewritten : Rewritten L s1 v1 fl (forked (look s1) s1.ad pd c) s' v'
  walled : Walled L s' v' fl

lemma Walled.procFork (h : Walled L s v fl) (img : Image L) (hpd : pd ∈ v.roots) :
    wp (procFork img pd) (fun c s' => ∃ s1 v1 v', Copied L img s v fl pd c s1 v1 s' v') NotRefZero s := by
  unfold Mm.procFork
  refine wp_seq (h.procInitupt img) fun c s1 ⟨v1, p, hsp⟩ => wp_bind.mpr ?_
  have hin := hsp.walled
  have hpd1 : pd ∈ v1.roots := hsp.roots ▸ mem_cons_of_mem c hpd
  have hc : c ∈ v1.roots := hsp.roots ▸ mem_cons_self
  have hne : pd ≠ c := fun he => hsp.new (he ▸ hpd)
  refine wp_mono (hin.inv.forkWalk hin.dead hpd1 hc hne) fun _ s' ⟨hU, v', hw⟩ =>
    wp_pure.mpr ⟨s1, v1, v', ⟨p, hsp⟩, hU, hw, ?_⟩
  have hcases := hin.iso.forked_cases hpd1 hU s1.ad
  refine hin.rewritten hw (hin.iso.forked hpd1 hU s1.ad) (fun r va f hr hf => .inl ?_) fun va => ?_
  · rcases hcases r va with ⟨-, -, hcp⟩ | ⟨he, -⟩
    · exact ⟨pd, hpd1, va, hcp.target ▸ hf⟩
    · exact ⟨r, hr, va, he ▸ hf⟩
  · rcases hcases s1.kernPd va with ⟨-, hk | hk, -⟩ | ⟨he, -⟩
    · exact absurd (hk ▸ hc) hin.inv.shape.kern_root
    · exact absurd (hk ▸ hpd1) hin.inv.shape.kern_root
    · exact he

lemma Sealed.procFork (h : Sealed L img s v fl) (hpd : pd ∈ v.roots) :
    wp (procFork img pd) (fun c s' => ∃ v', ForkedTo L img s v fl pd c s' v') NotRefZero s := by
  refine wp_mono (h.toWalled.procFork img hpd) fun c s' ⟨s1, v1, v', ⟨p, hsp⟩, hU, hw, hwalled⟩ => ⟨v', ?_⟩
  have hst := h.started hsp
  have hin := hst.inner
  have hmem : ∀ {r}, r ∈ v.roots → r ∈ v1.roots := fun hr => hsp.roots ▸ mem_cons_of_mem c hr
  have hc : c ∈ v1.roots := hsp.roots ▸ mem_cons_self
  have hne : ∀ {r}, r ∈ v.roots → r ≠ c := fun hr he => hsp.new (he ▸ hr)
  have hlook : ∀ r va, r ∈ v1.roots → look s' r va = forked (look s1) s1.ad pd c r va := fun r va hr =>
    hw.look r va (hin.inv.shape.root_of_mem hr)
  have hcases := hin.iso.forked_cases (hmem hpd) hU s1.ad
  have hsealed : Sealed L img s' v' fl := by
    refine hin.of_fixed hwalled hw.kept.roots hw.kept.ad fun r va hr hfix => ?_
    rw [hlook r va hr]
    rcases hcases r va with ⟨h0, -, -⟩ | ⟨he, -⟩
    · exact absurd h0 (hst.fixed hc hfix)
    · exact he
  have hold : ∀ r va, r ∈ v.roots → target (look s' r va) = target (look s r va) ∧
      has (look s' r va) pteU = has (look s r va) pteU ∧
      has (look s' r va) pteShared = has (look s r va) pteShared := by
    intro r va hr
    rw [hlook r va (hmem hr), ← hsp.look r va hr]
    rcases hcases r va with ⟨-, hk, hcp⟩ | ⟨he, -⟩
    · rw [hk.resolve_left (hne hr)] at hcp ⊢
      exact ⟨hcp.target, hcp.user, hcp.shared⟩
    · rw [he]
      exact ⟨rfl, rfl, rfl⟩
  have hkid : ∀ va, has (look s' c va) pteU = has (look s1 pd va) pteU ∧ (has (look s' c va) pteU = true →
      target (look s' c va) = target (look s1 pd va) ∧
        has (look s' c va) pteShared = has (look s1 pd va) pteShared) := by
    intro va
    rw [hlook c va hc]
    rcases hcases c va with ⟨-, -, hcp⟩ | ⟨he, hn⟩
    · exact ⟨hcp.user, fun _ => ⟨hcp.target, hcp.shared⟩⟩
    · obtain ⟨h1, h2⟩ := hst.kid h hpd (hn (.inl rfl))
      rw [he]
      refine ⟨h1, fun hu => ?_⟩
      rw [h2 hu]
      exact ⟨rfl, rfl⟩
  have hframe : ∀ r va f, r ∈ v1.roots → target (look s1 r va) = some f → s'.mem f = s1.mem f := fun r va f hr hf =>
    (hw.frame f (hin.plain r va f hr hf) (Mapped.pinned ⟨r, hr, va, hf⟩ hin.inv.shape hin.dead)).2
  refine ⟨hsealed, hw.kept.roots.trans hsp.roots, hsp.new, fun r va hr => ?_, fun r va hr => (hold r va hr).2.1,
    fun r va hr => (hold r va hr).2.2, fun va => ?_, fun va hu => ?_, fun va hu => ?_⟩
  · rw [← hsp.content r va hr]
    refine content_congr ?_ fun f hf => hframe r va f (hmem hr) hf
    rw [(hold r va hr).1, hsp.look r va hr]
  · rw [(hkid va).1, hsp.look pd va hpd]
  · rw [((hkid va).2 hu).2, hsp.look pd va hpd]
  · rw [← hsp.content pd va hpd]
    exact content_congr ((hkid va).2 hu).1 fun f hf => hframe pd va f (hmem hpd) hf

end FarmOS.Mm

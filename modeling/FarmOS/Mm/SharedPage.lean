import FarmOS.Mm.Live

/-! A page of an anonymous `MAP_SHARED` mapping: the processes that have it from `mmap` or by fork, and the one
memory behind it. -/

namespace FarmOS.Mm

open Lib Function List

structure SharedPerm (perm : Pte) : Prop where
  lt : perm.toNat < 1024
  valid : has perm pteV = false
  cow : has perm pteCow = false
  shared : has perm pteShared = true
  user : has perm pteU = true

def SameBits (w perm : Pte) : Prop :=
  ∀ k, k < 10 → k ≠ 0 ∧ k ≠ 6 ∧ k ≠ 7 → has w (1#64 <<< k) = has perm (1#64 <<< k)

structure Common (L : Layout) (perm : Pte) (va : BitVec 64) (procs members : List ℕ) (mem : BitVec 64 → Byte)
    (s : Phys) : Prop where
  kind : SharedPerm perm
  live (q : ℕ) : q ∈ members → q ∈ procs
  bits (q : ℕ) : q ∈ members → SameBits (look s q va) perm
  same (q q' : ℕ) : q ∈ members → q' ∈ members → target (look s q' va) = target (look s q va)
  lazy (q q' : ℕ) : q ∈ members → q' ∈ members → target (look s q va) = none → q' = q
  heap (q f : ℕ) : q ∈ members → target (look s q va) = some f → L.pageused ≤ f
  alone (q r : ℕ) (va' : BitVec 64) (f : ℕ) : q ∈ members → r ∈ procs → target (look s q va) = some f →
    target (look s r va') = some f → r ∈ members ∧ SamePage va' va
  bytes (q : ℕ) (va' : BitVec 64) : q ∈ members → SamePage va' va → va'.toNat < 2 ^ 38 → content s q va' = mem va'

structure Rooted (L : Layout) (procs : List ℕ) (s : Phys) (v : View) : Prop extends Grounded L s v where
  roots : v.roots = procs
  plain (r : ℕ) (va : BitVec 64) (f : ℕ) : r ∈ v.roots → target (look s r va) = some f → v.lev f = 0

variable {L : Layout} {img : Image L} {perm w : Pte} {va va2 brk mmapAddr : BitVec 64} {procs members : List ℕ}
  {mem : BitVec 64 → Byte} {s s' : Phys} {v v' : View} {pd p q c : ℕ} {ad : Bool}

lemma Walled.rooted (h : Walled L s v []) (hr : v.roots = procs) : Rooted L procs s v :=
  ⟨⟨h.inv, h.dead, fun r va hr => (h.iso.sober r va hr).ram⟩, hr, h.plain⟩

lemma Rooted.edit (h : Rooted L procs s v) (hpd : pd ∈ procs) (he : Edit L s v pd va w s' v') :
    Rooted L procs s' v' := by
  refine ⟨h.toGrounded.edit he, he.rewritten.kept.roots.trans h.roots, fun r va' f hr ht => ?_⟩
  have hkeep : ∀ {r va'}, r ∈ v.roots → target (look s r va') = some f → v'.lev f = 0 := fun hr ht =>
    (he.rewritten.frame f (h.plain _ _ f hr ht) (Mapped.pinned ⟨_, hr, _, ht⟩ h.inv.shape h.dead)).1
  rw [he.rewritten.kept.roots] at hr
  rw [he.look h.inv.shape hr] at ht
  unfold put at ht
  split at ht
  · exact (he.page f ht).elim (hkeep (h.roots ▸ hpd)) fun hnew => hnew.2.2.2
  · exact hkeep hr ht

lemma Fill.sameBits (h : Fill L s perm w) : SameBits w perm := by
  rcases h with rfl | ⟨q, rfl, -⟩
  · exact fun _ _ _ => rfl
  · exact fun k hk hne => has_mkPte s.ad _ perm hk hne

lemma SameBits.trans {w' : Pte} (h : SameBits w w') (h' : SameBits w' perm) : SameBits w perm :=
  fun k hk hne => (h k hk hne).trans (h' k hk hne)

lemma Common.of_look {procs' : List ℕ} {mem' : BitVec 64 → Byte} (h : Common L perm va procs members mem s)
    (hl : ∀ q ∈ members, look s' q va = look s q va) (hlive : ∀ q ∈ members, q ∈ procs')
    (halone : ∀ q r va' f, q ∈ members → r ∈ procs' → target (look s q va) = some f →
      target (look s' r va') = some f → r ∈ members ∧ SamePage va' va)
    (hbytes : ∀ q va', q ∈ members → SamePage va' va → va'.toNat < 2 ^ 38 → content s' q va' = mem' va') :
    Common L perm va procs' members mem' s' := by
  refine ⟨h.kind, hlive, fun q hq => ?_, fun q q' hq hq' => ?_, fun q q' hq hq' ht => ?_, fun q f hq ht => ?_,
    fun q r va' f hq hr ht => halone q r va' f hq hr (hl q hq ▸ ht), hbytes⟩
  · rw [hl q hq]
    exact h.bits q hq
  · rw [hl q hq, hl q' hq']
    exact h.same q q' hq hq'
  · exact h.lazy q q' hq hq' (hl q hq ▸ ht)
  · exact h.heap q f hq (hl q hq ▸ ht)

section Edits

variable (hg : Rooted L procs s v) (hpd : pd ∈ procs) (he : Edit L s v pd va2 w s' v')
include hg hpd he

lemma Common.edit (h : Common L perm va procs members mem s) (hne : ¬ (pd ∈ members ∧ SamePage va va2)) :
    Common L perm va procs members mem s' := by
  have hroot : ∀ {r}, r ∈ procs → r ∈ v.roots := fun hr => hg.roots ▸ hr
  have hput : ∀ q va', q ∈ members → SamePage va' va → put (look s) pd va2 w q va' = look s q va' :=
    fun q va' hq hp => if_neg fun (hc : q = pd ∧ SamePage va' va2) =>
      hne ⟨hc.1 ▸ hq, samePage_trans (samePage_symm hp) hc.2⟩
  have hlook : ∀ q, q ∈ members → look s' q va = look s q va := fun q hq => by
    rw [he.look hg.inv.shape (hroot (h.live q hq)), hput q va hq (samePage_refl va)]
  refine h.of_look hlook h.live (fun q r va' f hq hr ht ht' => ?_) fun q va' hq hp hva => ?_
  · rw [he.look hg.inv.shape (hroot hr)] at ht'
    unfold put at ht'
    split at ht'
    · rcases he.page f ht' with hold | ⟨-, -, hz, -⟩
      · obtain ⟨hm, hp⟩ := h.alone q pd va2 f hq hpd ht hold
        exact absurd ⟨hm, samePage_symm hp⟩ hne
      · have := (hg.inv.user_ref hg.dead (hroot (h.live q hq)) ht).2
        rw [hz] at this
        exact absurd this (by decide)
    · exact h.alone q r va' f hq hr ht ht'
  · rw [← h.bytes q va' hq hp hva]
    exact content_rewritten he.rewritten hg.inv.shape hg.dead (hroot (h.live q hq))
      (fun f => hg.plain q va' f (hroot (h.live q hq))) (by rw [hput q va' hq hp])

lemma Common.placed {perm' : Pte} (hk : SharedPerm perm) (hp : SamePage va va2) (hf : Fill L s perm' w)
    (hlt : perm'.toNat < 1024) (hb : SameBits perm' perm) (hone : ∀ q ∈ members, q = pd) (hm : pd ∈ members)
    (hbytes : ∀ va', SamePage va' va → va'.toNat < 2 ^ 38 → content s' pd va' = mem va') :
    Common L perm va procs members mem s' := by
  have hroot : ∀ {r}, r ∈ procs → r ∈ v.roots := fun hr => hg.roots ▸ hr
  have hlook : look s' pd va = w := by
    rw [he.look hg.inv.shape (hroot hpd), put, if_pos ⟨rfl, hp⟩]
  have hnew : ∀ f, target w = some f → L.pageused ≤ f ∧ s.ref f = 0 := by
    intro f ht
    rcases hf with rfl | ⟨q, rfl, hu⟩
    · cases (target_perm hlt).symm.trans ht
    · rw [target_mkPte_pageToPa (Nat.lt_trans hu.2.1 L.npage_lt) s.ad hlt] at ht
      exact Option.some.inj ht ▸ ⟨hu.1, hu.2.2⟩
  refine ⟨hk, fun q hq => hone q hq ▸ hpd, fun q hq => ?_, fun q q' hq hq' => ?_, fun q q' hq hq' _ => ?_,
    fun q f hq ht => ?_, fun q r va' f hq hr ht ht' => ?_, fun q va' hq => ?_⟩
  · rw [hone q hq, hlook]
    exact hf.sameBits.trans hb
  · rw [hone q hq, hone q' hq']
  · rw [hone q hq, hone q' hq']
  · rw [hone q hq, hlook] at ht
    exact (hnew f ht).1
  · rw [hone q hq, hlook] at ht
    rw [he.look hg.inv.shape (hroot hr)] at ht'
    unfold put at ht'
    split at ht'
    · next hput => exact ⟨hput.1 ▸ hm, samePage_trans hput.2 (samePage_symm hp)⟩
    · have := (hg.inv.user_ref hg.dead (hroot hr) ht').2
      rw [(hnew f ht).2] at this
      exact absurd this (by decide)
  · rw [hone q hq]
    exact hbytes va'

end Edits

section Accesses

variable (h : Common L perm va procs members mem s) (hw : Walled L s v []) (hr : v.roots = procs)
  (hpd : pd ∈ procs) {b : Byte}
include h hw hr hpd

lemma Common.fault {violate : Pte} : wp (pageFaultHandler pd violate va2)
    (fun _ s' => Common L perm va procs members mem s') NotRefZero s := by
  have hroot : pd ∈ v.roots := hr ▸ hpd
  refine wp_mono (wp_and (hw.inv.pageFaultHandler hw.dead hroot) (hw.pageFault hroot)) fun r s' ⟨h1, v1, hst, _⟩ => ?_
  have hcow : pd ∈ members ∧ SamePage va va2 → has (look s pd va2) pteCow = false := fun ⟨hm, hp⟩ => by
    rw [← hp.look s pd]
    exact (h.bits pd hm 8 (by decide) (by decide)).trans h.kind.cow
  rcases h1 with ⟨hc, -, hpl⟩ | ⟨hp, -, hpl⟩ | ⟨-, -, -, rfl⟩
  · obtain ⟨v', q, he, hz, -⟩ := hpl.edit
    exact h.edit (hw.rooted hr) hpd he fun hin => Bool.false_ne_true ((hcow hin).symm.trans hc.2.2.2.2)
  · obtain ⟨v', q, he, hz, -⟩ := hpl.edit
    by_cases hin : pd ∈ members ∧ SamePage va va2
    · obtain ⟨hm, hpage⟩ := hin
      have hnone : target (look s pd va) = none := by
        rw [hpage.look s pd]
        exact target_of_not_V (by simpa using hp.2.1)
      refine Common.placed (hw.rooted hr) hpd he h.kind hpage (.inr ⟨q, rfl, hz⟩) hpl.perm_lt ?_
        (fun q' hq' => h.lazy pd q' hm hq' hnone) hm fun va' hp' hva => ?_
      · rw [← hpage.look s pd]
        exact h.bits pd hm
      · rw [hst.quiet.content pd va' hroot]
        exact h.bytes pd va' hm hp' hva
    · exact h.edit (hw.rooted hr) hpd he hin
  · exact h

lemma Common.userAccess {need : Pte} : wp (userAccess need pd va2)
    (fun _ s' => Common L perm va procs members mem s') NotRefZero s := by
  simp only [Mm.userAccess, trapPgfault, wp_bind, wp_ptLookup, wp_ite, wp_pure]
  exact ⟨fun _ => h, fun _ => wp_mono (h.fault hw hr hpd) fun _ _ h' => ⟨fun _ => h', fun _ => h'⟩⟩

lemma Common.userLoad : wp (userLoad pd va2) (fun _ s' => Common L perm va procs members mem s') NotRefZero s := by
  simp only [Mm.userLoad, wp_bind]
  refine wp_mono (h.userAccess hw hr hpd) fun _ _ h' => ?_
  simp only [wp_ite, wp_bind, wp_ptLookup, wp_get, wp_pure]
  exact ⟨fun _ => h', fun _ => h'⟩

lemma Common.write (hva : va2.toNat < 2 ^ 38) (ha : allows pteW (look s pd va2) = true) :
    Common L perm va procs members
      (if pd ∈ members ∧ SamePage va2 va then update mem va2 b else mem)
      (s.writeByte (paToPage (pteToPa (look s pd va2))) (pageOff va2) b) := by
  have hroot : ∀ {r}, r ∈ procs → r ∈ v.roots := fun hq => hr ▸ hq
  have hlen : pageOff va2 + [b].length ≤ 4096 := Nat.mod_lt _ (by decide)
  obtain ⟨-, hag, -⟩ := hw.write [b] (hroot hpd) hva ha hlen
  obtain ⟨ht2, -⟩ := target_of_allows hw (hroot hpd) ha
  generalize hg : paToPage (pteToPa (look s pd va2)) = g at hag ht2 ⊢
  change Agrees v s (s.writeByte g (pageOff va2) b) at hag
  have hlook : ∀ r va', r ∈ procs → look (s.writeByte g (pageOff va2) b) r va' = look s r va' :=
    fun r va' hq => hag.look hw.inv.shape hw.dead (hw.inv.shape.root_of_mem (hroot hq))
  refine h.of_look (fun q hq => hlook q va (h.live q hq)) h.live (fun q r va' f hq hr' ht ht' => ?_)
    fun q va' hq hp hva' => ?_
  · exact h.alone q r va' f hq hr' ht (hlook r va' hr' ▸ ht')
  · have hold := h.bytes q va' hq hp hva'
    unfold content at hold ⊢
    rw [hlook q va' (h.live q hq)]
    rw [hp.look s q] at hold ⊢
    by_cases hin : pd ∈ members ∧ SamePage va2 va
    · -- every member shows the frame that is written
      have hf : target (look s q va) = some g := by
        rw [← h.same q pd hq hin.1, ← hin.2.look s pd]
        exact ht2
      rw [if_pos hin]
      rw [hf] at hold ⊢
      by_cases he : va' = va2
      · rw [he, update_self]
        exact readByte_writeByte_self ..
      · rw [update_of_ne he, ← hold]
        refine readByte_writeByte_ne (.inr fun hoff => he (BitVec.eq_of_toNat_eq ?_))
        have hpage := (samePage_canonical (by omega) (by omega)).mp (samePage_trans hp (samePage_symm hin.2))
        change va'.toNat % 4096 = va2.toNat % 4096 at hoff
        omega
    · rw [if_neg hin, ← hold]
      cases hf : target (look s q va) with
      | none => rfl
      | some f =>
        refine readByte_writeByte_ne (.inl fun hfg => hin ?_)
        exact h.alone q pd va2 f hq hpd hf (hfg ▸ ht2)

lemma Common.userStore (hva : va2.toNat < 2 ^ 38) : wp (userStore pd va2 b) (fun ok s' =>
    Common L perm va procs members
      (if ok = true ∧ pd ∈ members ∧ SamePage va2 va then update mem va2 b else mem) s') NotRefZero s := by
  have hroot : pd ∈ v.roots := hr ▸ hpd
  simp only [Mm.userStore, wp_bind]
  refine wp_mono (wp_and (hw.userAccess hroot true) (h.userAccess hw hr hpd)) fun ok s' ⟨⟨v', hst, hok, _⟩, h'⟩ => ?_
  simp only [wp_ite, wp_bind, wp_ptLookup, wp_modify, wp_pure]
  refine ⟨fun ho => ?_, fun _ => ?_⟩
  · have := h'.write hst.walled (hst.roots.trans hr) hpd (b := b) hva (hok ho)
    simpa only [true_and] using this
  · rw [if_neg fun hf => Bool.false_ne_true hf.1]
    exact h'

end Accesses

lemma initialEntries_target {t f : ℕ} (h : target (initialEntries img ad t va) = some f) :
    f < L.pageused ∨ has (initialEntries img ad t va) pteW = true ∧ ¬ Shared (initialEntries img ad t va) := by
  have himg : ∀ {pa perm}, perm.toNat < 1024 → membase ≤ pa ∧ paToPage pa < L.pageused →
      target (mkPte ad pa perm) = some f → f < L.pageused := fun {pa perm} hp hpa ht => by
    rw [target_mkPte _ _ hp, if_pos hpa.1] at ht
    exact Option.some.inj ht ▸ hpa.2
  unfold initialEntries overlay at h ⊢
  split
  · refine .inr ⟨(has_mkPte ad _ _ (k := 2) (by decide) (by decide)).trans (by decide), fun hs => ?_⟩
    exact absurd ((has_mkPte ad _ _ (k := 9) (by decide) (by decide)).symm.trans hs) (by decide)
  · next h1 =>
    rw [if_neg h1] at h
    split
    · next h2 =>
      rw [if_pos h2] at h
      exact .inl (himg (by decide) img.userSigReturn_page h)
    · next h2 =>
      rw [if_neg h2] at h
      split
      · next h3 =>
        rw [if_pos h3] at h
        exact .inl (himg (by decide) img.trampoline_page h)
      · next h3 =>
        rw [if_neg h3] at h
        cases h.symm.trans target_zero

lemma Common.spawned (h : Common L perm va procs members mem s) (hr : v.roots = procs) {t : ℕ}
    (hsp : Spawned L s v [] c (initialEntries img ad t) s' v') :
    Common L perm va (c :: procs) members mem s' := by
  have hroot : ∀ {r}, r ∈ procs → r ∈ v.roots := fun hq => hr ▸ hq
  have hl : ∀ q, q ∈ members → look s' q va = look s q va := fun q hq => hsp.look q va (hroot (h.live q hq))
  refine h.of_look hl (fun q hq => mem_cons_of_mem c (h.live q hq)) (fun q r va' f hq hr' ht ht' => ?_)
    fun q va' hq hp hva => ?_
  · have hq' : q ∈ v.roots := hroot (h.live q hq)
    rcases mem_cons.mp hr' with rfl | hr'
    · rcases initialEntries_target (hsp.child va' ▸ ht') with hlt | ⟨hW, hns⟩
      · have := h.heap q f hq ht
        omega
      · rw [← hsp.child va'] at hW hns
        have hmem : ∀ {x}, x ∈ r :: v.roots → x ∈ v'.roots := fun hx => hsp.roots ▸ hx
        rcases hsp.walled.iso.alone r va' q va f (hmem mem_cons_self) (hmem (mem_cons_of_mem r hq'))
          ht' (hl q hq ▸ ht) hW with he | he
        · exact absurd (he.1 ▸ hq') hsp.new
        · exact absurd he.1 hns
    · exact h.alone q r va' f hq hr' ht (hsp.look r va' (hroot hr') ▸ ht')
  · rw [hsp.content q va' (hroot (h.live q hq))]
    exact h.bytes q va' hq hp hva

lemma Common.spawn (img : Image L) (h : Common L perm va procs members mem s) (hw : Walled L s v [])
    (hr : v.roots = procs) :
    wp (procInitupt img) (fun c s' => Common L perm va (c :: procs) members mem s') NotRefZero s :=
  wp_mono (hw.procInitupt img) fun _ _ ⟨_, _, hsp⟩ => h.spawned hr hsp

lemma SharedPerm.not_private (hk : SharedPerm perm) (hb : SameBits w perm) : ¬ Private (ptePerm w) := fun hp => by
  refine hp.2.2 ?_
  rw [show has (ptePerm w) pteShared = has w pteShared from has_ptePerm w (k := 9) (by decide)]
  exact (hb 9 (by decide) (by decide)).trans hk.shared

lemma SharedPerm.parentEntry (hk : SharedPerm perm) (hb : SameBits w perm) (ad : Bool) : parentEntry ad w = w := by
  unfold Mm.parentEntry
  split
  · rfl
  · exact if_neg (hk.not_private hb)

lemma SharedPerm.childEntry (hk : SharedPerm perm) (hb : SameBits w perm) (hs : Sober L w) (ad : Bool) :
    SameBits (childEntry ad w) perm := by
  have hU : has w pteU = true := (hb 4 (by decide) (by decide)).trans hk.user
  intro k hlt hne
  rw [← hb k hlt hne, ← has_ptePerm w hlt]
  unfold Mm.childEntry
  split
  · rfl
  · next hpas =>
    have hV : has w pteV = true := by
      rw [passive_iff hU] at hpas
      simpa using hpas
    rw [if_neg (hk.not_private hb), hs.entry hV]
    exact has_mkPte ad _ _ hlt hne

lemma Common.forked (h : Common L perm va (c :: procs) members mem s) (hw : Walled L s v [])
    (hr : v.roots = c :: procs) (hp : p ∈ procs) (hc : c ∉ procs) (hold : ∀ q ∈ members, q ∈ procs)
    (hz : look s c va = 0) (hU : ∀ va, look s c va = 0 → look s p va ≠ 0 → has (look s p va) pteU = true)
    (htouch : p ∈ members → target (look s p va) ≠ none)
    (hf : Rewritten L s v [] (forked (look s) s.ad p c) s' v') :
    Common L perm va (c :: procs) (if p ∈ members then c :: members else members) mem s' := by
  have hroot : ∀ {r}, r ∈ c :: procs → r ∈ v.roots := fun hq => hr ▸ hq
  have hpr : p ∈ v.roots := hroot (mem_cons_of_mem c hp)
  have hlook : ∀ r va', r ∈ c :: procs → look s' r va' = Mm.forked (look s) s.ad p c r va' := fun r va' hq =>
    hf.look r va' (hw.inv.shape.root_of_mem (hroot hq))
  have hcases := hw.iso.forked_cases hpr hU s.ad
  have hl : ∀ q, q ∈ members → look s' q va = look s q va := by
    intro q hq
    rw [hlook q va (h.live q hq), Mm.forked]
    split
    · rw [if_neg fun (he : q = c) => hc (he ▸ hold q hq)]
      split
      · next he => rw [← he, h.kind.parentEntry (h.bits q hq)]
      · rfl
    · rfl
  have hchild : p ∈ members → look s' c va = Mm.childEntry s.ad (look s p va) := by
    intro hm
    have hne : look s p va ≠ 0 := fun h0 => htouch hm (by rw [h0]; exact target_zero)
    rw [hlook c va mem_cons_self, Mm.forked, if_pos ⟨hz, hne⟩, if_pos rfl]
  have hcopy : p ∈ members → target (look s' c va) = target (look s p va) := fun hm => by
    have hu : has (look s p va) pteU = true := (h.bits p hm 4 (by decide) (by decide)).trans h.kind.user
    rw [hchild hm]
    exact (copies_childEntry (hw.iso.sober p va hpr) hu s.ad).target
  have hrep : ∀ q, q ∈ (if p ∈ members then c :: members else members) →
      ∃ o, o ∈ members ∧ target (look s' q va) = target (look s o va) ∧ (q = o ∨ p ∈ members ∧ q = c ∧ o = p) := by
    intro q hq
    split at hq
    · next hm =>
      rcases mem_cons.mp hq with rfl | hq
      · exact ⟨p, hm, hcopy hm, .inr ⟨hm, rfl, rfl⟩⟩
      · exact ⟨q, hq, by rw [hl q hq], .inl rfl⟩
    · exact ⟨q, hq, by rw [hl q hq], .inl rfl⟩
  have hsub : ∀ q, q ∈ members → q ∈ (if p ∈ members then c :: members else members) := fun q hq => by
    split
    · exact mem_cons_of_mem c hq
    · exact hq
  refine ⟨h.kind, fun q hq => ?_, fun q hq => ?_, fun q q' hq hq' => ?_, fun q q' hq hq' ht => ?_,
    fun q f hq ht => ?_, fun q r va' f hq hr' ht ht' => ?_, fun q va' hq hp' hva => ?_⟩
  · obtain ⟨o, ho, -, rfl | ⟨-, rfl, -⟩⟩ := hrep q hq
    · exact h.live q ho
    · exact mem_cons_self
  · obtain ⟨o, ho, -, rfl | ⟨hm, rfl, rfl⟩⟩ := hrep q hq
    · rw [hl q ho]
      exact h.bits q ho
    · rw [hchild hm]
      exact h.kind.childEntry (h.bits o ho) (hw.iso.sober o va hpr) s.ad
  · obtain ⟨o, ho, ht, -⟩ := hrep q hq
    obtain ⟨o', ho', ht', -⟩ := hrep q' hq'
    rw [ht, ht']
    exact h.same o o' ho ho'
  · obtain ⟨o, ho, hto, hqo⟩ := hrep q hq
    obtain ⟨o', ho', -, hqo'⟩ := hrep q' hq'
    have hnone : target (look s o va) = none := hto.symm.trans ht
    by_cases hm : p ∈ members
    · exact absurd ((h.same o p ho hm).trans hnone) (htouch hm)
    · rw [hqo.resolve_right fun he => hm he.1, hqo'.resolve_right fun he => hm he.1]
      exact h.lazy o o' ho ho' hnone
  · obtain ⟨o, ho, hto, -⟩ := hrep q hq
    exact h.heap o f ho (hto ▸ ht)
  · obtain ⟨o, ho, hto, -⟩ := hrep q hq
    rw [hto] at ht
    rw [hlook r va' hr'] at ht'
    rcases hcases r va' with ⟨-, hrc, hcp⟩ | ⟨he, -⟩
    · obtain ⟨hm, hpage⟩ := h.alone o p va' f ho (mem_cons_of_mem c hp) ht (hcp.target ▸ ht')
      refine ⟨?_, hpage⟩
      rcases hrc with rfl | rfl
      · rw [if_pos hm]
        exact mem_cons_self
      · exact hsub r hm
    · obtain ⟨hm, hpage⟩ := h.alone o r va' f ho hr' ht (he ▸ ht')
      exact ⟨hsub r hm, hpage⟩
  · obtain ⟨o, ho, hto, -⟩ := hrep q hq
    have hor : o ∈ v.roots := hroot (h.live o ho)
    rw [← h.bytes o va' ho hp' hva]
    refine content_congr (by rw [hp'.look s' q, hp'.look s o, hto]) fun f hf' => ?_
    exact (hf.frame f (hw.plain o va' f hor hf') (Mapped.pinned ⟨o, hor, va', hf'⟩ hw.inv.shape hw.dead)).2

lemma Common.fork (img : Image L) (h : Common L perm va procs members mem s) (hw : Walled L s v [])
    (hr : v.roots = procs)
    (hp : p ∈ procs) (hfix : ¬ Fixed va) (htouch : p ∈ members → has (look s p va) pteV = true) :
    wp (procFork img p) (fun c s' =>
      Common L perm va (c :: procs) (if p ∈ members then c :: members else members) mem s') NotRefZero s := by
  refine wp_mono (hw.procFork img (hr ▸ hp)) fun c s' ⟨s1, v1, v', ⟨t, hsp⟩, hU, hf, _⟩ => ?_
  have h1 := h.spawned hr hsp
  have hpr : p ∈ v.roots := hr ▸ hp
  have hz : look s1 c va = 0 := by
    rw [hsp.child va]
    exact (initialEntries_eq img s.ad t va).elim And.right fun hf => absurd hf.1 hfix
  refine h1.forked hsp.walled (hsp.roots.trans (by rw [hr])) hp (hr ▸ hsp.new) h.live hz hU (fun hm hn => ?_) hf
  obtain ⟨f, hf⟩ := (hw.iso.sober p va hpr).ram (htouch hm)
  rw [hsp.look p va hpr, hf] at hn
  cases hn

def Call.Covers (brk mmapAddr va : BitVec 64) : Call → Prop
  | .fault _ _ => False
  | .mmap start len _ _ file off => ∃ first newAddr,
      mmapStart mmapAddr (pgRoundUpVa start) (pgRoundUpVa len) = some (first, newAddr) ∧ ∃ va', SamePage va va' ∧
        (Reached (· < mapEnd first (pgRoundUpVa len)) (pgRoundDown first) va' ∨
          ∃ i, i < fileBytes file off (pgRoundUpVa len) ∧ va' = first + BitVec.ofNat 64 i)
  | .munmap start len => ∃ va', SamePage va va' ∧ Reached (· ≤ unmapEnd start len) (pgRoundUpVa start) va'
  | .mprotect addr len _ => ∃ va', SamePage va va' ∧ Reached (· < mapEnd addr len) (pgRoundDown addr) va'
  | .brk addr => addr ≠ 0 ∧ ∃ va', SamePage va va' ∧
      (Reached (· ≤ unmapEnd (addr + 1) brk) (pgRoundUpVa (addr + 1)) va' ∨
        Reached (· < mapEnd brk (addr - brk)) (pgRoundDown brk) va')

lemma Call.covers_of_edits {c : Call} (h : c.Edits L brk mmapAddr s pd va2 w) (hp : SamePage va va2) :
    (∃ violation stval, c = .fault violation stval) ∨ c.Covers brk mmapAddr va := by
  cases c with
  | fault violation stval => exact .inl ⟨_, _, rfl⟩
  | mmap start len prot flags file off =>
    obtain ⟨first, newAddr, hs, -, ⟨-, -, hr⟩ | ⟨-, hi⟩⟩ := h
    · exact .inr ⟨first, newAddr, hs, va2, hp, .inl hr⟩
    · exact .inr ⟨first, newAddr, hs, va2, hp, .inr hi⟩
  | munmap start len => exact .inr ⟨va2, hp, h.2⟩
  | mprotect addr len prot => exact .inr ⟨va2, hp, h.2⟩
  | brk addr =>
    obtain ⟨h0, ⟨-, -, hr⟩ | ⟨-, -, -, hr⟩⟩ := h
    · exact .inr ⟨h0, va2, hp, .inl hr⟩
    · exact .inr ⟨h0, va2, hp, .inr hr⟩

lemma Common.call {c : Call} (h : Common L perm va procs members mem s) (hw : Walled L s v []) (hr : v.roots = procs)
    (hp : p ∈ procs) (hc : p ∈ members → ¬ c.Covers brk mmapAddr va) :
    wp (c.exec p brk mmapAddr) (fun _ s' => Common L perm va procs members mem s') NotRefZero s := by
  by_cases hfault : ∃ violation stval, c = .fault violation stval
  · obtain ⟨violation, stval, rfl⟩ := hfault
    exact wp_seq (h.fault hw hr hp) fun _ _ h' => wp_pure.mpr h'
  · refine wp_mono (wp_exec (J := fun s v => Rooted L procs s v ∧ Common L perm va procs members mem s)
      (fun s v hJ => ⟨hJ.1.toGrounded, hJ.1.roots ▸ hp⟩) ⟨hw.rooted hr, h⟩ fun s v va2 w s' v' hJ hedit he => ?_)
      fun _ _ ⟨_, _, h'⟩ => h'
    refine ⟨hJ.1.edit hp he, hJ.2.edit hJ.1 hp he fun hin => ?_⟩
    exact (Call.covers_of_edits hedit hin.2).elim hfault (hc hin.1)

end FarmOS.Mm

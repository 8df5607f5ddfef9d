import FarmOS.Mm.Mmap
import FarmOS.Mm.Spawn

/-! Every call by which a process changes its address space is a sequence of edits of single entries of
its own page table. -/

namespace FarmOS.Mm

open Lib Nat

variable {L : Layout} {s s' s1 : Phys} {v v' : View} {pd f : ℕ} {va start len brk mmapAddr : BitVec 64} {perm w : Pte}
  {more : BitVec 64 → Bool} {body : BitVec 64 → M Unit} {c : Call}

def Reached (more : BitVec 64 → Bool) (start va : BitVec 64) : Prop :=
  ∃ k : ℕ, va = start + BitVec.ofNat 64 (4096 * k) ∧ ∀ j ≤ k, more (start + BitVec.ofNat 64 (4096 * j)) = true

lemma add_pages (start : BitVec 64) (k : ℕ) :
    start + 4096 + BitVec.ofNat 64 (4096 * k) = start + BitVec.ofNat 64 (4096 * (k + 1)) := by
  rw [mul_succ, add_comm (4096 * k), BitVec.ofNat_add, BitVec.add_assoc]
  rfl

lemma Reached.step (h : Reached more (start + 4096) va) (h0 : more start = true) : Reached more start va := by
  obtain ⟨k, rfl, hk⟩ := h
  refine ⟨k + 1, add_pages start k, fun j hj => ?_⟩
  cases j with
  | zero => simpa using h0
  | succ j => exact add_pages start j ▸ hk j (by omega)

lemma Reached.first (h : Reached more start va) :
    more start = true ∧ (va = start ∨ Reached more (start + 4096) va) := by
  obtain ⟨k, rfl, hk⟩ := h
  refine ⟨by simpa using hk 0 (zero_le k), ?_⟩
  cases k with
  | zero => exact .inl (by simp)
  | succ k =>
    refine .inr ⟨k, (add_pages start k).symm, fun j hj => ?_⟩
    rw [add_pages]
    exact hk (j + 1) (by omega)

lemma wp_whilePages {I : Phys → Prop} (fuel : ℕ) (h : I s)
    (hbody : ∀ va s, Reached more start va → I s → wp (body va) (fun _ s' => I s') NotRefZero s) :
    wp (whilePages more body fuel start) (fun _ s' => I s') NotRefZero s := by
  induction fuel generalizing start s with
  | zero => exact wp_throw.mpr nofun
  | succ fuel ih =>
    rw [whilePages, wp_ite]
    refine ⟨fun hm => wp_bind.mpr ?_, fun _ => wp_pure.mpr h⟩
    have h0 : Reached more start start := ⟨0, by simp, fun j hj => by simpa [le_zero.mp hj] using hm⟩
    exact wp_mono (hbody start s h0 h) fun _ s' h' => ih h' fun va s hr => hbody va s (hr.step hm)

lemma wp_panicOn {r : ℤ} {Q : Unit → Phys → Prop} (h : r = 0 → Q () s) : wp (panicOn r) Q NotRefZero s := by
  rw [panicOn, check, wp_ite]
  exact ⟨fun hr => wp_pure.mpr (h hr), fun _ => wp_throw.mpr (by rintro ⟨⟩)⟩

structure Grounded (L : Layout) (s : Phys) (v : View) : Prop where
  inv : Inv L s v []
  dead : v.dead = ∅
  ram (r : ℕ) (va : BitVec 64) : r ∈ v.roots → has (look s r va) pteV = true →
    ∃ f, target (look s r va) = some f

structure Edit (L : Layout) (s : Phys) (v : View) (pd : ℕ) (va : BitVec 64) (w : Pte) (s' : Phys) (v' : View) :
    Prop where
  rewritten : Rewritten L s v [] (put (look s) pd va w) s' v'
  ram : has w pteV = true → ∃ f, target w = some f
  page (f : ℕ) : target w = some f → target (look s pd va) = some f ∨
    L.pageused ≤ f ∧ f < L.npage ∧ s.ref f = 0 ∧ v'.lev f = 0

lemma Edit.look (h : Edit L s v pd va w s' v') (hs : Shape L s v) {r : ℕ} (hr : r ∈ v.roots) (va' : BitVec 64) :
    look s' r va' = put (Mm.look s) pd va w r va' := h.rewritten.look r va' (hs.root_of_mem hr)

lemma Grounded.edit (h : Grounded L s v) (he : Edit L s v pd va w s' v') : Grounded L s' v' := by
  refine ⟨he.rewritten.inv, he.rewritten.kept.dead.trans h.dead, fun r va' hr hV => ?_⟩
  rw [he.rewritten.kept.roots] at hr
  rw [he.look h.inv.shape hr] at hV ⊢
  unfold put at hV ⊢
  split at hV
  · next hp =>
    rw [if_pos hp]
    exact he.ram hV
  · next hp =>
    rw [if_neg hp]
    exact h.ram r va' hr hV

def Unused (L : Layout) (s : Phys) (q : ℕ) : Prop := L.pageused ≤ q ∧ q < L.npage ∧ s.ref q = 0

def Fill (L : Layout) (s : Phys) (perm w : Pte) : Prop :=
  w = perm ∨ ∃ q, w = mkPte s.ad (pageToPa q) perm ∧ Unused L s q

def Reperm (ad : Bool) (old perm w : Pte) : Prop :=
  has old pteV = true ∧ w = mkPte ad (pteToPa old) perm ∨ has old pteV = false ∧ has old pteU = true ∧ w = perm

lemma Placed.edit {content : ℕ → ℕ → BitVec 64} (h : Placed L s v [] pd va perm content s') :
    ∃ v' q, Edit L s v pd va (mkPte s.ad (pageToPa q) perm) s' v' ∧ Unused L s q ∧ s'.mem q = content q := by
  obtain ⟨hperm, v', q, hw, hu, hlt, hz, hl, hmem⟩ := h
  have ht : target (mkPte s.ad (pageToPa q) perm) = some q :=
    target_mkPte_pageToPa (lt_trans hlt L.npage_lt) s.ad hperm
  refine ⟨v', q, ⟨hw, fun _ => ⟨q, ht⟩, fun f hf => .inr ?_⟩, ⟨hu, hlt, hz⟩, hmem⟩
  obtain rfl := Option.some.inj (ht.symm.trans hf)
  exact ⟨hu, hlt, hz, hl⟩

lemma Inv.unmapped {fl : List ℕ} (h : Inv L s v fl) (hd : v.dead = ∅) (hpd : pd ∈ v.roots) :
    wp (Mm.ptUnmap pd va) (fun _ s' => Rewritten L s v fl (put (look s) pd va 0) s' v) NotRefZero s := by
  have hs := h.shape
  have hroot := hs.root_of_mem hpd
  refine wp_mono (h.ptUnmap hd hroot (hs.user_counted hd hpd)) fun _ s' ⟨hinv, x, hx, hsame⟩ => ?_
  have hlev := (hs.slot_lev hd hroot hx).1
  have hmem : ∀ t, t ≠ x.1 → s'.mem t = s.mem t := fun t ht => by
    rw [hsame.mem]
    exact Function.update_of_ne ht ..
  refine ⟨hinv, ⟨rfl, rfl, rfl, hsame.kernPd, hsame.ident, hsame.ad⟩, fun r va' hr => ?_, fun f h0 _ => ⟨h0, ?_⟩,
    fun t i c hl => ?_, fun t ht => .inl ht⟩
  · rw [look_of_mem hsame.mem, hs.look_setWord hd hr hlev, put]
    exact if_congr (hs.slot_eq_iff hd hroot hr hx) rfl rfl
  · exact hmem f fun he => by rw [he] at h0; omega
  · exact (hsame.agrees v).link.mpr ((Link.setWord hlev).mpr hl)

section Pages

variable (h : Grounded L s v) (hpd : pd ∈ v.roots)
include h hpd

lemma Grounded.passive (hperm : perm.toNat < 1024) (hV : has perm pteV = false) :
    wp (ptMap pd va 0 perm) (fun _ s' => ∃ v', Edit L s v pd va perm s' v') NotRefZero s := by
  obtain ⟨hm, hland⟩ := mappable_passive L s [] hperm
  refine wp_mono (h.inv.remap h.dead hpd hm hland) fun _ s' ⟨_, v', hw⟩ => ⟨v', ?_⟩
  rw [show entry s.ad 0 perm = perm from if_pos rfl] at hw
  refine ⟨hw, fun hp => absurd (hV.symm.trans hp) nofun, fun f hf => ?_⟩
  rw [target_of_not_V hV] at hf
  cases hf

lemma Grounded.loadDataMapper (hperm : perm.toNat < 1024) (offset : ℕ) (src : List Byte) :
    wp (loadDataMapper pd va offset perm src) (fun _ s' => ∃ v' w, Fill L s perm w ∧ Edit L s v pd va w s' v')
      NotRefZero s := by
  simp only [Mm.loadDataMapper, wp_bind, vmAlloc, wp_modify]
  refine wp_mono h.inv.pmAlloc fun p s1 hp => ?_
  have hplace : wp (ptMap pd va (pageToPa p) perm) (fun r s' => r = 0 ∧
      Placed L s v [] pd va perm (fun _ => (s1.writeBytes p offset src).mem p) s') NotRefZero
      (s1.setPage p ((s1.writeBytes p offset src).mem p)) := h.inv.place h.dead hpd hp hperm _ rfl
  rw [← writeBytes_eq] at hplace
  refine wp_mono hplace fun _ s' ⟨_, hpl⟩ => ?_
  obtain ⟨v', q, he, hz, -⟩ := hpl.edit
  exact ⟨v', _, .inr ⟨q, rfl, hz⟩, he⟩

lemma Grounded.mapPage (hperm : perm.toNat < 1024) (hV : has perm pteV = false) :
    wp (mapPage pd perm va) (fun _ s' => pteToPa (look s pd va) ≠ 0 ∧ s' = s ∨ ∃ v' w, pteToPa (look s pd va) = 0 ∧
      Fill L s perm w ∧ Edit L s v pd va w s' v' ∧ ∀ f, target w = some f → ∀ i, s'.mem f i = 0) NotRefZero s := by
  simp only [Mm.mapPage, wp_bind, wp_ptLookup, wp_ite, wp_pure, vmAlloc, check, wp_throw]
  refine ⟨fun h0 => ⟨fun _ => ?_, fun _ => ⟨fun _ => ?_, fun _ => by rintro ⟨⟩⟩⟩, fun hn => .inl ⟨hn, trivial⟩⟩
  · refine wp_mono h.inv.pmAlloc fun p s1 hp => ?_
    have hplace : wp (ptMap pd va (pageToPa p) perm) (fun r s' => r = 0 ∧
        Placed L s v [] pd va perm (fun _ _ => 0) s') NotRefZero (s1.setPage p (s1.mem p)) :=
      h.inv.place h.dead hpd hp hperm _ (funext hp.zero)
    rw [setPage_self] at hplace
    refine wp_mono hplace fun r s' hpl => wp_panicOn fun _ => .inr ?_
    obtain ⟨v', q, he, hz, hmem⟩ := hpl.2.edit
    refine ⟨v', _, h0, .inr ⟨q, rfl, hz⟩, he, fun f hf i => ?_⟩
    rw [target_mkPte_pageToPa (lt_trans hz.2.1 L.npage_lt) s.ad hperm] at hf
    rw [← Option.some.inj hf, hmem]
  · refine wp_mono (h.passive hpd hperm hV) ?_
    rintro r s' ⟨v', he⟩
    refine wp_panicOn fun _ => .inr ⟨v', perm, h0, .inl rfl, he, fun f hf => ?_⟩
    rw [target_of_not_V hV] at hf
    cases hf

lemma Grounded.unmapPage : wp (unmapPage pd va) (fun _ s' => Edit L s v pd va 0 s' v) NotRefZero s := by
  refine wp_seq (h.inv.unmapped h.dead hpd) fun r s' hw => wp_panicOn fun _ => ?_
  refine ⟨hw, fun h0 => absurd h0 (by decide), fun f hf => ?_⟩
  cases hf.symm.trans target_zero

lemma Grounded.protectPage (hperm : perm.toNat < 1024) (hV : has perm pteV = false) :
    wp (protectPage pd perm va) (fun _ s' => s' = s ∨ ∃ v' w, Reperm s.ad (look s pd va) perm w ∧
      Edit L s v pd va w s' v') NotRefZero s := by
  simp only [Mm.protectPage, wp_bind, wp_ptLookup, wp_ite, wp_pure, check, wp_throw]
  refine ⟨fun hn => ⟨fun _ => ?_, fun _ => by rintro ⟨⟩⟩, fun _ => ⟨fun hv => ?_, fun _ => .inl trivial⟩⟩
  · refine wp_mono (h.passive hpd hperm hV) ?_
    rintro r s' ⟨v', he⟩
    exact wp_panicOn fun _ => .inr ⟨v', perm, .inr ⟨by simpa using hn.1, hn.2, rfl⟩, he⟩
  · obtain ⟨hm, hland⟩ := h.inv.sharing h.dead hpd hv hperm
    obtain ⟨f, hf⟩ := h.ram pd va hpd hv
    obtain ⟨⟨-, hb⟩, hfe⟩ := (target_eq_some_iff _ _).mp hf
    have hentry : entry s.ad (pteToPa (look s pd va)) perm = mkPte s.ad (pteToPa (look s pd va)) perm := by
      refine if_neg fun h0 => ?_
      rw [h0] at hb
      exact absurd hb (by decide)
    have ht : target (mkPte s.ad (pteToPa (look s pd va)) perm) = some f := by
      rw [target_mkPte _ _ hperm, if_pos hb, hfe]
    refine wp_mono (h.inv.remap h.dead hpd hm hland) ?_
    rintro r s' ⟨_, v', hw⟩
    refine wp_panicOn fun _ => ?_
    rw [hentry] at hw
    refine .inr ⟨v', _, .inl ⟨hv, rfl⟩, hw, fun _ => ⟨f, ht⟩, fun g hg => .inl ?_⟩
    rw [hf, ← ht, hg]

end Pages

def fileBytes (file : Option (List Byte)) (off : BitVec 32) (len : BitVec 64) : ℕ :=
  match file with
  | none => 0
  | some file => if file.length ≤ (off.signExtend 64).toNat then 0 else ((file.drop off.toNat).take len.toNat).length

def Call.Edits (L : Layout) (c : Call) (brk mmapAddr : BitVec 64) (s : Phys) (pd : ℕ) (va : BitVec 64)
    (w : Pte) : Prop :=
  match c with
  | .fault violation stval => va = stval &&& ~~~0xfff ∧ ∃ q, Unused L s q ∧
      (CowFault violation (look s pd va) ∧ w = mkPte s.ad (pageToPa q) (cowedPerm (look s pd va)) ∨
        PassiveFault violation (look s pd va) ∧ w = mkPte s.ad (pageToPa q) (look s pd va))
  | .mmap start len prot flags file off => ∃ first newAddr,
      mmapStart mmapAddr (pgRoundUpVa start) (pgRoundUpVa len) = some (first, newAddr) ∧
      Fill L s (mmapPerm prot flags) w ∧
      (flags &&& mapAnonymous ≠ 0 ∧ pteToPa (look s pd va) = 0 ∧
          Reached (· < mapEnd first (pgRoundUpVa len)) (pgRoundDown first) va ∨
        flags &&& mapAnonymous = 0 ∧ ∃ i, i < fileBytes file off (pgRoundUpVa len) ∧ va = first + BitVec.ofNat 64 i)
  | .munmap start len => w = 0 ∧ Reached (· ≤ unmapEnd start len) (pgRoundUpVa start) va
  | .mprotect addr len prot => Reperm s.ad (look s pd va) (getPermByProt prot) w ∧
      Reached (· < mapEnd addr len) (pgRoundDown addr) va
  | .brk addr => addr ≠ 0 ∧
      (addr < brk ∧ w = 0 ∧ Reached (· ≤ unmapEnd (addr + 1) brk) (pgRoundUpVa (addr + 1)) va ∨
        ¬ addr < brk ∧ Fill L s (pteR ||| pteW ||| pteU) w ∧ pteToPa (look s pd va) = 0 ∧
          Reached (· < mapEnd brk (addr - brk)) (pgRoundDown brk) va)

lemma getPermByProt_lt (prot : BitVec 32) : (getPermByProt prot).toNat < 1024 := by
  unfold getPermByProt
  split <;> split <;> split <;> decide

lemma getPermByProt_V (prot : BitVec 32) : has (getPermByProt prot) pteV = false := by
  unfold getPermByProt
  split <;> split <;> split <;> decide

lemma mmapPerm_lt (prot flags : BitVec 32) : (mmapPerm prot flags).toNat < 1024 := by
  unfold mmapPerm getPermByProt
  split <;> split <;> split <;> split <;> decide

lemma mmapPerm_V (prot flags : BitVec 32) : has (mmapPerm prot flags) pteV = false := by
  unfold mmapPerm getPermByProt
  split <;> split <;> split <;> split <;> decide

lemma toNat_le_signExtend (x : BitVec 32) : x.toNat ≤ (x.signExtend 64).toNat := by
  have hx := x.isLt
  rw [BitVec.toNat_signExtend, BitVec.toNat_setWidth, mod_eq_of_lt (by omega)]
  exact Nat.le_add_right ..

section Rules

variable {J : Phys → View → Prop} (hJ : ∀ s v, J s v → Grounded L s v ∧ pd ∈ v.roots) (h : J s v)
include hJ h

lemma wp_sysMap (hperm : perm.toNat < 1024) (hV : has perm pteV = false)
    (hedit : ∀ s v va w s' v', J s v → Reached (· < mapEnd start len) (pgRoundDown start) va →
      pteToPa (look s pd va) = 0 → Fill L s perm w → Edit L s v pd va w s' v' → J s' v') :
    wp (sysMap pd start len perm) (fun _ s' => ∃ v', J s' v') NotRefZero s := by
  refine wp_seq (wp_whilePages (I := fun s => ∃ v, J s v) _ ⟨v, h⟩ fun va s hr ⟨v, hv⟩ => ?_)
    fun _ _ h' => wp_pure.mpr h'
  refine wp_mono ((hJ s v hv).1.mapPage (hJ s v hv).2 hperm hV) fun _ s' h' => ?_
  rcases h' with ⟨-, rfl⟩ | ⟨v', w, h0, hf, he, -⟩
  · exact ⟨v, hv⟩
  · exact ⟨v', hedit s v va w s' v' hv hr h0 hf he⟩

lemma wp_sysUnmap (hedit : ∀ s v va s' v', J s v → Reached (· ≤ unmapEnd start len) (pgRoundUpVa start) va →
      Edit L s v pd va 0 s' v' → J s' v') :
    wp (sysUnmap pd start len) (fun _ s' => ∃ v', J s' v') NotRefZero s := by
  refine wp_seq (wp_whilePages (I := fun s => ∃ v, J s v) _ ⟨v, h⟩ fun va s hr ⟨v, hv⟩ => ?_)
    fun _ _ h' => wp_pure.mpr h'
  exact wp_mono ((hJ s v hv).1.unmapPage (hJ s v hv).2) fun _ s' he => ⟨v, hedit s v va s' v hv hr he⟩

lemma wp_sysMprotect {prot : BitVec 32} (hedit : ∀ s v va w s' v', J s v →
      Reached (· < mapEnd start len) (pgRoundDown start) va →
      Reperm s.ad (look s pd va) (getPermByProt prot) w → Edit L s v pd va w s' v' → J s' v') :
    wp (sysMprotect pd start len prot) (fun _ s' => ∃ v', J s' v') NotRefZero s := by
  refine wp_seq (wp_whilePages (I := fun s => ∃ v, J s v) _ ⟨v, h⟩ fun va s hr ⟨v, hv⟩ => ?_)
    fun _ _ h' => wp_pure.mpr h'
  refine wp_mono ((hJ s v hv).1.protectPage (hJ s v hv).2 (getPermByProt_lt prot) (getPermByProt_V prot))
    fun _ s' h' => ?_
  rcases h' with rfl | ⟨v', w, hp, he⟩
  · exact ⟨v, hv⟩
  · exact ⟨v', hedit s v va w s' v' hv hr hp he⟩

lemma wp_filePages {data : List Byte} (hperm : perm.toNat < 1024) (hdata : 0 < data.length)
    (hedit : ∀ s v i w s' v', J s v → i < data.length → Fill L s perm w →
      Edit L s v pd (start + BitVec.ofNat 64 i) w s' v' → J s' v') :
    wp (filePages pd start perm data) (fun _ s' => ∃ v', J s' v') NotRefZero s := by
  have hload : ∀ {i} offset src {s}, i < data.length → (∃ v, J s v) →
      wp (loadDataMapper pd (start + BitVec.ofNat 64 i) offset perm src) (fun _ s' => ∃ v', J s' v') NotRefZero s := by
    intro i offset src s hi ⟨v, hv⟩
    refine wp_mono ((hJ s v hv).1.loadDataMapper (hJ s v hv).2 hperm offset src) fun _ s' ⟨v', w, hf, he⟩ => ?_
    exact ⟨v', hedit s v i w s' v' hv hi hf he⟩
  have hrest : ∀ {s}, (∃ v, J s v) → wp (fileRest pd start perm data) (fun _ s' => ∃ v', J s' v') NotRefZero s := by
    intro s hv
    refine wp_bind.mpr (wp_loop (I := fun _ s => ∃ v, J s v) _ hv (fun k s _ hk hv => ?_) fun s hv => wp_pure.mpr hv)
    have hlt : fileFirst start data + k * pageSize < data.length := by
      rw [pageSize]
      omega
    refine wp_mono (hload _ _ hlt hv) fun r s' h' => ?_
    split
    · exact wp_pure.mpr h'
    · exact h'
  unfold filePages
  rw [wp_ite]
  refine ⟨fun _ => wp_bind.mpr ?_, fun _ => hrest ⟨v, h⟩⟩
  have hfirst := hload (pageOff start) (data.take (fileFirst start data)) hdata ⟨v, h⟩
  rw [BitVec.add_zero] at hfirst
  refine wp_mono hfirst fun r s' h' => ?_
  split
  · exact wp_pure.mpr h'
  · exact hrest h'

lemma wp_sysMmap (brk : BitVec 64) {prot flags : BitVec 32} {file : Option (List Byte)} {off : BitVec 32}
    (hedit : ∀ s v va w s' v', J s v → (Call.mmap start len prot flags file off).Edits L brk mmapAddr s pd va w →
      Edit L s v pd va w s' v' → J s' v') :
    wp (sysMmap pd mmapAddr start len prot flags file off) (fun _ s' => ∃ v', J s' v') NotRefZero s := by
  have hdone : ∀ {s} {a : BitVec 64 × BitVec 64}, (∃ v, J s v) → wp (pure a : M _)
    (fun _ s' => ∃ v', J s' v') NotRefZero s :=
    fun hv => wp_pure.mpr hv
  unfold sysMmap
  rw [wp_ite]
  refine ⟨fun _ => hdone ⟨v, h⟩, fun hlen => ?_⟩
  cases hstart : mmapStart mmapAddr (pgRoundUpVa start) (pgRoundUpVa len) with
  | none => exact hdone ⟨v, h⟩
  | some x =>
    obtain ⟨first, newAddr⟩ := x
    simp only [wp_ite]
    refine ⟨fun ha => ?_, fun ha => ?_⟩
    · refine wp_seq (wp_sysMap hJ h (mmapPerm_lt ..) (mmapPerm_V ..)
        fun s v va w s' v' hv hr h0 hf he => ?_) fun _ _ => hdone
      exact hedit s v va w s' v' hv ⟨first, newAddr, hstart, hf, .inl ⟨ha, h0, hr⟩⟩ he
    · cases file with
      | none => exact hdone ⟨v, h⟩
      | some file =>
        have hpos : 0 < (pgRoundUpVa len).toNat := by
          by_contra h0
          exact hlen (BitVec.eq_of_toNat_eq (by simpa using h0))
        refine wp_seq ?_ fun _ _ => hdone
        rw [fileMap, wp_ite]
        refine ⟨fun _ => wp_pure.mpr ⟨v, h⟩, fun hoff => ?_⟩
        have hbytes : fileBytes (some file) off (pgRoundUpVa len) =
            ((file.drop off.toNat).take (pgRoundUpVa len).toNat).length := if_neg hoff
        have hnat : off.toNat < file.length := lt_of_le_of_lt (toNat_le_signExtend off) (by omega)
        refine wp_filePages hJ h (mmapPerm_lt ..) ?_ fun s v i w s' v' hv hi hf he => ?_
        · rw [List.length_take, List.length_drop]
          omega
        · refine hedit s v _ w s' v' hv ⟨first, newAddr, hstart, hf, .inr ⟨by simpa using ha, i, ?_, rfl⟩⟩ he
          rwa [hbytes]

lemma wp_sysBrk (mmapAddr : BitVec 64) {addr : BitVec 64} (hedit : ∀ s v va w s' v', J s v →
      (Call.brk addr).Edits L brk mmapAddr s pd va w → Edit L s v pd va w s' v' → J s' v') :
    wp (sysBrk pd brk addr) (fun _ s' => ∃ v', J s' v') NotRefZero s := by
  unfold sysBrk
  simp only [wp_ite]
  refine ⟨fun _ => wp_pure.mpr ⟨v, h⟩, fun h0 => ⟨fun hlt => ?_, fun hlt => ?_⟩⟩
  · refine wp_seq (wp_sysUnmap hJ h fun s v va s' v' hv hr he => ?_) fun _ _ h' => wp_pure.mpr h'
    exact hedit s v va 0 s' v' hv ⟨h0, .inl ⟨hlt, rfl, hr⟩⟩ he
  · refine wp_seq (wp_sysMap hJ h (by decide) (by decide)
      fun s v va w s' v' hv hr hz hf he => ?_) fun _ _ h' => wp_pure.mpr h'
    exact hedit s v va w s' v' hv ⟨h0, .inr ⟨hlt, hf, hz, hr⟩⟩ he

lemma wp_exec (hedit : ∀ s v va w s' v', J s v → c.Edits L brk mmapAddr s pd va w →
      Edit L s v pd va w s' v' → J s' v') :
    wp (c.exec pd brk mmapAddr) (fun _ s' => ∃ v', J s' v') NotRefZero s := by
  have hdone : ∀ {α : Type} {s} {a : α}, (∃ v, J s v) → wp (pure a : M α) (fun _ s' => ∃ v', J s' v') NotRefZero s :=
    fun hv => wp_pure.mpr hv
  cases c with
  | fault violation stval =>
    refine wp_seq ((hJ s v h).1.inv.pageFaultHandler (hJ s v h).1.dead (hJ s v h).2)
      fun r s' h' => hdone ?_
    rcases h' with ⟨hc, -, hpl⟩ | ⟨hp, -, hpl⟩ | ⟨-, -, -, rfl⟩
    · obtain ⟨v', q, he, hz, -⟩ := hpl.edit
      exact ⟨v', hedit s v _ _ s' v' h ⟨rfl, q, hz, .inl ⟨hc, rfl⟩⟩ he⟩
    · obtain ⟨v', q, he, hz, -⟩ := hpl.edit
      exact ⟨v', hedit s v _ _ s' v' h ⟨rfl, q, hz, .inr ⟨hp, rfl⟩⟩ he⟩
    · exact ⟨v, h⟩
  | mmap start len prot flags file off =>
    exact wp_seq (wp_sysMmap hJ h brk hedit) fun _ _ => hdone
  | munmap start len =>
    refine wp_seq (wp_sysUnmap hJ h fun s v va s' v' hv hr he => ?_) fun _ _ => hdone
    exact hedit s v va 0 s' v' hv ⟨rfl, hr⟩ he
  | mprotect addr len prot =>
    refine wp_seq (wp_sysMprotect hJ h fun s v va w s' v' hv hr hp he => ?_) fun _ _ => hdone
    exact hedit s v va w s' v' hv ⟨hp, hr⟩ he
  | brk addr => exact wp_seq (wp_sysBrk hJ h mmapAddr hedit) fun _ _ => hdone

end Rules

end FarmOS.Mm

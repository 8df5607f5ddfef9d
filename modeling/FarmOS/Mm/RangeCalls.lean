import FarmOS.Mm.Range

/-! What `sys_map`, `sys_mprotect`, `sys_unmap` and `sys_mmap` leave of a range of addresses. -/

namespace FarmOS.Mm

open Lib

variable {L : Layout} {s s' : Phys} {v v' : View} {roots fl : List ℕ} {pd n : ℕ}
  {va start len mmapAddr : BitVec 64} {perm w : Pte} {R : Pte → Pte → Prop} {first va' : BitVec 64}
  {flags off : BitVec 32} {file : Option (List Byte)}

lemma Granted.present {ad : Bool} (h : Granted L ad perm w) : Present w := by
  rcases h with ⟨rfl, hU⟩ | ⟨q, -, rfl⟩
  · by_cases hV : has w pteV = true
    · exact .inl hV
    · exact .inr (by simp [ptePassive, hV, hU])
  · exact .inl (has_V_mkPte ..)

lemma Present.ne_zero (h : Present w) : w ≠ 0 := by
  rintro rfl
  revert h
  decide

def Elsewhere (s : Phys) (roots : List ℕ) (pd : ℕ) (start len : BitVec 64) (s' : Phys) : Prop :=
  ∀ r va, (r = s.kernPd ∨ r ∈ roots) → ¬ (r = pd ∧ Meets start len va) → look s' r va = look s r va

lemma Ranged.elsewhere (h : Ranged L s v fl pd R start n s') (ht : Tidy L s v fl)
    (hm : ∀ va, Pages start n va → Meets va' len va) : Elsewhere s v.roots pd va' len s' := fun r va hr hn =>
  h.outside r va ((ht.inv.shape.root r).mpr hr) fun hc => hn ⟨hc.1, hm va hc.2⟩

structure MapsRange (L : Layout) (s : Phys) (roots : List ℕ) (pd : ℕ) (start len : BitVec 64) (perm : Pte) (s' : Phys) :
    Prop where
  present (va : BitVec 64) : Meets start len va → Present (look s' pd va)
  granted (va : BitVec 64) : Meets start len va → ¬ Present (look s pd va) → Granted L s.ad perm (look s' pd va)
  kept (va : BitVec 64) : Meets start len va → Present (look s pd va) → look s' pd va = look s pd va
  others : Elsewhere s roots pd start len s'

structure ProtectsRange (s : Phys) (roots : List ℕ) (pd : ℕ) (start len : BitVec 64) (perm : Pte) (s' : Phys) :
    Prop where
  guarded (va : BitVec 64) : Meets start len va → Present (look s pd va) →
    Reperm s.ad (look s pd va) perm (look s' pd va)
  holes (va : BitVec 64) : Meets start len va → ¬ Present (look s pd va) → look s' pd va = look s pd va
  others : Elsewhere s roots pd start len s'

structure UnmapsRange (s : Phys) (roots : List ℕ) (pd : ℕ) (start len : BitVec 64) (s' : Phys) : Prop where
  gone (va : BitVec 64) : Meets start len va → look s' pd va = 0
  others : Elsewhere s roots pd start len s'

/-- The pages that the loops of `sys_map` and `sys_mprotect` go through: all pages of the range but, where its last
byte is the first of a page, the last one. -/
def Visited (start len va : BitVec 64) : Prop := Pages (pgRoundDown start) (mapCount start len) va

def Installable (s : Phys) (pd : ℕ) (start len : BitVec 64) (perm : Pte) : Prop :=
  ∀ va, Meets start len va → (¬ Visited start len va → Present (look s pd va)) ∧
    (Visited start len va → Present (look s pd va) → pteToPa (look s pd va) = 0 →
      look s pd va = perm ∧ ¬ Low (pgRoundDown start) (mapCount start len) va)

def Protectable (s : Phys) (pd : ℕ) (start len : BitVec 64) (perm : Pte) : Prop :=
  ∀ va, Meets start len va → ¬ Visited start len va → Present (look s pd va) →
    Reperm s.ad (look s pd va) perm (look s pd va)

lemma visited_meets (hlen : 0 < len.toNat) (hend : start.toNat + len.toNat ≤ 2 ^ 64) (hv : Visited start len va) :
    Meets start len va := by
  obtain ⟨j, hj, hp⟩ := hv
  exact (meets_iff hlen hend).mpr ⟨j, Nat.lt_of_lt_of_le hj (mapCount_le hlen hend), hp⟩

section Tables

variable (h : Tidy L s v fl) (hpd : pd ∈ v.roots)
include h hpd

lemma Tidy.valid_of_frame (h0 : pteToPa (look s pd va) ≠ 0) : has (look s pd va) pteV = true := by
  by_contra hV
  exact h0 (h.inv.shape.look_inval h.dead (h.inv.shape.root_of_mem hpd) (by simpa using hV))

lemma Tidy.mapsRange (hlen : 0 < len.toNat) (hend : start.toNat + len.toNat ≤ 2 ^ 64) (hperm : perm.toNat < 1024) :
    wp (Mm.sysMap pd start len perm) (fun _ s' =>
      MapsRange L s v.roots pd start len perm s' ↔ Installable s pd start len perm) Halts s := by
  have hroot := h.inv.shape.root_of_mem hpd
  have hpassive : wp (Mm.sysMap pd start len perm) (fun _ s' => ∀ va, pteToPa (look s pd va) = 0 →
      (Low (pgRoundDown start) (mapCount start len) va → pteToPa (look s' pd va) ≠ 0) ∧
      (¬ Low (pgRoundDown start) (mapCount start len) va → look s pd va = perm → look s' pd va = perm))
      (fun _ => True) s := by
    cases hrun : (Mm.sysMap pd start len perm).run s with
    | ok r =>
      obtain ⟨a, s1⟩ := r
      refine (wp_ok hrun).mpr fun va h0 => ?_
      have hva := wp_of_ok (h.sysMap_passive hpd hperm h0) hrun
      exact hva
    | error e => rw [wp, hrun]; trivial
  refine wp_both (h.sysMap hpd hperm) hpassive (fun _ s' hr hlow => ?_) fun _ he _ => he
  replace hr := hr.2
  have hout : ∀ va, ¬ Visited start len va → look s' pd va = look s pd va := fun va hn =>
    hr.outside pd va hroot fun hc => hn hc.2
  constructor
  · intro hM va hm
    refine ⟨fun hn => hout va hn ▸ hM.present va hm, fun hsw hp h0 => ?_⟩
    have hkept := hM.kept va hm hp
    refine ⟨?_, fun hl => (hlow va h0).1 hl (by rw [hkept, h0])⟩
    rcases hr.inside va hsw with ⟨hn, -⟩ | ⟨-, ⟨hw, -⟩ | ⟨q, hq, hw⟩⟩
    · exact absurd h0 hn
    · rw [← hkept, hw]
    · have hne : pteToPa (mkPte s.ad (pageToPa q) perm) ≠ 0 := pteToPa_fresh hq hperm
      exact absurd (by rw [← hw, hkept, h0]) hne
  · intro hI
    refine ⟨fun va hm => ?_, fun va hm hn => ?_, fun va hm hp => ?_, hr.elsewhere h fun _ => visited_meets hlen hend⟩
    · by_cases hsw : Visited start len va
      · rcases hr.inside va hsw with ⟨h0, he⟩ | ⟨-, hg⟩
        · exact .inl (he ▸ h.valid_of_frame hpd h0)
        · exact hg.present
      · rw [hout va hsw]
        exact (hI va hm).1 hsw
    · have hsw : Visited start len va := of_not_not fun hsw => hn ((hI va hm).1 hsw)
      rcases hr.inside va hsw with ⟨h0, -⟩ | ⟨-, hg⟩
      · exact absurd (.inl (h.valid_of_frame hpd h0)) hn
      · exact hg
    · by_cases hsw : Visited start len va
      · rcases hr.inside va hsw with ⟨-, he⟩ | ⟨h0, -⟩
        · exact he
        · obtain ⟨hperm', hl⟩ := (hI va hm).2 hsw hp h0
          exact ((hlow va h0).2 hl hperm').trans hperm'.symm
      · exact hout va hsw

lemma Tidy.protectsRange (hlen : 0 < len.toNat) (hend : start.toNat + len.toNat ≤ 2 ^ 64) (prot : BitVec 32) :
    wp (Mm.sysMprotect pd start len prot) (fun _ s' => ProtectsRange s v.roots pd start len (getPermByProt prot) s' ↔
      Protectable s pd start len (getPermByProt prot)) Halts s := by
  have hroot := h.inv.shape.root_of_mem hpd
  refine wp_mono (h.sysMprotect hpd prot) fun _ s' ⟨_, hr⟩ => ?_
  have hout : ∀ va, ¬ Visited start len va → look s' pd va = look s pd va := fun va hn =>
    hr.outside pd va hroot fun hc => hn hc.2
  constructor
  · intro hP va hm hsw hp
    have hg := hP.guarded va hm hp
    rwa [hout va hsw] at hg
  · intro hp
    refine ⟨fun va hm hpres => ?_, fun va hm hn => ?_, hr.elsewhere h fun _ => visited_meets hlen hend⟩
    · by_cases hsw : Visited start len va
      · exact (hr.inside va hsw).resolve_right fun hc => hc.1 hpres
      · rw [hout va hsw]
        exact hp va hm hsw hpres
    · by_cases hsw : Visited start len va
      · rcases hr.inside va hsw with (⟨hV, -⟩ | ⟨hV, hU, -⟩) | ⟨-, he⟩
        · exact absurd (.inl hV) hn
        · exact absurd (.inr (by simp [ptePassive, hV, hU])) hn
        · exact he
      · exact hout va hsw

lemma Tidy.unmapsRange (hstart : start.toNat % 4096 = 0) (hlen : 0 < len.toNat)
    (hend : start.toNat + len.toNat ≤ 2 ^ 38) :
    wp (Mm.sysUnmap pd start len) (fun r s' => r = 0 ∧ UnmapsRange s v.roots pd start len s') (fun _ => False) s ↔
      ∀ va, Meets start len va → look s pd va ≠ 0 := by
  have hdown : pgRoundDown start = start := BitVec.eq_of_toNat_eq (by rw [toNat_pgRoundDown]; omega)
  have hiff : ∀ va, Meets start len va ↔ Pages start (pageSpan start len) va := fun va => by
    rw [meets_iff hlen (by omega), hdown]
  have hwp := h.sysUnmap hpd hstart hlen hend
  refine ⟨fun hw va hm => ?_, fun hfull => wp_mono (wp_mono_error hwp fun _ ⟨va, hm, h0⟩ => hfull va hm h0) ?_⟩
  · obtain ⟨r, s', hrun, -⟩ := wp_total hw
    exact ((wp_of_ok hwp hrun).2.inside va ((hiff va).mp hm)).1
  · rintro _ s' ⟨h0, hr⟩
    exact ⟨h0, fun va hm => (hr.inside va ((hiff va).mp hm)).2, hr.elsewhere h fun va => (hiff va).mpr⟩

lemma Tidy.loadDataMapper (hperm : perm.toNat < 1024) (offset : ℕ) (src : List Byte) :
    wp (Mm.loadDataMapper pd va offset perm src) (fun r s' => r = 0 ∧ ∃ w, Present w ∧ Alters L s v fl pd va w s')
      NotRefZero s := by
  have hs := h.inv.shape
  refine wp_seq h.vmAlloc fun p s1 ⟨h1, hp⟩ => wp_bind.mpr (wp_modify.mpr ?_)
  obtain ⟨h2, hag⟩ := h1.writeBytes hp.lev offset src
  have had := (writeBytes_fields s1 p offset src).2.2.2.2.2
  refine wp_mono (h2.altersFresh (hs.root_of_mem hpd) (h2.inv.shape.user_counted h.dead hpd) hp.lt hp.lev hperm)
    fun r s2 ⟨hr, ha⟩ => ⟨hr, _, .inl (has_V_mkPte ..), .after h hp.agrees hp.ad (.after h1 hag had ha)⟩

lemma Tidy.filePages (hva : va.toNat % 4096 = 0) (hperm : perm.toNat < 1024) (data : List Byte) :
    wp (Mm.filePages pd va perm data) (fun r s' => r = va ∧
      Ranged L s v fl pd (fun _ w => Present w) va ((data.length + 4095) / 4096) s') NotRefZero s := by
  have hoff : pageOff va = 0 := hva
  have hfirst : fileFirst va data = 0 := if_neg (not_not.mpr hoff)
  have hroot := h.inv.shape.root_of_mem hpd
  rw [Mm.filePages, if_neg (not_not.mpr hoff), fileRest, hfirst, Nat.sub_zero]
  refine wp_seq (wp_loop_zero (I := fun k s' => Ranged L s v fl pd (fun _ w => Present w) va k s') _
    h.ranged fun k s' _ hI => ?_) fun r s' hI => wp_pure.mpr ⟨if_neg (not_not.mpr hI.1), hI.2⟩
  obtain ⟨v', ht, hk⟩ := hI.tidy
  have hpage : 0 + k * pageSize = 4096 * k := by
    rw [pageSize]
    omega
  rw [fileChunk, hpage]
  refine wp_mono (ht.loadDataMapper (hk.roots.symm ▸ hpd) hperm 0 _) ?_
  rintro r s2 ⟨hr, w, hw, ha⟩
  refine ⟨hr, ?_⟩
  exact hI.step h hroot ht hk ha (T := fun _ w => Present w) hw (fun _ _ => id) fun _ _ _ _ => id

end Tables

def mmapPages (first len : BitVec 64) (flags : BitVec 32) (file : Option (List Byte)) (off : BitVec 32) : ℕ :=
  if flags &&& mapAnonymous ≠ 0 then mapCount first len else (fileBytes file off len + 4095) / 4096

lemma pgRoundUpVa_mod (a : BitVec 64) : (pgRoundUpVa a).toNat % 4096 = 0 := by
  rw [show pgRoundUpVa a = pgRoundDown (a + 4095) from rfl, toNat_pgRoundDown]
  omega

lemma mmapStart_mod {newAddr : BitVec 64} (hcur : mmapAddr.toNat % 4096 = 0)
    (h : mmapStart mmapAddr (pgRoundUpVa start) len = some (first, newAddr)) : first.toNat % 4096 = 0 := by
  unfold mmapStart at h
  dsimp only at h
  split at h
  · split at h
    · cases h
    · obtain ⟨rfl, -⟩ := Prod.mk.inj (Option.some.inj h)
      exact hcur
  · obtain ⟨rfl, -⟩ := Prod.mk.inj (Option.some.inj h)
    exact pgRoundUpVa_mod start

lemma Tidy.sysMmap (h : Tidy L s v fl) (hpd : pd ∈ v.roots) (hcur : mmapAddr.toNat % 4096 = 0) {prot : BitVec 32} :
    wp (Mm.sysMmap pd mmapAddr start len prot flags file off) (fun a s' => a.1 = mapFailed ∧ s' = s ∨
      pgRoundUpVa len ≠ 0 ∧ mmapStart mmapAddr (pgRoundUpVa start) (pgRoundUpVa len) = some (a.1, a.2) ∧
        Ranged L s v fl pd (fun _ w => Present w) a.1 (mmapPages a.1 (pgRoundUpVa len) flags file off) s')
      NotRefZero s := by
  unfold Mm.sysMmap
  rw [wp_ite]
  refine ⟨fun _ => wp_pure.mpr (.inl ⟨rfl, rfl⟩), fun hlen => ?_⟩
  cases hstart : mmapStart mmapAddr (pgRoundUpVa start) (pgRoundUpVa len) with
  | none => exact wp_pure.mpr (.inl ⟨rfl, rfl⟩)
  | some x =>
    obtain ⟨first, newAddr⟩ := x
    have hmod := mmapStart_mod hcur hstart
    simp only [wp_ite]
    refine ⟨fun ha => ?_, fun ha => ?_⟩
    · have hdown : pgRoundDown first = first := BitVec.eq_of_toNat_eq (by rw [toNat_pgRoundDown]; omega)
      refine wp_seq (wp_mono_error (h.sysMap hpd (mmapPerm_lt prot flags)) ?_) ?_
      · rintro e (rfl | rfl) <;> simp [NotRefZero]
      · rintro r s' ⟨hr, hg⟩
        refine wp_pure.mpr (.inr ⟨hlen, ?_⟩)
        rw [hr, if_neg (by decide), mmapPages, if_pos ha]
        rw [hdown] at hg
        refine ⟨rfl, hg.tidy, fun va hp => ?_, hg.outside⟩
        rcases hg.inside va hp with ⟨h0, he⟩ | ⟨-, hg⟩
        · exact .inl (he ▸ h.valid_of_frame hpd h0)
        · exact hg.present
    · cases file with
      | none => exact wp_pure.mpr (.inl ⟨rfl, rfl⟩)
      | some file =>
        rw [wp_bind, fileMap, wp_ite]
        refine ⟨fun _ => wp_pure.mpr (wp_pure.mpr (.inl ⟨rfl, rfl⟩)), fun hoff => ?_⟩
        refine wp_mono (h.filePages hpd hmod (mmapPerm_lt prot flags) _) ?_
        rintro r s' ⟨rfl, hg⟩
        rw [wp_pure]
        have hbytes : fileBytes (some file) off (pgRoundUpVa len) =
            ((file.drop off.toNat).take (pgRoundUpVa len).toNat).length := if_neg hoff
        rw [← hbytes] at hg
        refine .inr ⟨hlen, rfl, ?_⟩
        rwa [mmapPages, if_neg ha]

lemma pgRoundUpVa_ne_zero (h : pgRoundUpVa len ≠ 0) : 0 < len.toNat ∧ len.toNat + 4095 < 2 ^ 64 := by
  have h4 : (4095 : BitVec 64).toNat = 4095 := rfl
  have hlt := len.isLt
  refine ⟨?_, ?_⟩ <;> by_contra hn <;> refine h (BitVec.eq_of_toNat_eq ?_) <;>
    rw [show pgRoundUpVa len = pgRoundDown (len + 4095) from rfl, toNat_pgRoundDown, BitVec.toNat_add, h4] <;>
    change _ = 0 <;> omega

lemma Ranged.ne_zero (h : Ranged L s v fl pd (fun _ w => Present w) start n s') (hpd : v.lev pd = 1) :
    look s' pd va ≠ 0 ↔ Pages start n va ∨ look s pd va ≠ 0 := by
  by_cases hp : Pages start n va
  · exact iff_of_true (h.inside va hp).ne_zero (.inl hp)
  · rw [h.outside pd va hpd fun hc => hp hc.2, or_iff_right hp]

/-- A page of the new mapping is mapped by `sys_map`, or by `file_map` as far as the file reaches. -/
def Backed (first len : BitVec 64) (flags : BitVec 32) (file : Option (List Byte)) (off : BitVec 32)
    (va : BitVec 64) : Prop :=
  flags &&& mapAnonymous ≠ 0 ∨ Pages first ((fileBytes file off (pgRoundUpVa len) + 4095) / 4096) va

lemma backed_iff (hmod : first.toNat % 4096 = 0) (h0 : pgRoundUpVa len ≠ 0)
    (hend : first.toNat + (pgRoundUpVa len).toNat + 4094 < 2 ^ 64) (hm : Meets first len va) :
    Pages first (mmapPages first (pgRoundUpVa len) flags file off) va ↔ Backed first len flags file off va := by
  obtain ⟨hpos, hlt⟩ := pgRoundUpVa_ne_zero h0
  have hup := toNat_pgRoundUpVa hlt
  unfold mmapPages Backed
  split
  · next ha =>
    refine iff_of_true ?_ (.inl ha)
    have hdown : pgRoundDown first = first := BitVec.eq_of_toNat_eq (by rw [toNat_pgRoundDown]; omega)
    rw [meets_iff hpos (by omega), hdown] at hm
    obtain ⟨j, hj, hp⟩ := hm
    refine ⟨j, ?_, hp⟩
    rw [mapCount_eq (by omega) hend (by omega)]
    rw [pageSpan] at hj ⊢
    omega
  · next ha => exact (or_iff_right ha).symm

theorem range_calls_touch_range (b : Board) (img : Image b.layout) (mem : ℕ → ℕ → BitVec 64) :
    wp (boot b) (fun _ s => ∀ ds w, Run (fun w d w' => Deed.Step img w d w') (World.start s) ds w →
      ∀ pd ∈ w.roots, ∀ start len : BitVec 64, 0 < len.toNat → start.toNat + len.toNat ≤ 2 ^ 64 →
        (∀ perm : Pte, perm.toNat < 1024 → wp (sysMap pd start len perm) (fun _ s' =>
          MapsRange b.layout w.phys w.roots pd start len perm s' ↔ Installable w.phys pd start len perm)
            Halts w.phys) ∧
        ∀ prot, wp (sysMprotect pd start len prot) (fun _ s' =>
          ProtectsRange w.phys w.roots pd start len (getPermByProt prot) s' ↔
            Protectable w.phys pd start len (getPermByProt prot)) Halts w.phys)
      NotRefZero (powerOn b mem) := by
  refine wp_mono (wp_boot_neat b img mem) fun _ s hneat ds w hrun pd hpd start len hlen hend => ?_
  obtain ⟨v, hn⟩ := hneat ds w hrun
  have hpd' : pd ∈ v.roots := hn.roots.symm ▸ hpd
  rw [← hn.roots]
  exact ⟨fun perm hperm => hn.tidy.mapsRange hpd' hlen hend hperm,
    fun prot => hn.tidy.protectsRange hpd' hlen hend prot⟩

def untouched : BitVec 64 := 0x3000000

theorem range_calls_miss_range : ∃ p s₁, (procInitupt smallImage).run smallMachine = .ok (p, s₁) ∧
    (∃ s₂, (sysMap p untouched 1 (pteR ||| pteW ||| pteU)).run s₁ = .ok (0, s₂) ∧ Meets untouched 1 untouched ∧
      ¬ Present (look s₂ p untouched)) ∧
    ∃ s₂, (sysMap p untouched 4096 (pteR ||| pteU)).run s₁ = .ok (0, s₂) ∧ Present (look s₂ p untouched) ∧
      (∃ s₃, (sysMap p untouched 4096 (pteR ||| pteW ||| pteU)).run s₂ = .ok (0, s₃) ∧
        look s₃ p untouched ≠ look s₂ p untouched) ∧
      ∃ s₃, (sysMprotect p untouched 1 (protRead ||| protWrite)).run s₂ = .ok (0, s₃) ∧
        has (look s₃ p untouched) pteW = false := by
  have hrun : returns (procInitupt smallImage) smallMachine (fun p s =>
      returns (sysMap p untouched 1 (pteR ||| pteW ||| pteU)) s (fun r s' =>
        r == 0 && !decide (Present (look s' p untouched))) &&
      returns (sysMap p untouched 4096 (pteR ||| pteU)) s fun r s' =>
        r == 0 && decide (Present (look s' p untouched)) &&
        returns (sysMap p untouched 4096 (pteR ||| pteW ||| pteU)) s' (fun r s'' =>
          r == 0 && look s'' p untouched != look s' p untouched) &&
        returns (sysMprotect p untouched 1 (protRead ||| protWrite)) s' (fun r s'' =>
          r == 0 && !has (look s'' p untouched) pteW)) = true := by decide +kernel
  obtain ⟨p, s₁, hinit, hrun⟩ := exists_of_returns hrun
  rw [Bool.and_eq_true] at hrun
  obtain ⟨_, s₂, hone, h₂⟩ := exists_of_returns hrun.1
  obtain ⟨_, s₃, hmap, h₃⟩ := exists_of_returns hrun.2
  simp only [Bool.and_eq_true, beq_iff_eq, Bool.not_eq_true', decide_eq_false_iff_not, decide_eq_true_eq] at h₂ h₃
  obtain ⟨rfl, h₂⟩ := h₂
  obtain ⟨⟨⟨rfl, hp⟩, hagain⟩, hprot⟩ := h₃
  obtain ⟨_, s₄, hagain, h₄⟩ := exists_of_returns hagain
  obtain ⟨_, s₅, hprot, h₅⟩ := exists_of_returns hprot
  simp only [Bool.and_eq_true, beq_iff_eq, bne_iff_ne, Bool.not_eq_true'] at h₄ h₅
  obtain ⟨rfl, h₄⟩ := h₄
  obtain ⟨rfl, h₅⟩ := h₅
  exact ⟨p, s₁, hinit, ⟨s₂, hone, ⟨0, by decide, samePage_refl _⟩, h₂⟩, s₃, hmap, hp, ⟨s₄, hagain, h₄⟩, s₅, hprot, h₅⟩

theorem munmap_removes_range (b : Board) (img : Image b.layout) (mem : ℕ → ℕ → BitVec 64) :
    wp (boot b) (fun _ s => ∀ ds w, Run (fun w d w' => Deed.Step img w d w') (World.start s) ds w →
      ∀ pd ∈ w.roots,
        (∀ start len : BitVec 64, start.toNat % 4096 = 0 → 0 < len.toNat → start.toNat + len.toNat ≤ 2 ^ 38 →
          (wp (sysUnmap pd start len) (fun r s' => r = 0 ∧ UnmapsRange w.phys w.roots pd start len s') (fun _ => False)
            w.phys ↔ ∀ va, Meets start len va → look w.phys pd va ≠ 0)) ∧
        ∀ (mmapAddr start len first cur : BitVec 64) (prot flags : BitVec 32) (file : Option (List Byte))
          (off : BitVec 32), mmapAddr.toNat % 4096 = 0 →
          mmapStart mmapAddr (pgRoundUpVa start) (pgRoundUpVa len) = some (first, cur) →
          first.toNat + (pgRoundUpVa len).toNat ≤ 2 ^ 38 →
          wp (sysMmap pd mmapAddr start len prot flags file off) (fun a s' => a.1 ≠ mapFailed → a.1 = first ∧
            (wp (sysUnmap pd first len) (fun r s'' => r = 0 ∧ UnmapsRange s' w.roots pd first len s'') (fun _ => False)
              s' ↔ ∀ va, Meets first len va → Backed first len flags file off va ∨ look w.phys pd va ≠ 0))
            NotRefZero w.phys)
      NotRefZero (powerOn b mem) := by
  refine wp_mono (wp_boot_neat b img mem) fun _ s hneat ds w hrun pd hpd => ?_
  obtain ⟨v, hn⟩ := hneat ds w hrun
  have hpd' : pd ∈ v.roots := hn.roots.symm ▸ hpd
  rw [← hn.roots]
  refine ⟨fun start len hs hl he => hn.tidy.unmapsRange hpd' hs hl he,
    fun mmapAddr start len first cur prot flags file off hcur hfirst hend => ?_⟩
  refine wp_mono (hn.tidy.sysMmap hpd' hcur) fun a s' h' hok => ?_
  obtain ⟨h0, hstart, hr⟩ := h'.resolve_left fun hc => hok hc.1
  obtain ⟨rfl, rfl⟩ := Prod.mk.inj (Option.some.inj (hfirst.symm.trans hstart))
  have hmod := mmapStart_mod hcur hstart
  obtain ⟨hpos, hlt⟩ := pgRoundUpVa_ne_zero h0
  have hup := toNat_pgRoundUpVa hlt
  obtain ⟨v', ht, hk⟩ := hr.tidy
  rw [← hk.roots]
  refine ⟨rfl, (ht.unmapsRange (hk.roots.symm ▸ hpd') hmod hpos (by omega)).trans (forall₂_congr fun va hm => ?_)⟩
  rw [hr.ne_zero (hn.tidy.inv.shape.root_of_mem hpd'), backed_iff hmod h0 (by omega) hm]

theorem munmap_panics_on_holes : ∃ p s₁, (procInitupt smallImage).run smallMachine = .ok (p, s₁) ∧
    (sysUnmap p untouched 4096).run s₁ = .error .nullPointer ∧
    ∃ a s₂, (sysMmap p 0x600000000 0 8192 protRead 0 (some [1]) 0).run s₁ = .ok (a, s₂) ∧ a.1 ≠ mapFailed ∧
      (sysUnmap p a.1 8192).run s₂ = .error .notMapped := by
  have hrun : returns (procInitupt smallImage) smallMachine (fun p s =>
      throws (sysUnmap p untouched 4096) s .nullPointer &&
      returns (sysMmap p 0x600000000 0 8192 protRead 0 (some [1]) 0) s fun a s' => a.1 != mapFailed &&
        throws (sysUnmap p a.1 8192) s' .notMapped) = true := by decide +kernel
  obtain ⟨p, s₁, hinit, hrun⟩ := exists_of_returns hrun
  rw [Bool.and_eq_true] at hrun
  obtain ⟨a, s₂, hmap, h₂⟩ := exists_of_returns hrun.2
  rw [Bool.and_eq_true, bne_iff_ne] at h₂
  exact ⟨p, s₁, hinit, run_of_throws hrun.1, a, s₂, hmap, h₂.1, run_of_throws h₂.2⟩

end FarmOS.Mm

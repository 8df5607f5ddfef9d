import FarmOS.Mm.Live
import FarmOS.Mm.Range

/-! Loading a segment of an ELF file: `loadElfSegment` with `loadDataMapper`. -/

namespace FarmOS.Mm

open Lib

structure ProgramHeader where
  flags : BitVec 32
  vaddr : BitVec 64
  filesz : BitVec 64
  memsz : BitVec 64

namespace ProgramHeader

def elfProgFlagExec : BitVec 32 := 1

def elfProgFlagWrite : BitVec 32 := 2

variable (ph : ProgramHeader)

def perm : Pte :=
  pteV ||| pteR ||| pteU ||| (if ph.flags &&& elfProgFlagWrite ≠ 0 then pteW else 0) |||
    (if ph.flags &&& elfProgFlagExec ≠ 0 then pteX else 0)

def start : ℕ := ph.vaddr.toNat

def Fills : Prop :=
  pageOff ph.vaddr = 0 ∨ pageSize - pageOff ph.vaddr ≤ ph.filesz.toNat ∨ ph.filesz = ph.memsz ∧ 0 < ph.memsz.toNat

def bssPages : ℕ := (ph.memsz.toNat - ph.filesz.toNat + 4095) / 4096

/-- The loop over the rest of the segment maps the page of the file bytes again, as a page of zeros. -/
def Zeroed (binary : ℕ → Byte) : Prop :=
  ph.filesz.toNat < ph.memsz.toNat ∧ (∀ i < ph.filesz.toNat, binary i = 0) ∧
    (pageOff ph.vaddr + ph.memsz.toNat - 1) / 4096 < ph.bssPages

lemma perm_spec : ph.perm.toNat < 1024 ∧ has ph.perm pteCow = false := by
  unfold perm
  split <;> split <;> decide

end ProgramHeader

def loadFirstPage (pd : ℕ) (ph : ProgramHeader) (data : List Byte) : M ℤ :=
  if pageOff ph.vaddr ≠ 0 then
    loadDataMapper pd ph.vaddr (pageOff ph.vaddr) ph.perm (data.take (fileFirst ph.vaddr data))
  else pure 0

def loadElfSegment (pd : ℕ) (ph : ProgramHeader) (binary : ℕ → Byte) : M ℤ := do
  let data := (List.range ph.filesz.toNat).map binary
  let first := fileFirst ph.vaddr data
  let rounds := (data.length - first + 4095) / 4096
  let i := first + rounds * pageSize
  let r ← loadFirstPage pd ph data
  if r ≠ 0 then pure r
  else
    let r ← loop (fun k => fileChunk pd ph.vaddr ph.perm data (first + k * pageSize)) 0 rounds
    if r ≠ 0 then pure r
    else loop (fun k => fileChunk pd ph.vaddr ph.perm [] (i + k * pageSize)) 0 ((ph.memsz.toNat - i + 4095) / 4096)

structure SegmentLoaded (s : Phys) (roots : List ℕ) (pd : ℕ) (ph : ProgramHeader) (binary : ℕ → Byte) (s' : Phys) :
    Prop where
  bytes (i : ℕ) : i < ph.memsz.toNat →
    content s' pd (ph.vaddr + BitVec.ofNat 64 i) = if i < ph.filesz.toNat then binary i else 0
  mapped (va : BitVec 64) : Meets ph.vaddr ph.memsz va → ∃ p, look s' pd va = mkPte s.ad (pageToPa p) ph.perm
  others (r : ℕ) (va : BitVec 64) : r ∈ roots → ¬ (r = pd ∧ Meets ph.vaddr ph.memsz va) → look s' r va = look s r va

variable {L : Layout} {s s' : Phys} {v : View} {fl : List ℕ} {pd i j n : ℕ} {ph : ProgramHeader} {data : List Byte}
  {va : BitVec 64} {binary : ℕ → Byte}

def Leading (ph : ProgramHeader) (j : ℕ) (va : BitVec 64) : Prop :=
  ph.start / 4096 ≤ vpn va ∧ vpn va < ph.start / 4096 + j

def Filled (L : Layout) (s : Phys) (v : View) (fl : List ℕ) (pd : ℕ) (ph : ProgramHeader) (data : List Byte) (j : ℕ)
    (s' : Phys) : Prop :=
  ∃ v', Walled L s' v' fl ∧ v'.roots = v.roots ∧ s'.ad = s.ad ∧
    (∀ va, Leading ph j va → (∃ p, look s' pd va = mkPte s.ad (pageToPa p) ph.perm) ∧ (va.toNat < 2 ^ 38 →
      content s' pd va = if ph.start ≤ va.toNat then data.getD (va.toNat - ph.start) 0 else 0)) ∧
    ∀ r va, r ∈ v.roots → ¬ (r = pd ∧ Leading ph j va) → look s' r va = look s r va

lemma loaded_part (data : List Byte) (n : ℕ) (hva : va.toNat / 4096 = (ph.start + i) / 4096)
    (hi : i = 0 ∨ (ph.start + i) % 4096 = 0)
    (hn : 4096 ≤ (ph.start + i) % 4096 + n ∨ data.length ≤ i + n) :
    loaded ((ph.start + i) % 4096) ((data.drop i).take n) va =
      if ph.start ≤ va.toNat then data.getD (va.toNat - ph.start) 0 else 0 := by
  have hoff : pageOff va = va.toNat % 4096 := rfl
  rw [loaded, hoff]
  by_cases hle : ph.start ≤ va.toNat
  · rw [if_pos hle, if_pos (by omega), List.getD_eq_getElem?_getD, List.getElem?_take, List.getElem?_drop,
      List.getD_eq_getElem?_getD, show i + (va.toNat % 4096 - (ph.start + i) % 4096) = va.toNat - ph.start by omega]
    split
    · rfl
    · rw [List.getElem?_eq_none (by omega)]
  · rw [if_neg hle, if_neg (by omega)]

lemma Filled.loaded (h : Filled L s v fl pd ph ((List.range ph.filesz.toNat).map binary) j s')
    (hend : ph.start + ph.memsz.toNat ≤ 2 ^ 38)
    (hj : ∀ q, ph.start / 4096 ≤ q ∧ q < ph.start / 4096 + j ↔ ∃ i < ph.memsz.toNat, (ph.start + i) / 4096 = q) :
    SegmentLoaded s v.roots pd ph binary s' := by
  obtain ⟨v', -, -, -, hin, hout⟩ := h
  have hva : ∀ i < ph.memsz.toNat, (ph.vaddr + BitVec.ofNat 64 i).toNat = ph.start + i := fun i hi =>
    toNat_add_ofNat (Nat.lt_of_lt_of_le (Nat.add_lt_add_left hi _) (Nat.le_trans hend (by decide)))
  have hmeets : ∀ va, Meets ph.vaddr ph.memsz va ↔ Leading ph j va := fun va => by
    refine Iff.trans (exists_congr fun i => and_congr_right fun hi => ?_) (hj (vpn va)).symm
    rw [samePage_iff, vpn_eq (show (ph.vaddr + BitVec.ofNat 64 i).toNat < _ by rw [hva i hi]; omega), hva i hi, eq_comm]
  refine ⟨fun i hi => ?_, fun va hm => (hin va ((hmeets va).mp hm)).1, fun r va hr hn =>
    hout r va hr fun hl => hn ⟨hl.1, (hmeets va).mpr hl.2⟩⟩
  rw [(hin _ ((hmeets _).mp ⟨i, hi, samePage_refl _⟩)).2 (by rw [hva i hi]; omega), hva i hi, if_pos (by omega),
    Nat.add_sub_cancel_left]
  split <;> simp [*]

section

variable (hpd : pd ∈ v.roots)
include hpd

lemma Filled.load (h : Filled L s v fl pd ph data j s') {off : ℕ} {src : List Byte} (hend : ph.start + i < 2 ^ 38)
    (hpage : (ph.start + i) / 4096 = ph.start / 4096 + j)
    (hsrc : ∀ va : BitVec 64, va.toNat / 4096 = (ph.start + i) / 4096 →
      Mm.loaded off src va = if ph.start ≤ va.toNat then data.getD (va.toNat - ph.start) 0 else 0) :
    wp (loadDataMapper pd (ph.vaddr + BitVec.ofNat 64 i) off ph.perm src)
      (fun r s2 => r = 0 ∧ Filled L s v fl pd ph data (j + 1) s2) NotRefZero s' := by
  obtain ⟨v1, hw, hr, had, hin, hout⟩ := h
  have hva : (ph.vaddr + BitVec.ofNat 64 i).toNat = ph.start + i := toNat_add_ofNat (Nat.lt_trans hend (by decide))
  have hsame : ∀ {va}, SamePage va (ph.vaddr + BitVec.ofNat 64 i) ↔ vpn va = ph.start / 4096 + j := by
    intro va
    rw [samePage_iff, vpn_eq (show (ph.vaddr + BitVec.ofNat 64 i).toNat < _ by omega), hva, hpage]
  refine wp_mono (hw.loadDataMapper (hr ▸ hpd) ph.perm_spec.1 ph.perm_spec.2) ?_
  rintro r s2 ⟨h0, v2, p, hm, hc⟩
  refine ⟨h0, v2, hm.walled, hm.roots.trans hr, hm.ad.trans had, fun va hl => ?_, fun r va hroot hne => ?_⟩
  · rw [hm.look pd va (hr ▸ hpd), put]
    by_cases hp : SamePage va (ph.vaddr + BitVec.ofNat 64 i)
    · rw [if_pos ⟨rfl, hp⟩, had]
      refine ⟨⟨p, rfl⟩, fun hlt => (hc va hp).trans (hsrc va ?_)⟩
      rw [← vpn_eq (by omega), hpage]
      exact hsame.mp hp
    · rw [if_neg fun hc => hp hc.2, hm.content pd va (hr ▸ hpd) fun hc => hp hc.2]
      exact hin va ⟨hl.1, by have := hl.2; rw [hsame] at hp; omega⟩
  · have hnot : ¬ (r = pd ∧ SamePage va (ph.vaddr + BitVec.ofNat 64 i)) := fun hp =>
      hne ⟨hp.1, by rw [Leading, hsame.mp hp.2]; omega⟩
    rw [hm.look r va (hr ▸ hroot), put, if_neg hnot]
    exact hout r va hroot fun hl => hne ⟨hl.1, hl.2.1, Nat.lt_succ_of_lt hl.2.2⟩

lemma Filled.chunks (h : Filled L s v fl pd ph data j s') {src : List Byte}
    (hsrc : src = data ∨ src = [] ∧ data.length ≤ i) (hn : 0 < n → (ph.start + i) / 4096 = ph.start / 4096 + j ∧
      (ph.start + i) % 4096 = 0 ∧ ph.start + i + (n - 1) * 4096 < 2 ^ 38) :
    wp (loop (fun k => fileChunk pd ph.vaddr ph.perm src (i + k * pageSize)) 0 n)
      (fun r s2 => r = 0 ∧ Filled L s v fl pd ph data (j + n) s2) NotRefZero s' := by
  refine wp_loop_zero (I := fun k s2 => Filled L s v fl pd ph data (j + k) s2) n h fun k s1 hk h1 => ?_
  obtain ⟨hi, h0, hend⟩ := hn (by omega)
  have hmod : (ph.start + (i + k * 4096)) % 4096 = 0 := by omega
  have hchunk : (src.drop (i + k * 4096)).take 4096 = (data.drop (i + k * 4096)).take 4096 := by
    rcases hsrc with rfl | ⟨rfl, hlen⟩
    · rfl
    · rw [List.drop_eq_nil_of_le (show data.length ≤ i + k * 4096 by omega), List.drop_nil]
  have := h1.load hpd (i := i + k * 4096) (by omega) (by omega) fun va hva =>
    loaded_part data 4096 hva (.inr hmod) (.inl (by omega))
  rwa [hmod, ← hchunk] at this

lemma Filled.zeros (h : Filled L s v fl pd ph [] 0 s') (hi : (ph.start + i) / 4096 = ph.start / 4096)
    (hn : 0 < n → ph.start + i + (n - 1) * 4096 < 2 ^ 38) :
    wp (loop (fun k => fileChunk pd ph.vaddr ph.perm [] (i + k * pageSize)) 0 n)
      (fun r s2 => r = 0 ∧ Filled L s v fl pd ph [] n s2) NotRefZero s' := by
  refine wp_loop_zero (I := fun k s2 => Filled L s v fl pd ph [] k s2) n h fun k s1 hk h1 => ?_
  have hend := hn (by omega)
  exact h1.load hpd (i := i + k * 4096) (by omega) (by omega) fun va _ => by simp [Mm.loaded]

omit hpd in
lemma Filled.again {s1 s2 : Phys} {v1 : View} (h : Filled L s v fl pd ph data 1 s1) (hv : v1.roots = v.roots)
    (h' : Filled L s1 v1 fl pd ph [] n s2) (hn : 0 < n) (hz : ∀ k, data.getD k 0 = 0) :
    Filled L s v fl pd ph data n s2 := by
  obtain ⟨-, -, -, had, -, hout⟩ := h
  obtain ⟨v2, hw, hr, had', hin', hout'⟩ := h'
  refine ⟨v2, hw, hr.trans hv, had'.trans had, fun va hl => ?_, fun r va hroot hne => ?_⟩
  · obtain ⟨⟨p, hp⟩, hc⟩ := hin' va hl
    refine ⟨⟨p, had ▸ hp⟩, fun hlt => (hc hlt).trans ?_⟩
    rw [hz]
    simp
  · rw [hout' r va (hv.symm ▸ hroot) hne]
    exact hout r va hroot fun hl => hne ⟨hl.1, hl.2.1, by have := hl.2.2; omega⟩

lemma Walled.loadElfSegment (h : Walled L s v fl) (hle : ph.filesz.toNat ≤ ph.memsz.toNat)
    (hend : ph.start + ph.memsz.toNat ≤ 2 ^ 38) (hf : ph.Fills) :
    wp (loadElfSegment pd ph binary) (fun r s' => r = 0 ∧ SegmentLoaded s v.roots pd ph binary s') NotRefZero s := by
  obtain ⟨data, hdata⟩ : ∃ data, data = (List.range ph.filesz.toNat).map binary := ⟨_, rfl⟩
  have hlen : data.length = ph.filesz.toNat := by simp [hdata]
  have hoff : pageOff ph.vaddr = ph.start % 4096 := rfl
  obtain ⟨first, hfirst⟩ : ∃ i, i = fileFirst ph.vaddr data := ⟨_, rfl⟩
  obtain ⟨j, hj⟩ : ∃ j, ph.start % 4096 = 0 ∧ first = 0 ∧ j = 0 ∨ 0 < ph.start % 4096 ∧ j = 1 ∧
      (ph.start % 4096 + first = 4096 ∧ first ≤ ph.filesz.toNat ∨
        ph.start % 4096 + first ≤ 4096 ∧ first = ph.filesz.toNat ∧ first = ph.memsz.toNat ∧ 0 < first) := by
    unfold ProgramHeader.Fills pageSize at hf
    rw [fileFirst, hoff, hlen, pageSize] at hfirst
    rw [hoff, ← BitVec.toNat_inj] at hf
    split at hfirst
    · exact ⟨1, by omega⟩
    · exact ⟨0, by omega⟩
  have h0 : Filled L s v fl pd ph data 0 s :=
    ⟨v, h, rfl, rfl, fun va hl => absurd hl.2 (not_lt.mpr hl.1), fun _ _ _ _ => rfl⟩
  have h1 : wp (loadFirstPage pd ph data) (fun r s' => r = 0 ∧ Filled L s v fl pd ph data j s') NotRefZero s := by
    rw [loadFirstPage, ← hfirst, hoff]
    split
    · obtain rfl : j = 1 := by omega
      have := h0.load hpd (i := 0) (by omega) (by omega) fun va hva =>
        loaded_part data first hva (.inl rfl) (by omega)
      rwa [Nat.add_zero, List.drop_zero, show ph.vaddr + BitVec.ofNat 64 0 = ph.vaddr from BitVec.add_zero _] at this
    · obtain rfl : j = 0 := by omega
      exact wp_pure.mpr ⟨rfl, h0⟩
  unfold Mm.loadElfSegment
  dsimp only
  rw [← hdata, ← hfirst, hlen, pageSize]
  refine wp_seq h1 ?_
  rintro r s1 ⟨hr, h1⟩
  rw [if_neg (not_not.mpr hr)]
  refine wp_seq (h1.chunks hpd (.inl rfl) fun hn => by omega) ?_
  rintro r s2 ⟨hr, h2⟩
  rw [if_neg (not_not.mpr hr)]
  refine wp_mono (h2.chunks hpd (.inr ⟨rfl, by omega⟩) fun hn => by omega) ?_
  rintro r s3 ⟨hr, h3⟩
  refine ⟨hr, ?_⟩
  refine (hdata ▸ h3).loaded hend fun q => ⟨fun hq => ?_, ?_⟩
  · by_cases hp : q = ph.start / 4096
    · exact ⟨0, by omega, by omega⟩
    · exact ⟨q * 4096 - ph.start, by omega, by omega⟩
  · rintro ⟨i, hi, rfl⟩
    omega

lemma Walled.loadShort (h : Walled L s v fl) (hle : ph.filesz.toNat ≤ ph.memsz.toNat)
    (hend : ph.start + ph.memsz.toNat < 2 ^ 38) (hf : ¬ ph.Fills) :
    wp (Mm.loadElfSegment pd ph binary) (fun r s' => r = 0 ∧ ∃ s1 v1, v1.roots = v.roots ∧
      Filled L s v fl pd ph ((List.range ph.filesz.toNat).map binary) 1 s1 ∧
      Filled L s1 v1 fl pd ph [] ph.bssPages s') NotRefZero s := by
  obtain ⟨data, hdata⟩ : ∃ data, data = (List.range ph.filesz.toNat).map binary := ⟨_, rfl⟩
  have hlen : data.length = ph.filesz.toNat := by simp [hdata]
  have hoff : pageOff ph.vaddr = ph.start % 4096 := rfl
  have hshort : ph.start % 4096 ≠ 0 ∧ ph.start % 4096 + ph.filesz.toNat < 4096 := by
    unfold ProgramHeader.Fills pageSize at hf
    rw [hoff] at hf
    omega
  have hfirst : fileFirst ph.vaddr data = ph.filesz.toNat := by
    rw [fileFirst, hoff, hlen, pageSize, if_pos hshort.1]
    omega
  have h0 : Filled L s v fl pd ph data 0 s :=
    ⟨v, h, rfl, rfl, fun va hl => absurd hl.2 (not_lt.mpr hl.1), fun _ _ _ _ => rfl⟩
  have h1 : wp (loadFirstPage pd ph data) (fun r s' => r = 0 ∧ Filled L s v fl pd ph data 1 s') NotRefZero s := by
    rw [loadFirstPage, hfirst, hoff, if_pos hshort.1]
    have := h0.load hpd (i := 0) (by omega) (by omega) fun va hva =>
      loaded_part data ph.filesz.toNat hva (.inl rfl) (by omega)
    rwa [Nat.add_zero, List.drop_zero, show ph.vaddr + BitVec.ofNat 64 0 = ph.vaddr from BitVec.add_zero _] at this
  unfold Mm.loadElfSegment
  dsimp only
  rw [← hdata, hfirst, hlen, Nat.sub_self]
  refine wp_seq h1 ?_
  rintro r s1 ⟨hr, h1⟩
  rw [if_neg (not_not.mpr hr)]
  refine wp_bind.mpr (wp_pure.mpr ?_)
  rw [if_neg (not_not.mpr rfl)]
  obtain ⟨v1, hw1, hr1, had1, -⟩ := id h1
  have hstart : Filled L s1 v1 fl pd ph [] 0 s1 :=
    ⟨v1, hw1, rfl, rfl, fun va hl => absurd hl.2 (not_lt.mpr hl.1), fun _ _ _ _ => rfl⟩
  refine wp_mono (hstart.zeros (hr1.symm ▸ hpd) (i := ph.filesz.toNat) (n := ph.bssPages) (by omega) fun hn => ?_) ?_
  · rw [ProgramHeader.bssPages] at hn ⊢
    omega
  · rintro r s2 ⟨hr, h2⟩
    exact ⟨hr, s1, v1, hr1, h1, h2⟩

lemma Filled.zeroed {s1 : Phys} {v1 : View} (hle : ph.filesz.toNat ≤ ph.memsz.toNat)
    (hend : ph.start + ph.memsz.toNat < 2 ^ 38) (hf : ¬ ph.Fills) (h0 : look s pd ph.vaddr = 0)
    (hfresh : ∀ va, Meets ph.vaddr ph.memsz va → look s pd va = 0) (hv : v1.roots = v.roots)
    (h : Filled L s v fl pd ph ((List.range ph.filesz.toNat).map binary) 1 s1)
    (h' : Filled L s1 v1 fl pd ph [] ph.bssPages s') :
    SegmentLoaded s v.roots pd ph binary s' ↔ ph.Zeroed binary := by
  have hoff : pageOff ph.vaddr = ph.start % 4096 := rfl
  have hshort : ph.start % 4096 + ph.filesz.toNat < 4096 ∧ (ph.filesz.toNat = ph.memsz.toNat → ph.memsz.toNat = 0) := by
    unfold ProgramHeader.Fills pageSize at hf
    rw [hoff, ← BitVec.toNat_inj] at hf
    omega
  have hva (i : ℕ) (hi : i ≤ ph.memsz.toNat) : (ph.vaddr + BitVec.ofNat 64 i).toNat = ph.start + i :=
    toNat_add_ofNat (lt_trans (lt_of_le_of_lt (Nat.add_le_add_left hi _) hend) (by decide))
  have hvpn (i : ℕ) (hi : i ≤ ph.memsz.toNat) : vpn (ph.vaddr + BitVec.ofNat 64 i) = (ph.start + i) / 4096 := by
    rw [vpn_eq (by rw [hva i hi]; omega), hva i hi]
  have hmk (p : ℕ) : mkPte s.ad (pageToPa p) ph.perm ≠ 0 := fun hz => by
    have := has_V_mkPte s.ad (pageToPa p) ph.perm
    rw [hz] at this
    exact absurd this (by decide)
  constructor
  · intro hS
    have hlt : ph.filesz.toNat < ph.memsz.toNat := by
      refine lt_of_le_of_ne hle fun he => ?_
      have hm := hshort.2 he
      have hn : ph.bssPages = 0 := by
        rw [ProgramHeader.bssPages]
        omega
      obtain ⟨-, -, -, -, hin, -⟩ := h
      obtain ⟨-, -, -, -, -, hout'⟩ := h'
      have hlead : Leading ph 1 (ph.vaddr + BitVec.ofNat 64 0) := by
        rw [Leading, hvpn 0 (Nat.zero_le _)]
        omega
      rw [show ph.vaddr + BitVec.ofNat 64 0 = ph.vaddr from BitVec.add_zero _] at hlead
      obtain ⟨p, hp⟩ := (hin _ hlead).1
      have hsame := hS.others pd ph.vaddr hpd fun hc => by
        obtain ⟨i, hi, -⟩ := hc.2
        omega
      rw [hout' pd ph.vaddr (hv.symm ▸ hpd) fun hc => absurd hc.2.2 (by rw [hn]; have := hc.2.1; omega), hp,
        h0] at hsame
      exact hmk p hsame
    have hn : 0 < ph.bssPages := by
      rw [ProgramHeader.bssPages]
      omega
    obtain ⟨-, -, -, -, -, hout⟩ := h
    obtain ⟨-, -, -, -, hin', hout'⟩ := h'
    refine ⟨hlt, fun i hi => ?_, ?_⟩
    · have hlead : Leading ph ph.bssPages (ph.vaddr + BitVec.ofNat 64 i) := by
        rw [Leading, hvpn i (by omega)]
        omega
      have hb := hS.bytes i (by omega)
      rw [(hin' _ hlead).2 (by rw [hva i (by omega)]; omega), if_pos hi] at hb
      simpa using hb.symm
    · by_contra hbig
      rw [hoff] at hbig
      have hmeets : Meets ph.vaddr ph.memsz (ph.vaddr + BitVec.ofNat 64 (ph.memsz.toNat - 1)) :=
        ⟨_, by omega, samePage_refl _⟩
      have hpage := hvpn (ph.memsz.toNat - 1) (by omega)
      obtain ⟨p, hp⟩ := hS.mapped _ hmeets
      rw [hout' pd _ (hv.symm ▸ hpd) fun hc => absurd hc.2.2 (by rw [hpage]; omega),
        hout pd _ hpd fun hc => absurd hc.2.2 (by rw [hpage]; omega), hfresh _ hmeets] at hp
      exact hmk p hp.symm
  · rintro ⟨hlt, hz, hcov⟩
    rw [hoff] at hcov
    have hn : 0 < ph.bssPages := by
      rw [ProgramHeader.bssPages]
      omega
    refine (h.again hv h' hn fun k => ?_).loaded (le_of_lt hend) fun q => ⟨fun hq => ?_, ?_⟩
    · by_cases hk : k < ph.filesz.toNat
      · simp [hk, hz k hk]
      · simp [hk]
    · by_cases hp : q = ph.start / 4096
      · exact ⟨0, by omega, by omega⟩
      · rw [ProgramHeader.bssPages] at hq
        exact ⟨q * 4096 - ph.start, by omega, by omega⟩
    · rintro ⟨i, hi, rfl⟩
      omega

lemma Walled.segment (h : Walled L s v fl) (hle : ph.filesz.toNat ≤ ph.memsz.toNat)
    (hend : ph.start + ph.memsz.toNat < 2 ^ 38) (h0 : look s pd ph.vaddr = 0)
    (hfresh : ∀ va, Meets ph.vaddr ph.memsz va → look s pd va = 0) :
    wp (Mm.loadElfSegment pd ph binary) (fun r s' => r = 0 ∧
      (SegmentLoaded s v.roots pd ph binary s' ↔ ph.Fills ∨ ph.Zeroed binary)) NotRefZero s := by
  by_cases hf : ph.Fills
  · exact wp_mono (h.loadElfSegment hpd hle (le_of_lt hend) hf) fun _ _ h' => ⟨h'.1, iff_of_true h'.2 (.inl hf)⟩
  · refine wp_mono (h.loadShort hpd hle hend hf) fun r s' ⟨hr, s1, v1, hv, h1, h2⟩ => ⟨hr, ?_⟩
    rw [Filled.zeroed hpd hle hend hf h0 hfresh hv h1 h2, or_iff_right hf]

end

theorem loadElfSegment_builds_memory (b : Board) (img : Image b.layout) (mem : ℕ → ℕ → BitVec 64) :
    wp (boot b) (fun _ s => ∀ ls x,
      Run (fun x l x' => Life.Step img x l x' ∧ l.Careful b.layout x) (.start s) ls x →
      ∀ pd ∈ x.users.procs, ∀ (ph : ProgramHeader) (binary : ℕ → Byte), ph.filesz.toNat ≤ ph.memsz.toNat →
        ph.vaddr.toNat + ph.memsz.toNat < 2 ^ 38 → look x.users.phys pd ph.vaddr = 0 →
        (∀ va, Meets ph.vaddr ph.memsz va → look x.users.phys pd va = 0) →
        wp (loadElfSegment pd ph binary) (fun r s' => r = 0 ∧
          (SegmentLoaded x.users.phys x.users.procs pd ph binary s' ↔ ph.Fills ∨ ph.Zeroed binary))
          NotRefZero x.users.phys)
      NotRefZero (powerOn b mem) := by
  refine wp_mono (wp_boot_live b img mem) fun _ s h ls x hrun pd hpd ph binary hle hend h0 hfresh => ?_
  obtain ⟨v, hv⟩ := h ls x hrun
  rw [← hv.roots] at hpd ⊢
  exact hv.walled.segment hpd hle hend h0 hfresh

def shortHeader : ProgramHeader := ⟨0, 0x3000010, 4, 8⟩

theorem loadElfSegment_drops_bytes : ∃ p s₁ s₂, (procInitupt smallImage).run smallMachine = .ok (p, s₁) ∧
    (loadElfSegment p shortHeader fun _ => 1).run s₁ = .ok (0, s₂) ∧ content s₂ p shortHeader.vaddr = 0 := by
  have hrun : returns (procInitupt smallImage) smallMachine (fun p s =>
      returns (loadElfSegment p shortHeader fun _ => 1) s fun r s' =>
        r == 0 && content s' p shortHeader.vaddr == 0) = true := by decide +kernel
  obtain ⟨p, s₁, hinit, hrun⟩ := exists_of_returns hrun
  obtain ⟨_, s₂, hload, h₂⟩ := exists_of_returns hrun
  rw [Bool.and_eq_true, beq_iff_eq, beq_iff_eq] at h₂
  obtain ⟨rfl, h₂⟩ := h₂
  exact ⟨p, s₁, s₂, hinit, hload, h₂⟩

end FarmOS.Mm

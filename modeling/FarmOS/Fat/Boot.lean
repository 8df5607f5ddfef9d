import FarmOS.Fat.Sector

/-! The boot sector that `clusterInit` of `kern/fs/cluster.c` accepts, and the sectors that its geometry gives to the
file allocation tables and to the clusters. -/

namespace FarmOS.Fat

open Lib List Nat

abbrev BootSector := ℕ → Byte

def field (b : BootSector) (off len w : ℕ) : BitVec w := BitVec.ofNat w (leNat (slice b off len))

namespace BootSector

variable (b : BootSector)

def bytsPerSec : BitVec 16 := field b 11 2 16
def secPerClus : BitVec 8 := field b 13 1 8
def rsvdSecCnt : BitVec 16 := field b 14 2 16
def numFATs : BitVec 8 := field b 16 1 8
def totSec32 : BitVec 32 := field b 32 4 32
def fatSz32 : BitVec 32 := field b 36 4 32
def rootClus : BitVec 32 := field b 44 4 32
def filSysType : List Byte := slice b 82 5

end BootSector

-- A division by zero gives all ones on this machine.
def divu (x y : BitVec 32) : BitVec 32 := if y = 0 then BitVec.allOnes 32 else x / y

structure Super where
  firstDataSec : BitVec 32
  dataSecCnt : BitVec 32
  dataClusCnt : BitVec 32
  bytesPerClus : BitVec 32
  bytesPerSec : BitVec 16
  secPerClus : BitVec 8
  rsvdSecCnt : BitVec 16
  fatCnt : BitVec 8
  totSec : BitVec 32
  fatSz : BitVec 32
  rootClus : BitVec 32

inductive InitError
  | unknownFs | devError

def fat32Name : List Byte := [70, 65, 84, 51, 50]

def BootSector.super (b : BootSector) : Super :=
  let firstDataSec := b.rsvdSecCnt.setWidth 32 + b.numFATs.setWidth 32 * b.fatSz32
  let dataSecCnt := b.totSec32 - firstDataSec
  { firstDataSec := firstDataSec
    dataSecCnt := dataSecCnt
    dataClusCnt := divu dataSecCnt (b.secPerClus.setWidth 32)
    bytesPerClus := b.secPerClus.setWidth 32 * b.bytsPerSec.setWidth 32
    bytesPerSec := b.bytsPerSec
    secPerClus := b.secPerClus
    rsvdSecCnt := b.rsvdSecCnt
    fatCnt := b.numFATs
    totSec := b.totSec32
    fatSz := b.fatSz32
    rootClus := b.rootClus }

def clusterInit (b : BootSector) : Except InitError Super :=
  if b.filSysType ≠ fat32Name then .error .unknownFs
  else if b.bytsPerSec ≠ BitVec.ofNat 16 bufSize then .error .devError
  else .ok b.super

namespace Super

variable (f : Super)

def clusterSec (cluster : BitVec 64) : BitVec 64 :=
  f.firstDataSec.setWidth 64 + (cluster - 2) * f.secPerClus.setWidth 64

def clusterFatSec (cluster : BitVec 64) (fatno : BitVec 8) : BitVec 64 :=
  (f.rsvdSecCnt.setWidth 32 + fatno.setWidth 32 * f.fatSz).setWidth 64 +
    cluster * 4 / f.bytesPerSec.setWidth 64

def clusterFatSecIndex (cluster : BitVec 64) : BitVec 64 := cluster * 4 % f.bytesPerSec.setWidth 64 / 4

def InRange (cluster : BitVec 64) : Prop := 2 ≤ cluster.toNat ∧ cluster.toNat ≤ f.dataClusCnt.toNat + 1

instance (cluster : BitVec 64) : Decidable (f.InRange cluster) := inferInstanceAs (Decidable (_ ∧ _))

def fatWrite (d : Disk) (cluster : BitVec 64) (content : BitVec 32) : Disk :=
  (range f.fatCnt.toNat).foldl
    (fun d k => putEntry d (f.clusterFatSec cluster (BitVec.ofNat 8 k)).toNat (f.clusterFatSecIndex cluster).toNat
      content.toNat) d

def clusterWrite (d : Disk) (cluster : BitVec 64) (offset : ℕ) (src : List Byte) : Disk :=
  writeSecs src.length d ((f.clusterSec cluster).toNat + offset / bufSize) (offset % bufSize) src

end Super

structure Sound (f : Super) : Prop where
  divisor : f.secPerClus ≠ 0
  dataSecCnt : f.firstDataSec.toNat ≤ f.totSec.toNat ∧
    f.firstDataSec.toNat = f.rsvdSecCnt.toNat + f.fatCnt.toNat * f.fatSz.toNat
  fat {c : BitVec 64} {k : BitVec 8} : f.InRange c → k < f.fatCnt →
    f.rsvdSecCnt.toNat + k.toNat * f.fatSz.toNat ≤ (f.clusterFatSec c k).toNat ∧
      (f.clusterFatSec c k).toNat < f.rsvdSecCnt.toNat + (k.toNat + 1) * f.fatSz.toNat
  data {c : BitVec 64} {j : ℕ} : f.InRange c → j < f.secPerClus.toNat →
    f.firstDataSec.toNat ≤ (f.clusterSec c).toNat + j ∧ (f.clusterSec c).toNat + j < f.totSec.toNat
  apart {c c' : BitVec 64} {k : BitVec 8} {j : ℕ} : f.InRange c → f.InRange c' → k < f.fatCnt →
    j < f.secPerClus.toNat → (f.clusterFatSec c k).toNat ≠ (f.clusterSec c').toNat + j
  fatWrite {d : Disk} {c c' : BitVec 64} {x : BitVec 32} {j : ℕ} : f.InRange c → f.InRange c' →
    j < f.secPerClus.toNat → f.fatWrite d c x ((f.clusterSec c').toNat + j) = d ((f.clusterSec c').toNat + j)
  clusterWrite {d : Disk} {c c' : BitVec 64} {off : ℕ} {src : List Byte} {k : BitVec 8} : f.InRange c →
    f.InRange c' → off + src.length ≤ f.bytesPerClus.toNat → k < f.fatCnt →
    f.clusterWrite d c off src (f.clusterFatSec c' k).toNat = d (f.clusterFatSec c' k).toNat

structure Roomy (b : BootSector) : Prop where
  secPerClus : b.secPerClus ≠ 0
  data : b.rsvdSecCnt.toNat + b.numFATs.toNat * b.fatSz32.toNat ≤ b.totSec32.toNat

def BootSector.clusters (b : BootSector) : ℕ :=
  (b.totSec32.toNat - (b.rsvdSecCnt.toNat + b.numFATs.toNat * b.fatSz32.toNat)) / b.secPerClus.toNat

structure Fits (b : BootSector) : Prop extends Roomy b where
  fat : b.numFATs = 0 ∨ b.clusters = 0 ∨ (b.clusters + 2) * 4 ≤ b.fatSz32.toNat * bufSize

structure Placed (f : Super) : Prop where
  bytesPerSec : f.bytesPerSec = BitVec.ofNat 16 bufSize
  secPerClus : 0 < f.secPerClus.toNat
  firstDataSec : f.firstDataSec.toNat = f.rsvdSecCnt.toNat + f.fatCnt.toNat * f.fatSz.toNat
  data : f.firstDataSec.toNat + f.dataClusCnt.toNat * f.secPerClus.toNat ≤ f.totSec.toNat
  fat : (f.dataClusCnt.toNat + 2) * 4 ≤ f.fatSz.toNat * bufSize

namespace Roomy

variable {b : BootSector}

lemma firstDataSec (h : Roomy b) :
    b.super.firstDataSec.toNat = b.rsvdSecCnt.toNat + b.numFATs.toNat * b.fatSz32.toNat := by
  have ht := b.totSec32.isLt
  have hd := h.data
  have hn := b.numFATs.isLt
  have hr := b.rsvdSecCnt.isLt
  simp only [BootSector.super, BitVec.toNat_add, BitVec.toNat_mul, BitVec.toNat_setWidth]
  rw [mod_eq_of_lt (a := b.numFATs.toNat) (by omega), mod_eq_of_lt (a := b.rsvdSecCnt.toNat) (by omega),
    mod_eq_of_lt (a := b.numFATs.toNat * b.fatSz32.toNat) (by omega), mod_eq_of_lt (by omega)]

lemma secPerClus_pos (h : Roomy b) : 0 < b.secPerClus.toNat := by
  refine Nat.pos_of_ne_zero fun h0 => h.secPerClus (BitVec.eq_of_toNat_eq h0)

lemma dataClusCnt (h : Roomy b) : b.super.dataClusCnt.toNat = b.clusters := by
  have hf := h.firstDataSec
  have hd := h.data
  have hs := b.secPerClus.isLt
  have hp := h.secPerClus_pos
  have ht := b.totSec32.isLt
  have hw : (b.secPerClus.setWidth 32).toNat = b.secPerClus.toNat := by
    rw [BitVec.toNat_setWidth, mod_eq_of_lt (by omega)]
  have hne : b.secPerClus.setWidth 32 ≠ 0 := fun he => by
    rw [he] at hw
    exact absurd hw (Nat.ne_of_lt hp)
  have he : b.super.dataClusCnt = (b.totSec32 - b.super.firstDataSec) / b.secPerClus.setWidth 32 := if_neg hne
  rw [he, BitVec.toNat_udiv, hw, BitVec.toNat_sub, BootSector.clusters]
  congr 1
  omega

lemma data_le (h : Roomy b) :
    b.super.firstDataSec.toNat + b.super.dataClusCnt.toNat * b.secPerClus.toNat ≤ b.totSec32.toNat := by
  have hm : b.clusters * b.secPerClus.toNat ≤ _ := div_mul_le_self ..
  rw [← h.dataClusCnt] at hm
  have hf := h.firstDataSec
  have hd := h.data
  omega

lemma placed (h : Roomy b) (hb : b.bytsPerSec = BitVec.ofNat 16 bufSize)
    (hf : (b.clusters + 2) * 4 ≤ b.fatSz32.toNat * bufSize) : Placed b.super where
  bytesPerSec := hb
  secPerClus := h.secPerClus_pos
  firstDataSec := h.firstDataSec
  data := h.data_le
  fat := h.dataClusCnt ▸ hf

end Roomy

lemma foldl_putEntry_of_ne {sec : ℕ → ℕ} {index content n k : ℕ} {d : Disk} (h : ∀ i < n, sec i ≠ k) :
    (range n).foldl (fun d i => putEntry d (sec i) index content) d k = d k := by
  induction n with
  | zero => rfl
  | succ n ih =>
    rw [range_succ, foldl_append, foldl_cons, foldl_nil, putEntry,
      Function.update_of_ne (h n (lt_succ_self n)).symm]
    exact ih fun i hi => h i (lt_succ_of_lt hi)

namespace Placed

variable {f : Super} {c : BitVec 64} {k : BitVec 8} {j : ℕ}

lemma clusterSec (h : Placed f) (hc : f.InRange c) :
    (f.clusterSec c).toNat = f.firstDataSec.toNat + (c.toNat - 2) * f.secPerClus.toNat := by
  have hs := f.secPerClus.isLt
  have hf := f.firstDataSec.isLt
  have hle := h.data
  have ht := f.totSec.isLt
  have hm : (c.toNat - 2) * f.secPerClus.toNat ≤ f.dataClusCnt.toNat * f.secPerClus.toNat :=
    mul_le_mul_right _ (by have := hc.2; omega)
  have hsub : (c - 2).toNat = c.toNat - 2 := by
    have := hc.1
    have hlt := c.isLt
    rw [BitVec.toNat_sub, show (2 : BitVec 64).toNat = 2 from rfl]
    omega
  have hw : (f.secPerClus.setWidth 64).toNat = f.secPerClus.toNat := by
    rw [BitVec.toNat_setWidth]
    exact mod_eq_of_lt (by omega)
  rw [Super.clusterSec, BitVec.toNat_add, BitVec.toNat_mul, hsub, hw, BitVec.toNat_setWidth]
  rw [mod_eq_of_lt (a := f.firstDataSec.toNat) (by omega),
    mod_eq_of_lt (a := (c.toNat - 2) * f.secPerClus.toNat) (by omega), mod_eq_of_lt (by omega)]

lemma bytesPerSec_toNat (h : Placed f) : (f.bytesPerSec.setWidth 64).toNat = bufSize := by
  rw [h.bytesPerSec]
  decide

lemma mul_four (hc : f.InRange c) : (c * 4).toNat = c.toNat * 4 := by
  have hcl := f.dataClusCnt.isLt
  have hc2 := hc.2
  rw [BitVec.toNat_mul, show (4 : BitVec 64).toNat = 4 from rfl]
  omega

section

variable (h : Placed f) (hc : f.InRange c)
include h hc

lemma clusterFatSec (hk : k < f.fatCnt) :
    (f.clusterFatSec c k).toNat = f.rsvdSecCnt.toNat + k.toNat * f.fatSz.toNat + c.toNat * 4 / bufSize := by
  have hr := f.rsvdSecCnt.isLt
  have hkl := k.isLt
  have hd := h.data
  rw [h.firstDataSec] at hd
  have ht := f.totSec.isLt
  have hcl := f.dataClusCnt.isLt
  have hc2 := hc.2
  have hle : (k.toNat + 1) * f.fatSz.toNat ≤ f.fatCnt.toNat * f.fatSz.toNat := mul_le_mul_right _ hk
  rw [succ_mul] at hle
  have hs : (f.rsvdSecCnt.setWidth 32 + k.setWidth 32 * f.fatSz).toNat =
      f.rsvdSecCnt.toNat + k.toNat * f.fatSz.toNat := by
    simp only [BitVec.toNat_add, BitVec.toNat_mul, BitVec.toNat_setWidth]
    rw [mod_eq_of_lt (a := k.toNat) (by omega), mod_eq_of_lt (a := f.rsvdSecCnt.toNat) (by omega),
      mod_eq_of_lt (a := k.toNat * f.fatSz.toNat) (by omega), mod_eq_of_lt (by omega)]
  rw [Super.clusterFatSec, BitVec.toNat_add, BitVec.toNat_udiv, mul_four hc, h.bytesPerSec_toNat,
    BitVec.toNat_setWidth, hs]
  have hdiv : c.toNat * 4 / bufSize ≤ c.toNat * 4 := div_le_self ..
  rw [mod_eq_of_lt (a := f.rsvdSecCnt.toNat + k.toNat * f.fatSz.toNat) (by omega), mod_eq_of_lt (by omega)]

lemma clusterFatSecIndex : (f.clusterFatSecIndex c).toNat = c.toNat * 4 % bufSize / 4 := by
  rw [Super.clusterFatSecIndex, BitVec.toNat_udiv, BitVec.toNat_umod, mul_four hc, h.bytesPerSec_toNat]
  rfl

lemma fat_lt : c.toNat * 4 / bufSize < f.fatSz.toNat := by
  have hf := h.fat
  rw [div_lt_iff_lt_mul (by decide)]
  have := hc.2
  omega

lemma fat_mem (hk : k < f.fatCnt) : f.rsvdSecCnt.toNat + k.toNat * f.fatSz.toNat ≤ (f.clusterFatSec c k).toNat ∧
      (f.clusterFatSec c k).toNat < f.rsvdSecCnt.toNat + (k.toNat + 1) * f.fatSz.toNat := by
  have hlt := h.fat_lt hc
  rw [h.clusterFatSec hc hk, succ_mul]
  exact ⟨le_add_right _ _, by omega⟩

lemma data_mem (hj : j < f.secPerClus.toNat) :
    f.firstDataSec.toNat ≤ (f.clusterSec c).toNat + j ∧ (f.clusterSec c).toNat + j < f.totSec.toNat := by
  have hle := h.data
  have hm : (c.toNat - 2 + 1) * f.secPerClus.toNat ≤ f.dataClusCnt.toNat * f.secPerClus.toNat :=
    mul_le_mul_right _ (by have := hc.2; have := hc.1; omega)
  rw [succ_mul] at hm
  rw [h.clusterSec hc]
  omega

lemma fat_lt_data (hk : k < f.fatCnt) : (f.clusterFatSec c k).toNat < f.firstDataSec.toNat := by
  have hm := (h.fat_mem hc hk).2
  have hle : (k.toNat + 1) * f.fatSz.toNat ≤ f.fatCnt.toNat * f.fatSz.toNat := mul_le_mul_right _ hk
  rw [h.firstDataSec]
  omega

end

lemma ofNat_lt (i : ℕ) (hi : i < f.fatCnt.toNat) : BitVec.ofNat 8 i < f.fatCnt := by
  have hn := f.fatCnt.isLt
  rwa [BitVec.lt_def, BitVec.toNat_ofNat, mod_eq_of_lt (by omega)]

lemma sound (h : Placed f) : Sound f where
  divisor h0 := absurd h.secPerClus (by rw [h0]; exact lt_irrefl 0)
  dataSecCnt := ⟨le_trans (le_add_right _ _) h.data, h.firstDataSec⟩
  fat hc hk := h.fat_mem hc hk
  data hc hj := h.data_mem hc hj
  apart hc hc' hk hj he := by
    have := h.fat_lt_data hc hk
    have := (h.data_mem hc' hj).1
    omega
  fatWrite hc hc' hj := by
    refine foldl_putEntry_of_ne fun i hi he => ?_
    have := h.fat_lt_data hc (ofNat_lt i hi)
    have := (h.data_mem hc' hj).1
    omega
  clusterWrite hc hc' ho hk := by
    refine writeSecs_of_not_mem (mod_lt _ (by decide)) (.inl ?_)
    have hd := (h.data_mem hc h.secPerClus).1
    exact lt_of_lt_of_le (h.fat_lt_data hc' hk) (le_trans hd (le_add_right _ _))

end Placed

namespace Roomy

variable {b : BootSector} (h : Roomy b)
include h

lemma sound_of_no_cluster (h0 : b.clusters = 0) : Sound b.super := by
  have hn {c : BitVec 64} : ¬ b.super.InRange c := fun hc => by
    have := hc.1.trans hc.2
    rw [h.dataClusCnt, h0] at this
    omega
  exact
    { divisor := h.secPerClus
      dataSecCnt := ⟨h.firstDataSec ▸ h.data, h.firstDataSec⟩
      fat := fun hc => absurd hc hn
      data := fun hc => absurd hc hn
      apart := fun hc => absurd hc hn
      fatWrite := fun hc => absurd hc hn
      clusterWrite := fun hc => absurd hc hn }

-- Without a table the sectors of the clusters are those of a volume with large ones.
lemma sound_of_no_fat (hb : b.bytsPerSec = BitVec.ofNat 16 bufSize) (h0 : b.numFATs = 0) : Sound b.super := by
  have hk {k : BitVec 8} : ¬ k < b.super.fatCnt := by
    change ¬ k < b.numFATs
    simp [h0]
  have hp : Placed { b.super with fatSz := .allOnes 32 } :=
    { bytesPerSec := hb
      secPerClus := h.secPerClus_pos
      firstDataSec := by
        rw [h.firstDataSec]
        change _ = _ + b.numFATs.toNat * _
        simp [h0, BootSector.super]
      data := h.data_le
      fat := by
        have := b.super.dataClusCnt.isLt
        rw [BitVec.toNat_allOnes, bufSize]
        dsimp only
        omega }
  exact
    { divisor := h.secPerClus
      dataSecCnt := ⟨h.firstDataSec ▸ h.data, h.firstDataSec⟩
      fat := fun _ hlt => absurd hlt hk
      data := fun hc hj => hp.data_mem hc hj
      apart := fun _ _ hlt => absurd hlt hk
      fatWrite := fun _ _ _ => by
        rw [Super.fatWrite, show b.super.fatCnt = 0 from h0]
        rfl
      clusterWrite := fun _ _ _ hlt => absurd hlt hk }

end Roomy

lemma Sound.fits {b : BootSector} (hb : b.bytsPerSec = BitVec.ofNat 16 bufSize) (h : Sound b.super) : Fits b := by
  have hr : Roomy b := ⟨h.divisor, h.dataSecCnt.2 ▸ h.dataSecCnt.1⟩
  refine ⟨hr, or_iff_not_imp_left.mpr fun hf => or_iff_not_imp_left.mpr fun hc => ?_⟩
  have hcl := b.super.dataClusCnt.isLt
  have hrs := b.rsvdSecCnt.isLt
  have hn : (BitVec.ofNat 64 (b.clusters + 1)).toNat = b.clusters + 1 := by
    rw [BitVec.toNat_ofNat, mod_eq_of_lt (by rw [← hr.dataClusCnt]; omega)]
  have hc : b.super.InRange (BitVec.ofNat 64 (b.clusters + 1)) :=
    ⟨by omega, by rw [hn, hr.dataClusCnt]⟩
  have hlt := (h.fat hc (k := 0) (Nat.pos_of_ne_zero fun h0 => hf (BitVec.eq_of_toNat_eq h0))).2
  have hsec : (b.super.clusterFatSec (BitVec.ofNat 64 (b.clusters + 1)) 0).toNat =
      b.rsvdSecCnt.toNat + (b.clusters + 1) * 4 / bufSize := by
    have h4 := Placed.mul_four hc
    have hbs : (b.super.bytesPerSec.setWidth 64).toNat = bufSize := by
      change (b.bytsPerSec.setWidth 64).toNat = _
      rw [hb]
      decide
    rw [Super.clusterFatSec, BitVec.toNat_add, BitVec.toNat_udiv, h4, hbs, hn]
    have : (b.clusters + 1) * 4 / bufSize ≤ (b.clusters + 1) * 4 := div_le_self ..
    rw [hr.dataClusCnt] at hcl
    simp [BootSector.super]
    omega
  change _ < b.rsvdSecCnt.toNat + (0 + 1) * b.fatSz32.toNat at hlt
  rw [hsec, bufSize] at hlt
  rw [bufSize]
  omega

theorem accepted_sound (b : BootSector) (f : Super) (h : clusterInit b = .ok f) : Sound f ↔ Fits b := by
  rw [clusterInit] at h
  split_ifs at h with h₁ h₂
  cases h
  have hb := not_not.mp h₂
  refine ⟨Sound.fits hb, fun hr => ?_⟩
  rcases hr.fat with h0 | h0 | hf
  · exact hr.sound_of_no_fat hb h0
  · exact hr.sound_of_no_cluster h0
  · exact (hr.placed hb hf).sound

def bootBytes (secPerClus fatSzLow fatSzHigh : Byte) : List Byte :=
  replicate 11 0 ++ [0, 2, secPerClus, 64, 0, 2] ++ replicate 15 0 ++
    [0, 128, 0, 0, fatSzLow, fatSzHigh, 0, 0] ++ replicate 4 0 ++ [2] ++ replicate 37 0 ++ fat32Name

def bootOf (secPerClus fatSzLow fatSzHigh : Byte) : BootSector :=
  fun i => (bootBytes secPerClus fatSzLow fatSzHigh).getD i 0

theorem accepted_sound_disk : Sound (bootOf 1 0 1).super :=
  (accepted_sound (bootOf 1 0 1) (bootOf 1 0 1).super rfl).mpr ⟨⟨by decide, by decide⟩, by decide⟩

theorem accepted_unsound :
    (clusterInit (bootOf 0 0 1) = .ok (bootOf 0 0 1).super ∧ (bootOf 0 0 1).super.secPerClus = 0) ∧
      clusterInit (bootOf 1 1 0) = .ok (bootOf 1 1 0).super ∧ ¬ Sound (bootOf 1 1 0).super := by
  refine ⟨⟨rfl, by decide⟩, rfl, fun h => ?_⟩
  have ha := @Sound.apart _ h 256 2 0 0 (by decide) (by decide) (by decide) (by decide)
  exact ha (by decide)

end FarmOS.Fat

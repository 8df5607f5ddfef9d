import FarmOS.Fat.State

/-! Clusters and the file allocation tables as `kern/fs/cluster.c` reads and writes them, over the view of the disk as
one table of entries and the contents of the clusters. -/

namespace FarmOS.Fat

open Lib Function List Nat

def fat32Eof : ℕ := 0x0fffffff

def notEndCluster (cluster : ℕ) : Bool := cluster < 0x0ffffff8

namespace Super

variable (f : Super)

def clusSize : ℕ := f.bytesPerClus.toNat

-- The bound of `fatRead` and `fatWrite` is computed in 32 bits.
def Valid (cluster : ℕ) : Prop := 2 ≤ cluster ∧ cluster ≤ (f.dataClusCnt + 1).toNat

instance (cluster : ℕ) : Decidable (f.Valid cluster) := inferInstanceAs (Decidable (_ ∧ _))

def fatEntry (d : Disk) (fatno : BitVec 8) (cluster : ℕ) : ℕ :=
  entryAt d (f.clusterFatSec (BitVec.ofNat 64 cluster) fatno).toNat
    (f.clusterFatSecIndex (BitVec.ofNat 64 cluster)).toNat

def clusterBytes (d : Disk) (cluster offset n : ℕ) : List Byte :=
  readSecs d n ((f.clusterSec (BitVec.ofNat 64 cluster)).toNat + offset / bufSize) (offset % bufSize) n

def clusterZero (d : Disk) (cluster : ℕ) : Disk :=
  zeroSecs d (f.clusterSec (BitVec.ofNat 64 cluster)).toNat (f.clusSize / bufSize)

end Super

section Code

variable (f : Super)

def clusterRead (cluster offset n : ℕ) : M (List Byte) := do
  check (offset + n ≤ f.clusSize) .outOfCluster
  let s ← get
  pure (f.clusterBytes s.disk cluster offset n)

def clusterWrite (cluster offset : ℕ) (src : List Byte) : M Unit := do
  check (offset + src.length ≤ f.clusSize) .outOfCluster
  modify fun s => { s with disk := f.clusterWrite s.disk (BitVec.ofNat 64 cluster) offset src }

def fatWrite (cluster content : ℕ) : M Unit := do
  check (f.Valid cluster) .badCluster
  modify fun s => { s with disk := f.fatWrite s.disk (BitVec.ofNat 64 cluster) (BitVec.ofNat 32 content) }

def fatRead (cluster : ℕ) : M ℕ := do
  check (f.Valid cluster) .badCluster
  let s ← get
  pure (f.fatEntry s.disk 0 cluster)

def clusterZero (cluster : ℕ) : M Unit := modify fun s => { s with disk := f.clusterZero s.disk cluster }

def allocFrom (prev : ℕ) : ℕ → ℕ → M ℕ
  | 0, _ => throw .volumeFull
  | k + 1, cluster => do
    if (← fatRead f cluster) = 0 then
      if prev ≠ 0 then
        fatWrite f prev cluster
      fatWrite f cluster fat32Eof
      clusterZero f cluster
      pure cluster
    else allocFrom prev k (cluster + 1)

def clusterAlloc (prev : ℕ) : M ℕ :=
  let cluster := if prev = 0 then 2 else prev + 1
  allocFrom f prev ((f.dataClusCnt + 2).toNat - cluster) cluster

end Code

structure View where
  fat : ℕ → ℕ
  data : ℕ → ℕ → Byte

namespace View

variable (v : View)

def setFat (c x : ℕ) : View := { v with fat := update v.fat c x }

def write (c off : ℕ) (src : List Byte) : View := { v with data := update v.data c (blit (v.data c) off src) }

def zero (c : ℕ) : View := { v with data := update v.data c fun _ => 0 }

def alloc (prev c : ℕ) : View := ((if prev = 0 then v else v.setFat prev c).setFat c fat32Eof).zero c

variable (c x off : ℕ) (src : List Byte)

@[simp] lemma fat_setFat : (v.setFat c x).fat = update v.fat c x := rfl

@[simp] lemma data_setFat : (v.setFat c x).data = v.data := rfl

@[simp] lemma data_write : (v.write c off src).data = update v.data c (blit (v.data c) off src) := rfl

@[simp] lemma fat_zero : (v.zero c).fat = v.fat := rfl

@[simp] lemma data_zero : (v.zero c).data = update v.data c fun _ => 0 := rfl

end View

structure Consistent (f : Super) : Prop extends Placed f where
  clusSize : f.clusSize = f.secPerClus.toNat * bufSize
  fatCnt : 0 < f.fatCnt.toNat
  notEnd : f.dataClusCnt.toNat + 2 ≤ 0x0ffffff8

structure Laid (f : Super) : Prop extends Placed f where
  clusSize : f.clusSize = f.secPerClus.toNat * bufSize
  fatCnt : 0 < f.fatCnt.toNat

def fatPos (f : Super) (k c : ℕ) : ℕ := bufSize * (f.rsvdSecCnt.toNat + k * f.fatSz.toNat) + c * 4

def dataPos (f : Super) (c : ℕ) : ℕ := bufSize * (f.firstDataSec.toNat + (c - 2) * f.secPerClus.toNat)

structure Shows (f : Super) (d : Disk) (v : View) : Prop where
  fat {c k : ℕ} : f.Valid c → k < f.fatCnt.toNat → leNat (slice (flat d) (fatPos f k c) 4) = v.fat c
  data {c o : ℕ} : f.Valid c → o < f.clusSize → flat d (dataPos f c + o) = v.data c o

namespace Laid

variable {f : Super} {d : Disk} {c c' k k' : ℕ}

section

variable (h : Laid f)
include h

lemma dataClusCnt_lt : f.dataClusCnt.toNat + 2 < 2 ^ 32 := by
  have ht := f.totSec.isLt
  have hd := h.data
  have hfat := h.fat
  have hfirst := h.firstDataSec
  have hsz : 1 * f.fatSz.toNat ≤ f.fatCnt.toNat * f.fatSz.toNat := Nat.mul_le_mul_right _ h.fatCnt
  have hmul : f.dataClusCnt.toNat * 1 ≤ f.dataClusCnt.toNat * f.secPerClus.toNat := Nat.mul_le_mul_left _ h.secPerClus
  rw [bufSize] at hfat
  omega

lemma valid_iff : f.Valid c ↔ 2 ≤ c ∧ c < f.dataClusCnt.toNat + 2 := by
  have hn := h.dataClusCnt_lt
  rw [Super.Valid, BitVec.toNat_add, show (1 : BitVec 32).toNat = 1 from rfl, Nat.mod_eq_of_lt (by omega),
    Nat.lt_succ_iff]

section

variable (hc : f.Valid c)
include hc

lemma toNat_ofNat : (BitVec.ofNat 64 c).toNat = c := by
  have := h.valid_iff.mp hc
  have hn := h.dataClusCnt_lt
  rw [BitVec.toNat_ofNat, Nat.mod_eq_of_lt (by omega)]

lemma inRange : f.InRange (BitVec.ofNat 64 c) := by
  have := h.valid_iff.mp hc
  rw [Super.InRange, h.toNat_ofNat hc]
  omega

lemma dataPos_eq : bufSize * (f.clusterSec (BitVec.ofNat 64 c)).toNat = dataPos f c := by
  rw [h.clusterSec (h.inRange hc), h.toNat_ofNat hc, dataPos]

lemma index_lt : (f.clusterFatSecIndex (BitVec.ofNat 64 c)).toNat < 128 := by
  rw [h.clusterFatSecIndex (h.inRange hc), bufSize]
  omega

lemma fatPos_eq (hk : k < f.fatCnt.toNat) :
    bufSize * (f.clusterFatSec (BitVec.ofNat 64 c) (BitVec.ofNat 8 k)).toNat +
      (f.clusterFatSecIndex (BitVec.ofNat 64 c)).toNat * 4 = fatPos f k c := by
  have hkl := f.fatCnt.isLt
  rw [h.clusterFatSec (h.inRange hc) (Placed.ofNat_lt k hk), h.clusterFatSecIndex (h.inRange hc), h.toNat_ofNat hc,
    BitVec.toNat_ofNat, Nat.mod_eq_of_lt (a := k) (by omega), fatPos, mul_add]
  have hm := div_add_mod (c * 4) bufSize
  have h4 : c * 4 % bufSize / 4 * 4 = c * 4 % bufSize := by
    rw [bufSize]
    omega
  omega

lemma fatEntry_eq (hk : k < f.fatCnt.toNat) :
    f.fatEntry d (BitVec.ofNat 8 k) c = leNat (slice (flat d) (fatPos f k c) 4) := by
  rw [Super.fatEntry, entryAt_eq (h.index_lt hc), h.fatPos_eq hc hk]

lemma fatPos_lt_row : fatPos f k c + 4 ≤ bufSize * (f.rsvdSecCnt.toNat + (k + 1) * f.fatSz.toNat) := by
  have hf := h.fat
  have hv := h.valid_iff.mp hc
  rw [mul_comm _ bufSize] at hf
  rw [fatPos, succ_mul, ← add_assoc, mul_add bufSize _ f.fatSz.toNat]
  omega

end

end

lemma row_le (hk : k ≤ k') :
    bufSize * (f.rsvdSecCnt.toNat + k * f.fatSz.toNat) ≤ bufSize * (f.rsvdSecCnt.toNat + k' * f.fatSz.toNat) :=
  Nat.mul_le_mul_left _ (Nat.add_le_add_left (Nat.mul_le_mul_right _ hk) _)

lemma fatPos_apart (h : Laid f) (hc : f.Valid c) (hc' : f.Valid c') (hne : k ≠ k' ∨ c ≠ c') :
    fatPos f k c + 4 ≤ fatPos f k' c' ∨ fatPos f k' c' + 4 ≤ fatPos f k c := by
  obtain hlt | rfl | hgt := lt_trichotomy k k'
  · left
    have hrow := le_trans (h.fatPos_lt_row hc) (row_le hlt)
    exact le_trans hrow (le_add_right _ _)
  · have hcc : c ≠ c' := hne.resolve_left fun hn => hn rfl
    rw [fatPos, fatPos]
    omega
  · right
    have hrow := le_trans (h.fatPos_lt_row hc') (row_le hgt)
    exact le_trans hrow (le_add_right _ _)

lemma fatPos_lt_data (h : Laid f) (hc : f.Valid c) (hk : k < f.fatCnt.toNat) :
    fatPos f k c + 4 ≤ dataPos f c' := by
  refine le_trans (h.fatPos_lt_row hc) (le_trans (row_le hk) (Nat.mul_le_mul_left _ ?_))
  rw [h.firstDataSec]
  exact le_add_right _ _

lemma dataPos_apart (h : Laid f) (hc : f.Valid c) (hc' : f.Valid c') (hne : c ≠ c') :
    dataPos f c + f.clusSize ≤ dataPos f c' ∨ dataPos f c' + f.clusSize ≤ dataPos f c := by
  have key {c c' : ℕ} (hc : f.Valid c) (hlt : c < c') : dataPos f c + f.clusSize ≤ dataPos f c' := by
    have hm : (c - 2 + 1) * f.secPerClus.toNat ≤ (c' - 2) * f.secPerClus.toNat :=
      Nat.mul_le_mul_right _ (by have := hc.1; omega)
    rw [succ_mul] at hm
    rw [dataPos, dataPos, h.clusSize, mul_comm f.secPerClus.toNat, ← mul_add]
    exact Nat.mul_le_mul_left _ (by omega)
  exact (lt_or_gt_of_ne hne).imp (key hc) (key hc')

lemma blit_dataPos (h : Laid f) (hc : f.Valid c) (hc' : f.Valid c') {m : ℕ → Byte} {off o : ℕ} {src : List Byte}
    (hn : off + src.length ≤ f.clusSize) (ho : o < f.clusSize) : blit m (dataPos f c + off) src (dataPos f c' + o) =
      if c' = c then blit (fun o => m (dataPos f c + o)) off src o else m (dataPos f c' + o) := by
  by_cases hcc : c' = c
  · subst hcc
    rw [if_pos rfl]
    by_cases hin : off ≤ o ∧ o - off < src.length
    · have he : dataPos f c' + o = dataPos f c' + off + (o - off) := by omega
      rw [he, blit_add _ _ _ hin.2, blit, dif_pos hin]
    · rw [blit, dif_neg (by omega), blit, dif_neg hin]
  · rw [if_neg hcc]
    obtain hap | hap := h.dataPos_apart hc hc' (Ne.symm hcc)
    · exact blit_of_ge _ _ _ (by omega)
    · exact blit_of_lt _ _ _ (by omega)

end Laid

namespace Consistent

variable {f : Super} {c : ℕ}

lemma laid (h : Consistent f) : Laid f := ⟨h.toPlaced, h.clusSize, h.fatCnt⟩

lemma valid_iff (h : Consistent f) : f.Valid c ↔ 2 ≤ c ∧ c < f.dataClusCnt.toNat + 2 := h.laid.valid_iff

lemma notEndCluster (h : Consistent f) (hc : f.Valid c) : notEndCluster c = true := by
  have := h.valid_iff.mp hc
  have hn := h.notEnd
  exact decide_eq_true (by omega)

end Consistent

section Writes

variable {f : Super} {d : Disk} {c x n : ℕ} {src : List Byte}

lemma slice_blit_apart {m : ℕ → Byte} {a b : ℕ} (h : a + n ≤ b ∨ b + src.length ≤ a) :
    slice (blit m b src) a n = slice m a n := by
  refine slice_congr _ _ _ fun j hj => ?_
  obtain h | h := h
  · exact blit_of_lt _ _ _ (by omega)
  · exact blit_of_ge _ _ _ (by omega)

def fatLoop (f : Super) (d : Disk) (c x n : ℕ) : Disk :=
  (range n).foldl
    (fun d k => putEntry d (f.clusterFatSec (BitVec.ofNat 64 c) (BitVec.ofNat 8 k)).toNat
      (f.clusterFatSecIndex (BitVec.ofNat 64 c)).toNat x) d

lemma flat_fatLoop_succ (h : Laid f) (hc : f.Valid c) (hn : n < f.fatCnt.toNat) :
    flat (fatLoop f d c x (n + 1)) = blit (flat (fatLoop f d c x n)) (fatPos f n c) (leBytes 4 x) := by
  rw [fatLoop, range_succ, foldl_append, foldl_cons, foldl_nil, ← fatLoop,
    flat_putEntry (h.index_lt hc), h.fatPos_eq hc hn]

lemma flat_fatLoop_of_ge (h : Laid f) (hc : f.Valid c) (hn : n ≤ f.fatCnt.toNat) {a : ℕ}
    (ha : ∀ k < n, fatPos f k c + 4 ≤ a) : flat (fatLoop f d c x n) a = flat d a := by
  induction n with
  | zero => rfl
  | succ n ih =>
    rw [flat_fatLoop_succ h hc hn, blit_of_ge _ _ _ (by rw [length_leBytes]; exact ha n (lt_succ_self n))]
    exact ih (le_of_succ_le hn) fun k hk => ha k (lt_succ_of_lt hk)

lemma slice_fatLoop (h : Laid f) (hc : f.Valid c) (hn : n ≤ f.fatCnt.toNat) {c' k : ℕ} (hc' : f.Valid c') :
    slice (flat (fatLoop f d c x n)) (fatPos f k c') 4 =
      if c' = c ∧ k < n then leBytes 4 x else slice (flat d) (fatPos f k c') 4 := by
  induction n with
  | zero => rw [if_neg fun hh => absurd hh.2 (not_lt_zero k)]; rfl
  | succ n ih =>
    rw [flat_fatLoop_succ h hc hn]
    by_cases he : c' = c ∧ k = n
    · obtain ⟨rfl, rfl⟩ := he
      rw [if_pos ⟨rfl, lt_succ_self k⟩]
      have hs := slice_blit (flat (fatLoop f d c' x k)) (fatPos f k c') (leBytes 4 x)
      rwa [length_leBytes] at hs
    · have hne : k ≠ n ∨ c' ≠ c := by
        by_cases hkn : k = n
        · exact .inr fun hcc => he ⟨hcc, hkn⟩
        · exact .inl hkn
      have hap := h.fatPos_apart hc' hc hne
      rw [slice_blit_apart (by rwa [length_leBytes]), ih (le_of_succ_le hn)]
      have hiff : (c' = c ∧ k < n) ↔ (c' = c ∧ k < n + 1) := by
        constructor
        · exact fun hh => ⟨hh.1, lt_succ_of_lt hh.2⟩
        · intro hh
          exact ⟨hh.1, Nat.lt_of_le_of_ne (Nat.lt_succ_iff.mp hh.2) fun hk => he ⟨hh.1, hk⟩⟩
      simp only [hiff]

end Writes

structure Blocks.Stands (f : Super) (fat : ℕ → ℕ → ℕ) (data : ℕ → ℕ → Byte) (d : Disk) : Prop where
  fat {c k : ℕ} : f.Valid c → k < f.fatCnt.toNat → leNat (slice (flat d) (fatPos f k c) 4) = fat k c
  data {c o : ℕ} : f.Valid c → o < f.clusSize → flat d (dataPos f c + o) = data c o

namespace Blocks

variable {f : Super} {fat : ℕ → ℕ → ℕ} {data : ℕ → ℕ → Byte} {c x off : ℕ} {src : List Byte}

lemma Stands.fatLoop {d : Disk} (h : Stands f fat data d) (hf : Laid f) (hc : f.Valid c) (hx : x < 2 ^ 32) :
    Stands f (fun k => update (fat k) c x) data (fatLoop f d c x f.fatCnt.toNat) := by
  refine ⟨fun {c' k} hc' hk => ?_, fun {c' o} hc' ho => ?_⟩
  · rw [slice_fatLoop hf hc (le_refl _) hc']
    by_cases hcc : c' = c
    · subst hcc
      rw [if_pos ⟨rfl, hk⟩, update_self, leNat_leBytes]
      exact Nat.mod_eq_of_lt hx
    · rw [if_neg fun hh => hcc hh.1, update_of_ne hcc]
      exact h.fat hc' hk
  · rw [flat_fatLoop_of_ge hf hc (le_refl _) fun k hk =>
      le_trans (hf.fatPos_lt_data hc hk) (le_add_right _ _)]
    exact h.data hc' ho

lemma Stands.blit {d d' : Disk} (h : Stands f fat data d) (hf : Laid f) (hc : f.Valid c)
    (hd : flat d' = blit (flat d) (dataPos f c + off) src) (hn : off + src.length ≤ f.clusSize) :
    Stands f fat (update data c (Lib.blit (data c) off src)) d' := by
  refine ⟨fun {c' k} hc' hk => ?_, fun {c' o} hc' ho => ?_⟩
  · have hp : fatPos f k c' + 4 ≤ dataPos f c := hf.fatPos_lt_data hc' hk
    rw [hd, slice_blit_apart (.inl (by omega))]
    exact h.fat hc' hk
  · rw [hd, hf.blit_dataPos hc hc' hn ho]
    by_cases hcc : c' = c
    · subst hcc
      rw [if_pos rfl, update_self, Lib.blit, Lib.blit]
      split
      · rfl
      · exact h.data hc' ho
    · rw [if_neg hcc, update_of_ne hcc]
      exact h.data hc' ho

lemma Stands.zeroSecs {d : Disk} (h : Stands f fat data d) (hf : Laid f) (hc : f.Valid c) :
    Stands f fat (update data c fun _ => 0)
      (zeroSecs d (f.clusterSec (BitVec.ofNat 64 c)).toNat f.secPerClus.toNat) := by
  have hl : (replicate f.clusSize (0 : Byte)).length = f.clusSize := length_replicate
  have hflat : flat (Fat.zeroSecs d (f.clusterSec (BitVec.ofNat 64 c)).toNat f.secPerClus.toNat) =
      Lib.blit (flat d) (dataPos f c + 0) (replicate f.clusSize 0) := by
    rw [flat_zeroSecs, hf.dataPos_eq hc, mul_comm bufSize, ← hf.clusSize, add_zero]
  have hw := h.blit hf hc hflat (by rw [hl, zero_add])
  refine ⟨hw.fat, fun {c' o} hc' ho => ?_⟩
  rw [hw.data hc' ho]
  by_cases hcc : c' = c
  · subst hcc
    rw [update_self, update_self, Lib.blit, dif_pos ⟨zero_le _, by rw [hl]; omega⟩,
      getElem_replicate]
  · rw [update_of_ne hcc, update_of_ne hcc]

end Blocks

namespace Shows

variable {f : Super} {d : Disk} {v : View} {c x off n : ℕ} {src : List Byte}

lemma stands (h : Shows f d v) : Blocks.Stands f (fun _ => v.fat) v.data d := ⟨h.fat, h.data⟩

lemma of_stands (h : Blocks.Stands f (fun _ => v.fat) v.data d) : Shows f d v := ⟨h.fat, h.data⟩

lemma fatEntry (h : Shows f d v) (hf : Laid f) (hc : f.Valid c) : f.fatEntry d 0 c = v.fat c :=
  (hf.fatEntry_eq (k := 0) hc hf.fatCnt).trans (h.fat hc hf.fatCnt)

lemma fatWrite (h : Shows f d v) (hf : Laid f) (hc : f.Valid c) (hx : x < 2 ^ 32) :
    Shows f (f.fatWrite d (BitVec.ofNat 64 c) (BitVec.ofNat 32 x)) (v.setFat c x) := by
  have he : f.fatWrite d (BitVec.ofNat 64 c) (BitVec.ofNat 32 x) = fatLoop f d c x f.fatCnt.toNat := by
    rw [Super.fatWrite, BitVec.toNat_ofNat, Nat.mod_eq_of_lt hx, fatLoop]
  rw [he]
  exact of_stands (h.stands.fatLoop hf hc hx)

lemma sec_add (off : ℕ) (hf : Laid f) (hc : f.Valid c) :
    bufSize * ((f.clusterSec (BitVec.ofNat 64 c)).toNat + off / bufSize) + off % bufSize = dataPos f c + off := by
  rw [mul_add, hf.dataPos_eq hc, add_assoc, div_add_mod]

lemma clusterWrite (h : Shows f d v) (hf : Laid f) (hc : f.Valid c) (hn : off + src.length ≤ f.clusSize) :
    Shows f (f.clusterWrite d (BitVec.ofNat 64 c) off src) (v.write c off src) := by
  refine of_stands (h.stands.blit hf hc ?_ hn)
  rw [Super.clusterWrite, flat_writeSecs (le_refl _) (mod_lt _ (by decide)), sec_add off hf hc]

lemma clusterZero (h : Shows f d v) (hf : Laid f) (hc : f.Valid c) : Shows f (f.clusterZero d c) (v.zero c) := by
  rw [Super.clusterZero, hf.clusSize, Nat.mul_div_cancel _ (by decide)]
  exact of_stands (h.stands.zeroSecs hf hc)

lemma clusterBytes (h : Shows f d v) (hf : Laid f) (hc : f.Valid c) (hn : off + n ≤ f.clusSize) :
    f.clusterBytes d c off n = slice (v.data c) off n := by
  rw [Super.clusterBytes, readSecs_eq (le_refl _) (mod_lt _ (by decide)), sec_add off hf hc]
  refine map_congr_left fun j hj => ?_
  have hj := mem_range.mp hj
  rw [add_assoc]
  exact h.data hc (by omega)

end Shows

section Rules

variable {f : Super} {s : State} {v : View} {c prev x off n : ℕ} {src : List Byte} {E : Panic → Prop}
  {Q : Unit → State → Prop}

lemma Consistent.lt_two_pow (hf : Consistent f) (hc : f.Valid c) : c < 2 ^ 32 := by
  have := hf.valid_iff.mp hc
  have := hf.notEnd
  omega

section

variable (hf : Consistent f) (hv : Shows f s.disk v)
include hf hv

lemma wp_fatRead {Q : ℕ → State → Prop} (hc : f.Valid c) : wp (fatRead f c) Q E s ↔ Q (v.fat c) s := by
  simp only [fatRead, wp_bind, wp_check, wp_get, wp_pure, hc, not_true, false_imp_iff, and_true, true_imp_iff,
    hv.fatEntry hf.laid hc]

lemma wp_fatWrite (hc : f.Valid c) (hx : x < 2 ^ 32) (hQ : ∀ d', Shows f d' (v.setFat c x) → Q () (s.onDisk d')) :
    wp (fatWrite f c x) Q E s := by
  simp only [fatWrite, wp_bind, wp_check, wp_modify, hc, not_true, false_imp_iff, and_true, true_imp_iff]
  exact hQ _ (hv.fatWrite hf.laid hc hx)

lemma wp_clusterRead {Q : List Byte → State → Prop} (hc : f.Valid c)
    (hn : off + n ≤ f.clusSize) : wp (clusterRead f c off n) Q E s ↔ Q (slice (v.data c) off n) s := by
  simp only [clusterRead, wp_bind, wp_check, wp_get, wp_pure, hn, not_true, false_imp_iff, and_true, true_imp_iff,
    hv.clusterBytes hf.laid hc hn]

lemma wp_clusterWrite (hc : f.Valid c)
    (hn : off + src.length ≤ f.clusSize) (hQ : ∀ d', Shows f d' (v.write c off src) → Q () (s.onDisk d')) :
    wp (clusterWrite f c off src) Q E s := by
  simp only [clusterWrite, wp_bind, wp_check, wp_modify, hn, not_true, false_imp_iff, and_true, true_imp_iff]
  exact hQ _ (hv.clusterWrite hf.laid hc hn)

lemma wp_clusterZero (hc : f.Valid c)
    (hQ : ∀ d', Shows f d' (v.zero c) → Q () (s.onDisk d')) : wp (clusterZero f c) Q E s := by
  rw [clusterZero, wp_modify]
  exact hQ _ (hv.clusterZero hf.laid hc)

lemma wp_allocFrom {Q : ℕ → State → Prop} {k : ℕ}
    (hp : prev = 0 ∨ f.Valid prev) (hlt : prev < c) (hc : 2 ≤ c) (hk : c + k = f.dataClusCnt.toNat + 2)
    (hQ : ∀ c d', f.Valid c → v.fat c = 0 → prev < c → Shows f d' (v.alloc prev c) → Q c (s.onDisk d'))
    (hE : E .volumeFull) : wp (allocFrom f prev k c) Q E s := by
  induction k generalizing c with
  | zero =>
    rw [allocFrom, wp_throw]
    exact hE
  | succ k ih =>
    have hcv : f.Valid c := hf.valid_iff.mpr (by omega)
    rw [allocFrom, wp_bind, wp_fatRead hf hv hcv]
    split_ifs with h0 hprev
    · rw [wp_bind]
      refine wp_fatWrite hf hv (hp.resolve_left hprev) (hf.lt_two_pow hcv) fun d1 h1 => ?_
      rw [wp_bind]
      refine wp_fatWrite hf h1 hcv (by decide) fun d2 h2 => ?_
      rw [wp_bind]
      refine wp_clusterZero hf h2 hcv fun d3 h3 => ?_
      rw [wp_pure]
      refine hQ c d3 hcv h0 hlt ?_
      rwa [View.alloc, if_neg hprev]
    · rw [wp_bind]
      refine wp_fatWrite hf hv hcv (by decide) fun d2 h2 => ?_
      rw [wp_bind]
      refine wp_clusterZero hf h2 hcv fun d3 h3 => ?_
      rw [wp_pure]
      refine hQ c d3 hcv h0 hlt ?_
      rwa [View.alloc, if_pos (not_not.mp hprev)]
    · exact ih (by omega) (by omega) (by omega)

end

lemma wp_clusterAlloc {Q : ℕ → State → Prop} (hf : Consistent f) (hv : Shows f s.disk v) (hp : prev = 0 ∨ f.Valid prev)
    (hQ : ∀ c d', f.Valid c → v.fat c = 0 → prev < c → Shows f d' (v.alloc prev c) → Q c (s.onDisk d'))
    (hE : E .volumeFull) : wp (clusterAlloc f prev) Q E s := by
  have hn := hf.notEnd
  have h2 : (f.dataClusCnt + 2).toNat = f.dataClusCnt.toNat + 2 := by
    rw [BitVec.toNat_add, show (2 : BitVec 32).toNat = 2 from rfl, Nat.mod_eq_of_lt (by omega)]
  rw [clusterAlloc, h2]
  obtain rfl | hp' := hp
  · rw [if_pos rfl]
    exact wp_allocFrom hf hv (.inl rfl) (by decide) (by decide) (by omega) hQ hE
  · have hpv := hf.valid_iff.mp hp'
    rw [if_neg (by omega)]
    exact wp_allocFrom hf hv (.inr hp') (lt_succ_self prev) (by omega) (by omega) hQ hE

end Rules

end FarmOS.Fat

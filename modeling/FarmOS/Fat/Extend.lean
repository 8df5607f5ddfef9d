import FarmOS.Fat.Grow

/-! A file as its size, the number of its clusters and the bytes in them, and `file_extend` on it. -/

namespace FarmOS.Fat

open Lib Nat List

variable {n : ℕ} {Q : Unit → State → Prop}

structure AFile where
  size : ℕ
  cap : ℕ
  bytes : ℕ → Byte

def AFile.extend (f : Super) (a : AFile) (newSize : ℕ) : AFile :=
  if newSize ≤ cls f a.size * f.clusSize then { a with size := newSize }
  else
    { size := newSize, cap := cls f newSize,
      bytes := fun o => if o / f.clusSize < cls f a.size then a.bytes o else 0 }

def afile (f : Super) (v : View) (e : Dirent) (l : List ℕ) : AFile := ⟨e.fileSize, l.length, content f v l⟩

structure Fitting (f : Super) (n : ℕ) : Prop where
  lt : n + f.clusSize ≤ 2 ^ 32
  table : cls f n ≤ tableSize

structure Owns (f : Super) (v : View) (e : Dirent) (l : List ℕ) : Prop extends Linked f v e.firstClus l where
  empty : l = [] ↔ e.fileSize = 0
  size : e.fileSize ≤ l.length * f.clusSize
  lt : e.fileSize + f.clusSize ≤ 2 ^ 32

structure Local (v : View) (l : List ℕ) (v' : View) (l' : List ℕ) : Prop where
  fat {c : ℕ} : v.fat c ≠ 0 → c ∉ l → v'.fat c = v.fat c
  data {c : ℕ} : v.fat c ≠ 0 → c ∉ l → v'.data c = v.data c
  sub {c : ℕ} : c ∈ l' → c ∈ l ∨ v.fat c = 0

namespace Local

variable {v : View} {l : List ℕ}

lemma refl : Local v l v l := ⟨fun _ _ => rfl, fun _ _ => rfl, .inl⟩

end Local

namespace Owns

variable {f : Super} {v : View} {e : Dirent} {l : List ℕ}

lemma cls_le_length (h : Owns f v e l) (hf : Consistent f) : cls f e.fileSize ≤ l.length := (cls_le hf).mpr h.size

lemma firstClus_eq_zero (h : Owns f v e l) (hf : Consistent f) : e.firstClus = 0 ↔ l = [] := by
  refine ⟨fun h0 => ?_, h.nil⟩
  by_contra hl
  obtain ⟨b, l', rfl⟩ := exists_cons_of_ne_nil hl
  have := hf.valid_iff.mp (h.valid b mem_cons_self)
  have := (h.chain hl).1
  omega

end Owns

namespace Extends

variable {f : Super} {v v' : View} {e : Dirent} {l l' : List ℕ} {newSize : ℕ}

lemma afile_eq {e' : Dirent} (h : Extends f v l (cls f e.fileSize) newSize v' l') (hl : ∀ c ∈ l, v.fat c ≠ 0)
    (he' : e'.fileSize = newSize) : afile f v' e' l' = (afile f v e l).extend f newSize := by
  cases h with
  | enough hle =>
    rw [AFile.extend, afile, afile, if_pos hle, he']
  | grown hlt hg hlen =>
    rw [AFile.extend, afile, afile, if_neg (not_le.mpr hlt), he', hlen, hg.content_eq hl]

section

variable (h : Extends f v l n newSize v' l')
include h

lemma toLocal : Local v l v' l' := by
  cases h with
  | enough _ => exact .refl
  | grown _ hg _ =>
    refine ⟨hg.fat, fun hc _ => hg.data hc, fun {c} hc => ?_⟩
    rw [← take_append_drop n l', hg.take, mem_append] at hc
    exact hc.imp mem_of_mem_take fun hd => (hg.fresh hd).1

lemma size_le (hf : Consistent f) (hn : n ≤ l.length) : newSize ≤ l'.length * f.clusSize := by
  cases h with
  | enough hle => exact Nat.le_trans hle (mul_le_mul_right _ hn)
  | grown _ _ hlen => exact (cls_le hf).mp (hlen ▸ le_refl _)

lemma small (hl : l.length ≤ tableSize) (hN : cls f newSize ≤ tableSize) : l'.length ≤ tableSize := by
  cases h with
  | enough _ => exact hl
  | grown _ _ hlen => rwa [hlen]

end

end Extends

structure Extended (e e' : Dirent) (newSize : ℕ) : Prop where
  eq : e' = ((e.setSize newSize).setFirst e'.firstClus).setPointer e'.pointer
  valid : e'.pointer.valid = e.pointer.valid

section Code

variable {f : Super} {s : State} {v : View} {l : List ℕ} {file newSize : ℕ} {sync : ℕ → M Unit} {E : Panic → Prop}

lemma u32_pred (h : 1 ≤ n) (hn : n ≤ tableSize) : u32 (n + 2 ^ 32 - 1) = n - 1 := by
  have ht : tableSize = 529408 := rfl
  rw [u32, show n + 2 ^ 32 - 1 = n - 1 + 2 ^ 32 by omega, add_mod_right, mod_eq_of_lt (by omega)]

lemma wp_extendTail (hf : Consistent f) (hv : Shows f s.disk v)
    (hl : Linked f v (s.dirents file).firstClus l) (hm : Mirrors (s.dirents file).pointer l n) (hn : 1 ≤ n)
    (ht : n ≤ tableSize) (hlt : (n - 1) * f.clusSize < newSize) (hN : newSize + f.clusSize ≤ 2 ^ 32)
    (hQ : ∀ v' l' p d' k, cls f newSize ≤ tableSize → Shows f d' v' → Linked f v' (s.dirents file).firstClus l' →
      Extends f v l n newSize v' l' → Mirrors p l' (cls f newSize) → p.valid = (s.dirents file).pointer.valid →
      wp (sync file) Q E (s.filed file d' ((s.dirents file).setPointer p) k))
    (hE : ∀ p, Fails f newSize p → E p) :
    wp (do
      let clus ← filepntGetclusbyno file (n - 1)
      extendLoop f file newSize (tableSize - (n - 1)) (n - 1) clus
      sync file) Q E s := by
  rw [wp_bind]
  refine wp_mirrored hf hl.toRow hm (by omega) fun clus hi _ => ?_
  rw [wp_bind]
  refine wp_extendLoop hf hv hl hi (by rwa [show n - 1 + 1 = n by omega]) hN hlt (by omega) (by omega)
    (fun v' l' p d' k hN' h' hl' he hm' hp => hQ v' l' p d' k hN' h' hl' ?_ hm' hp) hE
  rwa [show n - 1 + 1 = n by omega] at he

lemma wp_fileExtendWith (hf : Consistent f) (hv : Shows f s.disk v) (ho : Owns f v (s.dirents file) l)
    (hm : Mirrors (s.dirents file).pointer l (cls f (s.dirents file).fileSize))
    (ht : l.length ≤ tableSize) (hlt : (s.dirents file).fileSize < newSize) (hN : newSize + f.clusSize ≤ 2 ^ 32)
    (hQ : ∀ v' l' e' d' n, cls f newSize ≤ tableSize → Shows f d' v' → Owns f v' e' l' →
      Mirrors e'.pointer l' (cls f newSize) →
      Extends f v l (cls f (s.dirents file).fileSize) newSize v' l' → Extended (s.dirents file) e' newSize →
      wp (sync file) Q E (s.filed file d' e' n))
    (hE : ∀ p, Fails f newSize p → E p) : wp (fileExtendWith f sync file newSize) Q E s := by
  have hpos : 0 < newSize := lt_of_le_of_lt (zero_le _) hlt
  have howns {v' l' a p} (hl' : Linked f v' a l')
      (he : Extends f v l (cls f (s.dirents file).fileSize) newSize v' l') :
      Owns f v' ((((s.dirents file).setSize newSize).setFirst a).setPointer p) l' := by
    have hle := he.size_le hf (ho.cls_le_length hf)
    refine ⟨hl', iff_of_false (fun h0 => ?_) (ne_of_gt hpos), hle, hN⟩
    rw [h0, length_nil, zero_mul] at hle
    omega
  rw [fileExtendWith, wp_bind, wp_getDirent, wp_bind, wp_check]
  refine ⟨fun _ => ?_, fun hn => absurd hlt hn⟩
  rw [wp_bind, wp_modifyDirent, update_eq_filed, wp_bind, firstCluster]
  by_cases h0 : (s.dirents file).firstClus = 0
  · obtain rfl := (ho.firstClus_eq_zero hf).mp h0
    have hsize : (s.dirents file).fileSize = 0 := ho.empty.mp rfl
    rw [if_neg (not_not.mpr h0), wp_bind]
    refine wp_clusterAlloc hf hv (.inl rfl) (fun c d1 hc hfree _ h1 => ?_) (hE _ (.inl (.inl rfl)))
    obtain ⟨hl1, hg1⟩ := Linked.start hf hc hfree
    rw [wp_bind, wp_modifyDirent, onDisk_filed, update_eq_filed, filed_filed, dirents_filed_self, disk_filed, wp_bind]
    refine wp_filepntSetval (fun _ p n hp hpv => ?_) (hE _ (.inl (.inr rfl))) fun hover => absurd hover (by decide)
    rw [dirents_filed_self] at hpv
    rw [dirents_filed_self, filed_filed, disk_filed, wp_pure, clusters_eq hf (by have := hf.clusSize_lt; omega)]
    have hone : cls f 1 = 1 :=
      le_antisymm ((cls_le hf).mpr (by have := hf.clusSize_pos; omega)) (cls_pos hf (by decide))
    rw [hone, u32_pred (le_refl 1) (by decide)]
    refine wp_extendTail (l := [c]) (n := 1) hf h1 ?_ ?_ (le_refl 1) (by decide) (by omega) hN ?_ hE
    · rw [dirents_filed_self]
      exact hl1
    · rw [dirents_filed_self]
      intro i hi
      obtain rfl := lt_one_iff.mp hi
      rw [Dirent.pointer_setPointer, hp, Function.update_self]
      rfl
    · intro v' l' p' d' n' hN' h' hl' he hm' hp'
      rw [dirents_filed_self] at hl' hp' ⊢
      have he' : Extends f v [] (cls f (s.dirents file).fileSize) newSize v' l' := by
        rw [hsize, cls_zero hf]
        exact .trans hf (by omega) rfl hg1 he
      rw [filed_filed, Dirent.setPointer_setPointer]
      exact hQ v' l' _ d' n' hN' h' (howns hl' he') hm' he' ⟨rfl, hp'.trans hpv⟩
  · have hne : l ≠ [] := fun hl => h0 (ho.nil hl)
    have hsize : 0 < (s.dirents file).fileSize := Nat.pos_of_ne_zero fun hz => hne (ho.empty.mpr hz)
    have hcls := cls_pos hf hsize
    have hclst := Nat.le_trans (ho.cls_le_length hf) ht
    rw [if_pos h0, wp_pure, clusters_eq hf ho.lt, u32_pred hcls hclst]
    have hlast : (cls f (s.dirents file).fileSize - 1) * f.clusSize < newSize := by
      have : (cls f (s.dirents file).fileSize - 1) * f.clusSize < (s.dirents file).fileSize :=
        (lt_cls hf).mp (by omega)
      omega
    refine wp_extendTail (l := l) hf hv ?_ ?_ hcls hclst hlast hN ?_ hE
    · rw [dirents_filed_self]
      exact ho.toLinked
    · rw [dirents_filed_self]
      exact hm
    · intro v' l' p' d' n' hN' h' hl' he hm' hp'
      rw [dirents_filed_self] at hl' hp' ⊢
      rw [filed_filed]
      exact hQ v' l' _ d' n' hN' h' (howns (p := p') hl' he) hm' he ⟨rfl, hp'⟩

end Code

end FarmOS.Fat

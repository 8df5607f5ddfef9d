import FarmOS.Fat.File
import FarmOS.Lib.Chain

/-! The bytes of a file as they lie in a list of clusters, and what the loops over clusters do to them. -/

namespace FarmOS.Fat

open Lib Function List Nat Option

def Ended (c : ℕ) : Prop := notEndCluster c = false

def content (f : Super) (v : View) (l : List ℕ) (o : ℕ) : Byte :=
  (l[o / f.clusSize]?).elim 0 fun c => v.data c (o % f.clusSize)

def cls (f : Super) (n : ℕ) : ℕ := (n + f.clusSize - 1) / f.clusSize

structure Row (f : Super) (l : List ℕ) : Prop where
  valid : ∀ c ∈ l, f.Valid c
  nodup : l.Nodup

def Mirrors (p : Pointer) (l : List ℕ) (n : ℕ) : Prop := ∀ i < n, l[i]? = some (p.entry i)

namespace Consistent

variable {f : Super}

lemma clusSize_pos (hf : Consistent f) : 0 < f.clusSize := by
  rw [hf.clusSize]
  exact Nat.mul_pos hf.secPerClus (by decide)

lemma clusSize_lt (hf : Consistent f) : f.clusSize < 2 ^ 17 := by
  have := f.secPerClus.isLt
  rw [hf.clusSize, bufSize]
  omega

end Consistent

section Cls

variable {f : Super} {n m i : ℕ}

section

variable (hf : Consistent f)
include hf

lemma lt_cls : i < cls f n ↔ i * f.clusSize < n := by
  have hp := hf.clusSize_pos
  rw [cls, lt_div_iff_mul_lt hp]
  omega

lemma cls_le : cls f n ≤ i ↔ n ≤ i * f.clusSize := by
  rw [← not_lt, lt_cls hf, not_lt]

lemma clusters_eq (hn : n + f.clusSize ≤ 2 ^ 32) : clusters f n = cls f n := by
  have := hf.clusSize_lt
  rw [clusters, cls, u32, mod_eq_of_lt (by omega)]

lemma cls_mono (h : n ≤ m) : cls f n ≤ cls f m :=
  (cls_le hf).mpr (le_trans h ((cls_le hf).mp (le_refl _)))

lemma cls_zero : cls f 0 = 0 := le_zero.mp ((cls_le hf).mpr (zero_le _))

lemma cls_pos (h : 0 < n) : 0 < cls f n := (lt_cls hf).mpr (by rwa [zero_mul])

end

end Cls

section Content

variable {f : Super} {v : View} {l : List ℕ} {c i off : ℕ} {src : List Byte}

lemma content_congr {v' : View} (h : ∀ c ∈ l, v'.data c = v.data c) : content f v' l = content f v l := by
  funext o
  rw [content, content]
  cases hi : l[o / f.clusSize]? with
  | none => rfl
  | some c => exact congrFun (h c (mem_of_getElem? hi)) _

lemma content_write (hf : Consistent f) (hl : Row f l) (hi : l[i]? = some c) (hn : off + src.length ≤ f.clusSize) :
    content f (v.write c off src) l = blit (content f v l) (i * f.clusSize + off) src := by
  have hp := hf.clusSize_pos
  funext o
  have hdm := div_add_mod o f.clusSize
  have hlt := mod_lt o hp
  rw [mul_comm] at hdm
  by_cases hq : o / f.clusSize = i
  · rw [content, hq, hi, elim_some, View.data_write, update_self]
    rw [hq] at hdm
    by_cases hin : off ≤ o % f.clusSize ∧ o % f.clusSize - off < src.length
    · rw [blit, dif_pos hin, blit, dif_pos (by omega)]
      congr 1
      omega
    · rw [blit, dif_neg hin, blit, dif_neg (by omega), content, hq, hi, elim_some]
  · have hout : ¬ (i * f.clusSize + off ≤ o ∧ o - (i * f.clusSize + off) < src.length) := by
      rintro ⟨h1, h2⟩
      refine hq (Nat.div_eq_of_lt_le ?_ ?_)
      · omega
      · rw [Nat.succ_mul]
        omega
    rw [blit, dif_neg hout, content, content]
    cases hj : l[o / f.clusSize]? with
    | none => rfl
    | some c' =>
      have hne : c' ≠ c := by
        rintro rfl
        obtain ⟨h1, e1⟩ := List.getElem?_eq_some_iff.mp hj
        obtain ⟨h2, e2⟩ := List.getElem?_eq_some_iff.mp hi
        exact hq (hl.nodup.getElem_inj_iff.mp (e1.trans e2.symm))
      rw [elim_some, elim_some, View.data_write, update_of_ne hne]

lemma slice_content (hf : Consistent f) (hi : l[i]? = some c) {n : ℕ} (hn : off + n ≤ f.clusSize) :
    slice (v.data c) off n = slice (content f v l) (i * f.clusSize + off) n := by
  refine map_congr_left fun j hj => ?_
  have hj := mem_range.mp hj
  have hlt : off + j < f.clusSize := by omega
  rw [content, add_assoc, mul_comm, mul_add_div hf.clusSize_pos, div_eq_of_lt hlt, Nat.add_zero, hi,
    elim_some, mul_add_mod, mod_eq_of_lt hlt]

end Content

structure Rest (f : Super) (last i n : ℕ) : Prop where
  le : i * f.clusSize ≤ last + f.clusSize
  eq : last + 1 = i * f.clusSize + n ∨ n = 0 ∧ last < i * f.clusSize

namespace Rest

variable {f : Super} {last i n off : ℕ}

lemma loops (h : Rest f last i n) (hf : Consistent f) (hlast : last + f.clusSize < 2 ^ 32) :
    u32 (i * f.clusSize) ≤ last ↔ n ≠ 0 := by
  have hle := h.le
  have hcs := hf.clusSize_lt
  rw [u32, mod_eq_of_lt (by omega)]
  have := h.eq
  omega

lemma first (hf : Consistent f) (hn : n ≠ 0) :
    Rest f (off + n - 1) (off / f.clusSize + 1) (n - min n (f.clusSize - off % f.clusSize)) := by
  have hdm := div_add_mod off f.clusSize
  have hlt := mod_lt off hf.clusSize_pos
  rw [mul_comm] at hdm
  refine ⟨?_, ?_⟩
  · rw [Nat.succ_mul]
    omega
  · rw [Nat.succ_mul]
    omega

lemma next (h : Rest f last i n) (hn : n ≠ 0) : Rest f last (i + 1) (n - min f.clusSize n) := by
  have heq := h.eq
  refine ⟨?_, ?_⟩
  · rw [Nat.succ_mul]
    omega
  · rw [Nat.succ_mul]
    omega

lemma lt_cls (h : Rest f last i n) (hf : Consistent f) (hn : n ≠ 0) : i < cls f (last + 1) := by
  have heq := h.eq
  rw [Fat.lt_cls hf]
  omega

lemma le_cls (h : Rest f last i n) (hf : Consistent f) : i ≤ cls f (last + 1) := by
  have hle := h.le
  cases i with
  | zero => exact zero_le _
  | succ i =>
    rw [Nat.succ_mul] at hle
    exact (Fat.lt_cls hf).mpr (by omega)

end Rest

structure Overwritten (f : Super) (v : View) (l : List ℕ) (off : ℕ) (src : List Byte) (v' : View) : Prop where
  fat : v'.fat = v.fat
  other : ∀ c, c ∉ l → v'.data c = v.data c
  content : content f v' l = blit (content f v l) off src

namespace Overwritten

variable {f : Super} {v v' v'' : View} {l : List ℕ} {off c i : ℕ} {src src' : List Byte}

lemma nil : Overwritten f v l off [] v := ⟨rfl, fun _ _ => rfl, by rw [blit_nil]⟩

lemma cluster (hf : Consistent f) (hl : Row f l) (hi : l[i]? = some c) (hn : off + src.length ≤ f.clusSize) :
    Overwritten f v l (i * f.clusSize + off) src (v.write c off src) where
  fat := rfl
  other c' hc' := update_of_ne (fun h : c' = c => hc' (h ▸ mem_of_getElem? hi)) ..
  content := content_write hf hl hi hn

lemma trans (h : Overwritten f v l off src v') {off' : ℕ} (h' : Overwritten f v' l off' src' v'')
    (ho : off' = off + src.length ∨ src' = []) : Overwritten f v l off (src ++ src') v'' where
  fat := h'.fat.trans h.fat
  other c hc := (h'.other c hc).trans (h.other c hc)
  content := by
    rw [h'.content, h.content, blit_append]
    obtain rfl | rfl := ho
    · rfl
    · rw [blit_nil, blit_nil]

end Overwritten

section Bytes

variable {f : Super} {s : State} {v : View} {l : List ℕ} {file last k i off : ℕ} {src : List Byte}
  {E : Panic → Prop} {Q : List Byte → State → Prop}

section

variable (hf : Consistent f)
include hf

lemma wp_mirrored {Q : ℕ → State → Prop} {n : ℕ} (hl : Row f l)
    (hm : Mirrors (s.dirents file).pointer l n) (hi : i < n) (hQ : ∀ c, l[i]? = some c → f.Valid c → Q c s) :
    wp (filepntGetclusbyno file i) Q E s := by
  have hv : f.Valid ((s.dirents file).pointer.entry i) := hl.valid _ (mem_of_getElem? (hm i hi))
  refine wp_filepntGetclusbyno (fun h0 => ?_) (hQ _ (hm i hi) hv)
  have := (hf.valid_iff.mp hv).1
  omega

lemma wp_writeRest {Q : Unit → State → Prop} (hv : Shows f s.disk v) (hl : Row f l)
    (hm : Mirrors (s.dirents file).pointer l (cls f (last + 1))) (hlast : last + f.clusSize < 2 ^ 32)
    (hr : Rest f last i src.length) (hk : cls f (last + 1) < i + k)
    (hQ : ∀ v' d', Shows f d' v' → Overwritten f v l (i * f.clusSize) src v' → Q () (s.onDisk d')) :
    wp (writeRest f file last k i src) Q E s := by
  induction k generalizing s v i src with
  | zero => exact absurd (hr.le_cls hf) (not_le.mpr hk)
  | succ k ih =>
    rw [writeRest, wp_ite, wp_pure, hr.loops hf hlast]
    refine ⟨fun hn => ?_, fun hn => ?_⟩
    · rw [wp_bind]
      refine wp_mirrored hf hl hm (hr.lt_cls hf hn) fun c hi hc => ?_
      have hlen : 0 + (src.take f.clusSize).length ≤ f.clusSize := by
        rw [length_take]
        omega
      rw [wp_bind]
      refine wp_clusterWrite hf hv hc hlen fun d1 h1 => ?_
      have hnext := hr.next hn
      rw [show src.length - min f.clusSize src.length = (src.drop f.clusSize).length by
        rw [length_drop]
        omega] at hnext
      refine ih h1 hm hnext (by omega) fun v' d' h' ho => hQ v' d' h' ?_
      have hw : Overwritten f v l (i * f.clusSize) (src.take f.clusSize) (v.write c 0 (src.take f.clusSize)) :=
        Overwritten.cluster hf hl hi hlen
      have ht := hw.trans ho (by
        rw [Nat.succ_mul, length_take, drop_eq_nil_iff]
        omega)
      rwa [take_append_drop] at ht
    · obtain rfl := eq_nil_of_length_eq_zero (not_not.mp hn)
      exact hQ v s.disk hv .nil

lemma wp_writeBytes {Q : Unit → State → Prop} (hv : Shows f s.disk v) (hl : Row f l)
    (hsrc : src ≠ []) (hm : Mirrors (s.dirents file).pointer l (cls f (off + src.length)))
    (hlast : off + src.length + f.clusSize ≤ 2 ^ 32) (ht : cls f (off + src.length) ≤ tableSize)
    (hQ : ∀ v' d', Shows f d' v' → Overwritten f v l off src v' → Q () (s.onDisk d')) :
    wp (writeBytes f file off src) Q E s := by
  have hpos : src.length ≠ 0 := fun h => hsrc (eq_nil_of_length_eq_zero h)
  have hdm := div_add_mod off f.clusSize
  have hmod := mod_lt off hf.clusSize_pos
  rw [mul_comm] at hdm
  have hi : off / f.clusSize < cls f (off + src.length) := (lt_cls hf).mpr (by omega)
  have hlen : off % f.clusSize + (src.take (f.clusSize - off % f.clusSize)).length ≤ f.clusSize := by
    rw [length_take]
    omega
  have hend : off + src.length - 1 + 1 = off + src.length := by omega
  rw [writeBytes, wp_bind]
  refine wp_mirrored hf hl hm hi fun c hic hc => ?_
  rw [wp_bind]
  refine wp_clusterWrite hf hv hc hlen fun d1 h1 => ?_
  have hw := Overwritten.cluster (v := v) hf hl hic hlen
  rw [hdm] at hw
  have hr : Rest f (off + src.length - 1) (off / f.clusSize + 1) _ := Rest.first hf hpos
  rw [show src.length - min src.length (f.clusSize - off % f.clusSize) =
    (src.drop (f.clusSize - off % f.clusSize)).length by
      rw [length_drop]
      omega] at hr
  rw [u32, mod_eq_of_lt (by omega)]
  refine wp_writeRest hf h1 hl (by rwa [hend]) (by omega) hr (by rw [hend]; omega) fun v' d' h' ho => hQ v' d' h' ?_
  have ht := hw.trans ho (by
    rw [Nat.succ_mul, length_take, drop_eq_nil_iff]
    omega)
  rwa [take_append_drop] at ht

lemma wp_readRest {n len : ℕ} {dst : List Byte}
    (hv : Shows f s.disk v) (hl : Row f l) (hm : Mirrors (s.dirents file).pointer l (cls f (last + 1)))
    (hlast : last + f.clusSize < 2 ^ 32) (hlen : len ≤ n) (hr : Rest f last i (n - len)) (hk : cls f (last + 1) < i + k)
    (hQ : Q (dst ++ slice (content f v l) (i * f.clusSize) (n - len)) s) :
    wp (readRest f file last n k i len dst) Q E s := by
  induction k generalizing i len dst with
  | zero => exact absurd (hr.le_cls hf) (not_le.mpr hk)
  | succ k ih =>
    rw [readRest, wp_ite, wp_pure, hr.loops hf hlast]
    refine ⟨fun hn => ?_, fun hn => ?_⟩
    · have hcs : 0 + min f.clusSize (n - len) ≤ f.clusSize := by omega
      rw [wp_bind]
      refine wp_mirrored hf hl hm (hr.lt_cls hf hn) fun c hi hc => ?_
      rw [wp_bind, wp_clusterRead hf hv hc hcs]
      have hnext := hr.next hn
      rw [Nat.sub_sub] at hnext
      refine ih (by omega) hnext (by omega) ?_
      rw [slice_content hf hi hcs, Nat.add_zero, append_assoc]
      have hsplit : n - len = min f.clusSize (n - len) + (n - (len + min f.clusSize (n - len))) := by omega
      by_cases hfull : f.clusSize ≤ n - len
      · have hmin : min f.clusSize (n - len) = f.clusSize := by omega
        rw [hsplit, slice_append, hmin] at hQ
        rwa [Nat.succ_mul, hmin]
      · rw [show n - (len + min f.clusSize (n - len)) = 0 by omega, slice_zero, append_nil]
        rwa [show min f.clusSize (n - len) = n - len by omega]
    · rwa [not_not.mp hn, slice_zero, append_nil] at hQ

lemma wp_readBytes {n : ℕ} (hv : Shows f s.disk v) (hl : Row f l)
    (hn : n ≠ 0) (hm : Mirrors (s.dirents file).pointer l (cls f (off + n))) (hlast : off + n + f.clusSize ≤ 2 ^ 32)
    (ht : cls f (off + n) ≤ tableSize) (hQ : Q (slice (content f v l) off n) s) :
    wp (readBytes f file off n) Q E s := by
  have hdm := div_add_mod off f.clusSize
  have hmod := mod_lt off hf.clusSize_pos
  rw [mul_comm] at hdm
  have hi : off / f.clusSize < cls f (off + n) := (lt_cls hf).mpr (by omega)
  have hlen : off % f.clusSize + min n (f.clusSize - off % f.clusSize) ≤ f.clusSize := by omega
  have hend : off + n - 1 + 1 = off + n := by omega
  rw [readBytes, wp_bind]
  refine wp_mirrored hf hl hm hi fun c hic hc => ?_
  rw [wp_bind, wp_clusterRead hf hv hc hlen, u32, mod_eq_of_lt (by omega)]
  refine wp_readRest hf hv hl (by rwa [hend]) (by omega) (by omega) (.first hf hn) (by rw [hend]; omega) ?_
  rw [slice_content hf hic hlen, hdm]
  by_cases hfull : f.clusSize - off % f.clusSize ≤ n
  · rw [show n = (f.clusSize - off % f.clusSize) + (n - (f.clusSize - off % f.clusSize)) by omega, slice_append] at hQ
    rwa [show min n (f.clusSize - off % f.clusSize) = f.clusSize - off % f.clusSize by omega, Nat.succ_mul,
      show off / f.clusSize * f.clusSize + f.clusSize = off + (f.clusSize - off % f.clusSize) by omega]
  · rwa [show min n (f.clusSize - off % f.clusSize) = n by omega, Nat.sub_self, slice_zero, append_nil]

end

end Bytes

end FarmOS.Fat

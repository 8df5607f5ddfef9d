import FarmOS.Fat.Files
import Mathlib.Data.List.GetD
import Mathlib.Data.List.Perm.Subperm

/-! `file_shrink`: zeros up to the next page, then the clusters behind the new end are freed. -/

namespace FarmOS.Fat

open Lib Function List Nat

section Fill

variable {f : Super} {ready : ℕ → Prop} {s : State} {v : View} {own : ℕ → List ℕ} {file : ℕ}

lemma Fitting.pgRoundUp {n : ℕ} (hf : Consistent f) (h : Fitting f n) (hn : n < 2 ^ 31) :
    Fitting f (pgRoundUp n) := by
  have hc := hf.clusSize_lt
  have hp : Fat.pgRoundUp n = (n + 4095) / 4096 * 4096 := rfl
  refine ⟨by omega, (cls_le hf).mpr ?_⟩
  have ht := (cls_le hf).mp h.table
  have hm : tableSize * f.clusSize = f.secPerClus.toNat * 517 * 128 * 4096 := by
    rw [hf.clusSize, show tableSize = 517 * 128 * 8 from rfl, bufSize]
    omega
  rw [hm] at ht ⊢
  rw [hp]
  have hpages : (n + 4095) / 4096 ≤ f.secPerClus.toNat * 517 * 128 := by omega
  exact mul_le_mul_right 4096 hpages

lemma wp_zeroFill {i k newsize : ℕ} (hf : Consistent f) (h : Files f ready s v own)
    (hw : Within s.par maxDirent file) (hr : ready file)
    (hl : newsize < 2 ^ 31 → Fitting f (pgRoundUp newsize)) (hle : newsize ≤ i) :
    wp (zeroFill f file newsize k i)
      (fun _ s' => ∃ v' own' a, (s.dirents file).fileSize ≤ a.size ∧ Synced f ready s v own file a s' v' own')
      (Halts f s 0) s := by
  induction k generalizing s v own i with
  | zero => exact wp_pure.mpr ⟨v, own, _, le_refl _, .refl h⟩
  | succ k ih =>
    rw [zeroFill]
    split_ifs with hi
    · have hlen : (replicate (min 1024 (pgRoundUp newsize - i)) (0 : Byte)).length =
          min 1024 (pgRoundUp newsize - i) := length_replicate
      rw [wp_bind]
      have hfit : Fitting f (i + (replicate (min 1024 (pgRoundUp newsize - i)) (0 : Byte)).length) :=
        (hl (by omega)).mono hf (by omega)
      refine wp_mono (wp_mono_error (wp_fileWrite hf h hw hr (fun hc => ?_) hfit.lt)
        fun p hp => hp.mono (fun _ => rfl) fun _ _ => hfit.table) fun _ s1 h1 => ?_
      · rw [hc, length_nil] at hlen
        omega
      · obtain ⟨v1, own1, h1⟩ := h1
        have hsize : (s.dirents file).fileSize ≤ (s1.dirents file).fileSize := by
          rw [← size_files f s1 v1 own1, h1.self, AFile.size_write]
          exact le_max_left ..
        refine wp_mono (wp_mono_error (ih h1.inv (by rwa [h1.par]) (by omega)) fun p hp =>
          hp.mono h1.rest fun hz _ => hz)
          fun _ s' h' => ?_
        obtain ⟨v', own', a, ha, h'⟩ := h'
        exact ⟨v', own', a, le_trans hsize ha, h1.trans h'⟩
    · exact wp_pure.mpr ⟨v, own, _, le_refl _, .refl h⟩

lemma wp_zeroTail {newsize : ℕ} (hf : Consistent f) (h : Files f ready s v own) (hw : Within s.par maxDirent file)
    (hr : ready file) (hl : Fitting f newsize) :
    wp (zeroTail f file (s.dirents file).fileSize newsize)
      (fun _ s' => ∃ v' own' a, (s.dirents file).fileSize ≤ a.size ∧
        ((s.dirents file).fileSize = 0 → a.size = 0) ∧ Synced f ready s v own file a s' v' own') (Halts f s 0) s := by
  rw [zeroTail]
  split_ifs with h0
  · refine wp_mono (wp_zeroFill hf h hw hr (.pgRoundUp hf hl) (le_refl _)) fun _ s' ⟨v', own', a, ha, h'⟩ => ?_
    exact ⟨v', own', a, ha, fun hz => absurd (by rw [hz]; rfl) h0, h'⟩
  · exact wp_pure.mpr ⟨v, own, _, le_refl _, id, .refl h⟩

end Fill

def View.freed (v : View) (l : List ℕ) : View := { v with fat := fun c => if c ∈ l then 0 else v.fat c }

section Free

variable {f : Super} {s : State} {v : View} {a k : ℕ} {m : List ℕ} {E : Panic → Prop}

lemma freed_nil : v.freed [] = v := by
  rw [View.freed]
  simp only [not_mem_nil, if_false]

lemma freed_cons {b : ℕ} : (v.setFat b 0).freed m = v.freed (b :: m) := by
  rw [View.freed, View.freed, View.data_setFat, View.fat_setFat]
  congr 1
  funext c
  by_cases hm : c ∈ m
  · rw [if_pos hm, if_pos (mem_cons_of_mem b hm)]
  · rw [if_neg hm]
    by_cases hb : c = b
    · subst hb
      rw [update_self, if_pos mem_cons_self]
    · rw [update_of_ne hb, if_neg fun hc => (mem_cons.mp hc).elim hb hm]

lemma wp_clusFreeLoop_row {Q : Unit → State → Prop} (hf : Consistent f) (hv : Shows f s.disk v) (hm : Row f m)
    (hne : m ≠ []) (hc : Chain v.fat Ended a m) (hk : m.length ≤ k)
    (hQ : ∀ d', Shows f d' (v.freed m) → Q () (s.onDisk d')) : wp (clusFreeLoop f k a) Q E s := by
  induction m generalizing a v s k with
  | nil => exact absurd rfl hne
  | cons b m ih =>
    obtain ⟨rfl, hb, hc⟩ := hc
    have hav : f.Valid a := hm.valid a mem_cons_self
    have hnd := nodup_cons.mp hm.nodup
    cases k with
    | zero => exact absurd hk (not_succ_le_zero _)
    | succ k =>
      rw [clusFreeLoop, wp_bind, wp_fatRead hf hv hav, wp_bind]
      refine wp_fatWrite hf hv hav (by decide) fun d1 h1 => ?_
      rw [wp_ite, wp_pure]
      have hc1 : Chain (v.setFat a 0).fat Ended (v.fat a) m := hc.congr fun c hcm =>
        update_of_ne (fun he : c = a => hnd.1 (he ▸ hcm)) ..
      have hnil := hc.eq_nil_iff
      rw [← freed_cons] at hQ
      refine ⟨fun hgo => ?_, fun hstop => ?_⟩
      · refine ih h1 ⟨fun c hcm => hm.valid c (mem_cons_of_mem a hcm), hnd.2⟩ (fun h0 => ?_) hc1
          (le_of_succ_le_succ hk) fun d' h' => hQ d' h'
        have : notEndCluster (v.fat a) = false := hnil.mp h0
        rw [this] at hgo
        exact Bool.noConfusion hgo
      · obtain rfl := hnil.mpr (Bool.eq_false_iff.mpr hstop)
        rw [freed_nil] at hQ
        exact hQ d1 h1

lemma Row.length_le (hm : Row f m) : m.length ≤ (f.dataClusCnt + 1).toNat + 1 := by
  have hsub : m ⊆ range ((f.dataClusCnt + 1).toNat + 1) := fun c hc =>
    mem_range.mpr (lt_succ_of_le (hm.valid c hc).2)
  have := (subperm_of_subset hm.nodup hsub).length_le
  rwa [length_range] at this

end Free

structure CutTo (f : Super) (v : View) (a : ℕ) (l : List ℕ) (n : ℕ) (v' : View) : Prop where
  linked : Linked f v' (if n = 0 then 0 else a) (l.take n)
  toLocal : Local v l v' (l.take n)

section Cut

variable {f : Super} {s : State} {v : View} {a n : ℕ} {l : List ℕ} {file : ℕ} {E : Panic → Prop}
  {Q : Unit → State → Prop}

def View.ended (v : View) (l : List ℕ) (n : ℕ) : View := if n = 0 then v else v.setFat (l.getD (n - 1) 0) fat32Eof

lemma fat_ended_of_ne {c : ℕ} (h : n ≠ 0 → c ≠ l.getD (n - 1) 0) : (v.ended l n).fat c = v.fat c := by
  rw [View.ended]
  split_ifs with h0
  · rfl
  · exact update_of_ne (h h0) ..

lemma data_ended : (v.ended l n).data = v.data := by
  rw [View.ended]
  split_ifs <;> rfl

lemma Linked.cutTo (h : Linked f v a l) (hn : n < l.length) : CutTo f v a l n ((v.ended l n).freed (l.drop n)) := by
  have hdisj {c : ℕ} (ht : c ∈ l.take n) (hd : c ∈ l.drop n) : False := by
    have hnd := h.nodup
    rw [← take_append_drop n l] at hnd
    exact (nodup_append.mp hnd).2.2 c ht c hd rfl
  have hprev (h0 : n ≠ 0) : l.getD (n - 1) 0 ∈ l.take n := by
    rw [getD_eq_getElem _ _ (by omega)]
    exact mem_take_iff_getElem.mpr ⟨n - 1, by omega, rfl⟩
  have hfat {c : ℕ} (hc : c ∉ l) : ((v.ended l n).freed (l.drop n)).fat c = v.fat c := by
    change (if c ∈ l.drop n then 0 else (v.ended l n).fat c) = v.fat c
    rw [if_neg fun hd => hc (mem_of_mem_drop hd)]
    exact fat_ended_of_ne fun h0 he => hc (he ▸ mem_of_mem_take (hprev h0))
  refine ⟨⟨⟨fun c hc => h.valid c (mem_of_mem_take hc), h.nodup.sublist (take_sublist _ _)⟩, fun hne => ?_,
    fun hnil => ?_⟩, ⟨fun _ hc => hfat hc, fun _ _ => congrFun data_ended _, fun hc => .inl (mem_of_mem_take hc)⟩⟩
  · have h0 : n ≠ 0 := fun h0 => hne (by rw [h0, take_zero])
    obtain ⟨m, rfl⟩ := exists_eq_succ_of_ne_zero h0
    rw [if_neg h0, ← append_nil (l.take (m + 1))]
    have hm : m < l.length := by omega
    have hlast : l.getD (m + 1 - 1) 0 = l[m] := getD_eq_getElem _ _ hm
    have hmem : l[m] ∈ l.take (m + 1) := hlast ▸ hprev h0
    refine (h.chain (ne_nil_of_mem (mem_of_mem_take hmem))).splice hm (fun c hc => ?_) ?_
    · have hct : c ∈ l.take (m + 1) := by
        rw [take_succ_eq_append_getElem hm]
        exact mem_append_left _ hc
      change (if c ∈ l.drop (m + 1) then 0 else (v.ended l (m + 1)).fat c) = v.fat c
      rw [if_neg fun hd => hdisj hct hd, fat_ended_of_ne fun _ he => ?_]
      obtain ⟨j, hj, rfl⟩ := getElem_of_mem hc
      rw [hlast, getElem_take] at he
      rw [length_take] at hj
      have := h.nodup.getElem_inj_iff.mp he
      omega
    · change Ended (if l[m] ∈ l.drop (m + 1) then 0 else (v.ended l (m + 1)).fat l[m])
      rw [if_neg fun hd => hdisj hmem hd, View.ended, if_neg h0, hlast, View.fat_setFat, update_self]
      exact ended_fat32Eof
  · rw [take_eq_nil_iff] at hnil
    obtain h0 | hl := hnil
    · rw [if_pos h0]
    · rw [hl] at hn
      exact absurd hn (not_lt_zero _)

lemma wp_endChain {k : ℕ} (hf : Consistent f) (hv : Shows f s.disk v) (hl : Row f l)
    (hm : Mirrors (s.dirents file).pointer l k) (hn : n < k)
    (hQ : ∀ d', Shows f d' (v.ended l n) → Q () (s.onDisk d')) : wp (endChain f file n) Q E s := by
  rw [View.ended] at hQ
  rw [endChain, wp_ite, wp_pure]
  refine ⟨fun h0 => ?_, fun h0 => ?_⟩
  · rw [if_neg h0] at hQ
    rw [wp_bind]
    refine wp_mirrored hf hl hm (by omega) fun c hi hc => ?_
    refine wp_fatWrite hf hv hc (by decide) fun d' h' => hQ d' ?_
    rwa [getD_eq_getElem?_getD, hi, Option.getD_some]
  · rw [if_pos (not_not.mp h0)] at hQ
    exact hQ s.disk hv

lemma wp_clearPointers {i : ℕ} (ht : i + n ≤ tableSize)
    (hQ : ∀ p k, (∀ j < i, p.entry j = (s.dirents file).pointer.entry j) →
      p.valid = (s.dirents file).pointer.valid → Q () (s.filed file s.disk ((s.dirents file).setPointer p) k))
    (hE : E .noPage) : wp (clearPointers file i n) Q E s := by
  induction n generalizing s i with
  | zero =>
    have hq := hQ (s.dirents file).pointer s.pages (fun _ _ => rfl) rfl
    rw [Dirent.setPointer, ← onDisk_eq_filed] at hq
    rw [clearPointers]
    exact wp_pure.mpr hq
  | succ n ih =>
    rw [clearPointers, wp_bind]
    refine wp_filepntSetval (fun _ p k hp hpv => ih (by omega) fun p' k' hp' hpv' => ?_) hE (by omega)
    rw [dirents_filed_self] at hp' hpv' ⊢
    rw [filed_filed, disk_filed, Dirent.setPointer_setPointer]
    refine hQ p' k' (fun j hj => ?_) (hpv'.trans hpv)
    rw [hp' j (by omega), Dirent.pointer_setPointer, hp, update_of_ne (by omega)]

lemma wp_cutTail {k m : ℕ} (hf : Consistent f) (hv : Shows f s.disk v)
    (hl : Linked f v a l) (hm : Mirrors (s.dirents file).pointer l k) (hmk : m ≤ k) (hk : k ≤ tableSize)
    (hcut : n < m → ∀ v' p d' j, Shows f d' v' → CutTo f v a l n v' → Mirrors p (l.take n) n →
      p.valid = (s.dirents file).pointer.valid → Q () (s.filed file d' ((s.dirents file).setPointer p) j))
    (hstay : m ≤ n → Q () s) (hE : E .noPage) : wp (cutTail f file m n) Q E s := by
  rw [cutTail, wp_ite, wp_pure]
  refine ⟨fun hlt => ?_, fun hge => hstay (not_lt.mp hge)⟩
  have hnl : n < l.length := by
    obtain ⟨h, -⟩ := List.getElem?_eq_some_iff.mp (hm n (by omega))
    exact h
  rw [wp_bind]
  refine wp_mirrored hf hl.toRow hm (by omega) fun c hi _ => ?_
  have hic : l[n] = c := by
    rw [List.getElem?_eq_getElem hnl] at hi
    exact Option.some.inj hi
  rw [wp_bind]
  refine wp_endChain hf hv hl.toRow hm (by omega) fun d1 h1 => ?_
  rw [wp_bind]
  have hrow : Row f (l.drop n) :=
    ⟨fun c hc => hl.valid c (mem_of_mem_drop hc), hl.nodup.sublist (drop_sublist _ _)⟩
  have hchain : Chain (v.ended l n).fat Ended c (l.drop n) := by
    rw [← hic]
    refine ((hl.chain (ne_nil_of_length_pos (by omega))).drop hnl).congr fun c hc => fat_ended_of_ne fun h0 he => ?_
    rw [getD_eq_getElem _ _ (by omega)] at he
    obtain ⟨j, hj, rfl⟩ := getElem_of_mem hc
    rw [getElem_drop] at he
    have := hl.nodup.getElem_inj_iff.mp he
    omega
  rw [clusSequenceFree]
  refine wp_clusFreeLoop_row hf h1 hrow (fun h0 => ?_) hchain hrow.length_le fun d2 h2 => ?_
  · rw [drop_eq_nil_iff] at h0
    omega
  · refine wp_clearPointers (by omega) (fun p j hp hpv => ?_) hE
    refine hcut hlt _ p d2 j h2 (hl.cutTo hnl) (fun i hi => ?_) hpv
    rw [List.getElem?_take_of_lt hi, hp i hi]
    exact hm i (by omega)

end Cut

section Code

variable {f : Super} {ready : ℕ → Prop} {s : State} {v v' : View} {own : ℕ → List ℕ} {file newsize : ℕ}
  {p : Pointer} {e : Dirent}

lemma cls_eq_zero {n : ℕ} (hf : Consistent f) : cls f n = 0 ↔ n = 0 := by
  refine ⟨fun h => ?_, fun h => h ▸ cls_zero hf⟩
  by_contra hn
  have := cls_pos hf (Nat.pos_of_ne_zero hn)
  omega

def Dirent.shrunk (e : Dirent) (p : Pointer) (newsize : ℕ) : Dirent :=
  ((e.setPointer p).setSize newsize).setFirst (if newsize = 0 then 0 else e.firstClus)

lemma CutTo.owns {l : List ℕ} (hf : Consistent f)
    (h : CutTo f v e.firstClus l (cls f newsize) v') (hl : cls f newsize < l.length)
    (hN : newsize + f.clusSize ≤ 2 ^ 32) :
    Owns f v' (e.shrunk p newsize) (l.take (cls f newsize)) := by
  have hlink := h.linked
  have hlen : (l.take (cls f newsize)).length = cls f newsize := length_take_of_le (le_of_lt hl)
  simp only [cls_eq_zero hf] at hlink
  refine ⟨hlink, ?_, ?_, hN⟩
  · rw [← length_eq_zero_iff, hlen]
    exact cls_eq_zero hf
  · rw [hlen]
    exact (cls_le hf).mp (le_refl _)

lemma Owns.shrunk {l : List ℕ} (ho : Owns f v e l) (hle : newsize ≤ e.fileSize)
    (hz : newsize = 0 → e.fileSize = 0) : Owns f v (e.shrunk e.pointer newsize) l := by
  refine ⟨⟨ho.toRow, fun hne => ?_, fun hnil => ?_⟩, ?_, le_trans hle ho.size,
    le_trans (Nat.add_le_add_right hle _) ho.lt⟩
  · have h0 : newsize ≠ 0 := fun h0 => hne (ho.empty.mpr (hz h0))
    rw [Dirent.shrunk, if_neg h0]
    exact ho.chain hne
  · rw [Dirent.shrunk]
    split_ifs
    · rfl
    · exact ho.nil hnil
  · refine ho.empty.trans ⟨fun h0 => ?_, hz⟩
    exact le_zero.mp (h0 ▸ hle)

lemma wp_fileShrink (hf : Consistent f) (h : Files f ready s v own) (hw : Within s.par maxDirent file)
    (hr : ready file) (hle : newsize ≤ (s.dirents file).fileSize) :
    wp (fileShrink f file newsize)
      (fun _ s' => ∃ v' own' a, a.size = newsize ∧ Synced f ready s v own file a s' v' own') (Halts f s 0) s := by
  have hfit := h.fitting hf hr
  have hN := hfit.mono hf hle
  have hclus : (newsize + f.clusSize - 1) / f.clusSize = cls f newsize := rfl
  rw [fileShrink, wp_bind, wp_getDirent, wp_bind, wp_check]
  refine ⟨fun _ => ?_, fun hn => absurd hle hn⟩
  refine wp_seq (wp_zeroTail hf h hw hr hN) fun _ s1 h1 => ?_
  obtain ⟨v1, own1, _, hsize, hzero, h1⟩ := h1
  obtain ⟨e1, he1⟩ : ∃ e1, s1.dirents file = e1 := ⟨_, rfl⟩
  have ho := h1.inv.owns file
  have hm := h1.inv.mirror file hr
  have hsm := h1.inv.small file hr
  rw [← h1.self, size_files, he1] at hsize hzero
  rw [he1] at ho hm
  have hsync {p : Pointer} {d' : Disk} {n : ℕ} {l' : List ℕ} {v' : View} (hs : Shows f d' v')
      (hown : Owns f v' (e1.shrunk p newsize) l') (hmir : Mirrors p l' (cls f newsize)) (hsm : l'.length ≤ tableSize)
      (hloc : Local v1 (own1 file) v' l') (hp : p.valid = e1.pointer.valid) :
      wp (syncDirentRawdataBack f file)
        (fun _ s' => ∃ v' own' a, a.size = newsize ∧ Synced f ready s v own file a s' v' own') (Halts f s 0)
        (s1.filed file d' (e1.shrunk p newsize) n) := by
    have hrest : (e1.shrunk p newsize).rest = (s1.dirents file).rest := by
      rw [he1, Dirent.shrunk, rest_setFirst, rest_setSize, rest_setPointer hp]
    have hset := h1.inv.set (n := n) hf hs hown (fun _ => hmir) (fun _ => hsm) hloc (h1.inv.parent_of_rest hrest)
    have hrests (i : ℕ) : ((s1.filed file d' (e1.shrunk p newsize) n).dirents i).rest = (s.dirents i).rest :=
      (rest_filed hrest i).trans (h1.rest i)
    refine wp_mono (wp_mono_error (wp_syncBack_entry hf hset (by rw [par_eq hrests]; exact hw.succ))
      fun p hp => hp.mono hrests fun hz _ => hz) fun _ s' h' => ?_
    obtain ⟨v3, own3, h', -⟩ := h'
    rw [h1.inv.files_set hf _ _ _ hloc, update_self] at h'
    exact ⟨v3, own3, _, rfl, h1.trans (h'.of_set h1.inv hf hloc hrest)⟩
  rw [wp_bind, clusters_eq hf hfit.lt, hclus]
  refine wp_cutTail hf h1.inv.shows (he1 ▸ ho.toLinked) (he1 ▸ hm) (cls_mono hf hsize)
    (le_trans (ho.cls_le_length hf) hsm)
    (fun hlt v' p d' j hs hcut hmir hp => ?_) (fun hge => ?_) (.inl (.inr rfl))
  · rw [he1] at hcut hp
    have hlen : cls f newsize < (own1 file).length :=
      lt_of_lt_of_le hlt (le_trans (cls_mono hf hsize) (ho.cls_le_length hf))
    rw [wp_bind, wp_modifyDirent, update_eq_filed, filed_filed, dirents_filed_self, disk_filed, he1]
    have hsm' : ((own1 file).take (cls f newsize)).length ≤ tableSize :=
      le_trans (length_take_le' _ _) hsm
    exact hsync hs (hcut.owns hf hlen hN.lt) hmir hsm' hcut.toLocal hp
  · have hz : newsize = 0 → e1.fileSize = 0 := fun h0 => by
      rw [h0, cls_zero hf] at hge
      exact hzero ((cls_eq_zero hf).mp (le_zero.mp hge))
    have hcls : cls f newsize ≤ cls f e1.fileSize := cls_mono hf (le_trans hle hsize)
    rw [wp_bind, wp_modifyDirent, update_eq_filed, he1]
    exact hsync h1.inv.shows (ho.shrunk (le_trans hle hsize) hz)
      (fun i hi => hm i (lt_of_lt_of_le hi hcls)) hsm .refl rfl

end Code

end FarmOS.Fat

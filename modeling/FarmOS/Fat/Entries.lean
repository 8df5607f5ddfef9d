import FarmOS.Fat.Create
import FarmOS.Fat.Scan

/-! The entries that `createItemAt` writes for a new file: where they stand in the directory, and what name they
are read back with. -/

namespace FarmOS.Fat

open Lib Function List Raw Nat

lemma Within.congr {par par' : ℕ → Option ℕ} {k i : ℕ} (h : Within par k i)
    (hp : ∀ j, j = i ∨ Above par i j → par' j = par j) : Within par' k i := by
  induction k generalizing i with
  | zero => nomatch h
  | succ k ih =>
    refine .intro fun p hpar => ?_
    rw [hp i (.inl rfl)] at hpar
    refine ih (h.up hpar) fun j hj => hp j (.inr ?_)
    obtain rfl | hj := hj
    · exact .single hpar
    · exact .head hpar hj

structure AtDir (f : Super) (ready : ℕ → Prop) (s : State) (v : View) (own : ℕ → List ℕ) (dir : ℕ) : Prop where
  inv : Files f ready s v own
  within : Within s.par maxDirent dir
  opened : ready dir
  spare : Spare s dir
  idle : ∀ i ∈ s.freeList, ¬ ready i
  whole : (s.dirents dir).fileSize % direntSize = 0

structure Created (f : Super) (ready : ℕ → Prop) (junk : ℕ → ℕ → Wchar) (s : State) (v : View) (own : ℕ → List ℕ)
    (dir : ℕ) (name : List Byte) (isDir : Bool) (i : ℕ) (s' : State) (v' : View) (own' : ℕ → List ℕ) (start : ℕ) :
    Prop where
  inv : Files f (fun j => ready j ∨ j = i) s' v' own'
  first : FirstFree (content f v (own dir)) (s.dirents dir).fileSize (getEntryCountByName name) start
  place : (s'.dirents i).parentDirOff = entryOff start (getEntryCountByName name)
  raw {o : ℕ} : ¬ Written o → (s'.dirents i).raw o = newRaw isDir (newFile 0 name).raw o
  stores : (files f s v own dir).Stores start
    (dark (getEntryCountByName name) ++ nameEntries junk name ++ slice (s'.dirents i).raw 0 direntSize)
    (files f s' v' own' dir)
  free {j : ℕ} : j ∈ s'.freeList → j ∈ s.freeList

section Create

variable {f : Super} {ready : ℕ → Prop} {junk : ℕ → ℕ → Wchar} {s : State} {v : View} {own : ℕ → List ℕ} {dir : ℕ}
  {name : List Byte} {isDir : Bool}

lemma raw_of_rest {e e' : Dirent} (h : e'.rest = e.rest) {o : ℕ} (ho : ¬ Written o) : e'.raw o = e.raw o := by
  have hr : e'.rest.raw o = e.rest.raw o := by rw [h]
  change (if Written o then 0 else e'.raw o) = if Written o then 0 else e.raw o at hr
  rwa [if_neg ho, if_neg ho] at hr

-- The part of `createItemAt` behind `dir_alloc_file`.
def placeItem (f : Super) (dir file : ℕ) (isDir : Bool) : M ℕ := do
  modifyDirent file fun e => e.placed dir isDir
  firstDirCluster f isDir file
  filepntInit f file
  addChild dir file
  syncDirentRawdataBack f file
  pure file

lemma wp_placeItem {i off : ℕ} (hf : Consistent f) (h : Files f ready s v own) (hw : Within s.par maxDirent dir)
    (hr : ready dir) (hne : i ≠ dir) (hna : ¬ Above s.par dir i) (hi : ¬ ready i) (he : s.dirents i = newFile off name)
    (hoff : off + direntSize + f.clusSize ≤ 2 ^ 32) :
    wp (placeItem f dir i isDir)
      (fun j s' => j = i ∧ s'.freeList = s.freeList ∧ ∃ v' own', Files f (fun j => ready j ∨ j = i) s' v' own' ∧
        (s'.dirents i).parentDirOff = off ∧
        (∀ o, ¬ Written o → (s'.dirents i).raw o = newRaw isDir (newFile 0 name).raw o) ∧
        files f s' v' own' dir = (files f s v own dir).write f off (slice (s'.dirents i).raw 0 direntSize))
          Lacks s := by
  rw [placeItem, wp_bind, wp_modifyDirent, update_eq_filed, he]
  obtain ⟨e1, he1⟩ : ∃ e1, e1 = (newFile off name).placed dir isDir := ⟨_, rfl⟩
  obtain ⟨s1, hs1⟩ : ∃ s1, s1 = s.filed i s.disk e1 s.pages := ⟨_, rfl⟩
  have hself1 : s1.dirents i = e1 := hs1 ▸ dirents_filed_self ..
  have hne1 {j : ℕ} (hj : j ≠ i) : s1.dirents j = s.dirents j := hs1 ▸ dirents_filed_ne _ hj
  have h1 : Files f ready s1 v own := by
    refine h.relabel (hs1 ▸ rfl) (fun j => ?_) fun j p hp => ?_
    · by_cases hj : j = i
      · rw [hj, hself1, he, he1]
        exact ⟨rfl, rfl, rfl⟩
      · rw [hne1 hj]
        exact ⟨rfl, rfl, rfl⟩
    · by_cases hj : j = i
      · rw [hj, hself1, he1] at hp ⊢
        obtain rfl : dir = p := Option.some.inj hp
        exact ⟨hr, hoff⟩
      · rw [hne1 hj] at hp ⊢
        exact h.parent hp
  rw [← he1, ← hs1]
  refine wp_seq (wp_bind.mp (wp_firstDirCluster hf h1 hi (by rw [hself1, he1]; rfl) (by rw [hself1, he1]; rfl)))
    fun _ s2 hinit => ?_
  refine wp_seq hinit fun _ s3 h3 => ?_
  obtain ⟨v3, l3, h3⟩ := h3
  obtain ⟨e3, d3, n3, hs3, hlabel, hraw3, -⟩ := h3.eq
  have hself3 : s3.dirents i = e3 := hs3 ▸ dirents_filed_self ..
  have hne3 {j : ℕ} (hj : j ≠ i) : s3.dirents j = s.dirents j := by
    rw [hs3, dirents_filed_ne _ hj, hne1 hj]
  have hpar3 : e3.parentDirent = some dir ∧ e3.parentDirOff = off := by
    have hp : e3.label.parentDirent = (s1.dirents i).label.parentDirent := by rw [hlabel]
    have ho : e3.label.parentDirOff = (s1.dirents i).label.parentDirOff := by rw [hlabel]
    rw [hself1, he1] at hp ho
    exact ⟨hp, ho⟩
  rw [addChild, wp_bind, wp_modifyDirent, update_eq_filed]
  obtain ⟨e4, he4⟩ : ∃ e4, e4 = { s3.dirents dir with childList := i :: (s3.dirents dir).childList } := ⟨_, rfl⟩
  obtain ⟨s4, hs4⟩ : ∃ s4, s4 = s3.filed dir s3.disk e4 s3.pages := ⟨_, rfl⟩
  have hdir4 : s4.dirents dir = e4 := hs4 ▸ dirents_filed_self ..
  have hne4 {j : ℕ} (hj : j ≠ dir) : s4.dirents j = s3.dirents j := hs4 ▸ dirents_filed_ne _ hj
  have hself4 : s4.dirents i = e3 := (hne4 hne).trans hself3
  have hsame4 (j : ℕ) : (s3.dirents j).Same (s4.dirents j) ∧ (s4.dirents j).parentDirent = (s3.dirents j).parentDirent ∧
      (s4.dirents j).parentDirOff = (s3.dirents j).parentDirOff := by
    by_cases hj : j = dir
    · rw [hj, hdir4, he4]
      exact ⟨⟨rfl, rfl, rfl⟩, rfl, rfl⟩
    · rw [hne4 hj]
      exact ⟨⟨rfl, rfl, rfl⟩, rfl, rfl⟩
  have h4 : Files f (fun j => ready j ∨ j = i) s4 v3 (update own i l3) := by
    refine h3.inv.relabel (hs4 ▸ rfl) (fun j => (hsame4 j).1) fun j p hp => ?_
    rw [(hsame4 j).2.1] at hp
    rw [(hsame4 j).2.2]
    exact h3.inv.parent hp
  have hpar4 : s4.par i = some dir := by
    rw [State.par, hself4]
    exact hpar3.1
  have hw4 : Within s4.par (maxDirent + 1) i := by
    refine .intro fun p hp => ?_
    obtain rfl : dir = p := Option.some.inj (hpar4.symm.trans hp)
    refine hw.congr fun j hj => ?_
    have hji : j ≠ i := fun hc => hj.elim (fun hd => hne (hc ▸ hd)) fun ha => hna (hc ▸ ha)
    rw [State.par, (hsame4 j).2.1, hne3 hji]
    rfl
  have hfiles4 : files f s4 v3 (update own i l3) dir = files f s v own dir := by
    rw [files_relabel (hsame4 dir).1, hs3, h1.files_set hf _ _ _ h3.toLocal, update_of_ne hne.symm,
      files_of_dirents (hne1 hne.symm)]
  rw [← he4, ← hs4]
  refine wp_seq (wp_mono_error (wp_syncBack_entry hf h4 hw4) fun _ => Halts.lacks) fun _ s' h' => wp_pure.mpr ?_
  obtain ⟨v', own', h', hentry⟩ := h'
  have hrest := h'.rest i
  rw [hself4] at hrest
  refine ⟨rfl, ?_, v', own', h'.inv, (parentDirOff_eq hrest).trans hpar3.2, fun o ho => ?_, ?_⟩
  · rw [h'.free, hs4, freeList_filed, hs3, freeList_filed, hs1, freeList_filed]
  · rw [raw_of_rest hrest ho, hraw3, hself1, he1]
    rfl
  · rw [hentry dir hpar4, hfiles4, hself4, hpar3.2]

lemma wp_createItem (hf : Consistent f) (h : AtDir f ready s v own dir)
    (hsize : (s.dirents dir).fileSize + 2 * getEntryCountByName name * direntSize + f.clusSize ≤ 2 ^ 32) :
    wp (createItem f junk dir name isDir)
      (fun i s' => ∃ v' own' start, Created f ready junk s v own dir name isDir i s' v' own' start) Lacks s := by
  obtain ⟨cnt, hcnt⟩ : ∃ cnt, cnt = getEntryCountByName name := ⟨_, rfl⟩
  have hcnt2 := (getEntryCountByName_eq name).1
  rw [← hcnt] at hsize hcnt2
  rw [createItem]
  refine wp_seq (wp_shiftPath h.within) fun _ s1 h1 => ?_
  obtain ⟨hs1, -⟩ := h1
  have h1 : Moved f ready s v own dir (fun _ => False) s1 v own := .of_shifted h.inv hs1
  obtain ⟨r, hr⟩ := hs1.ref dir
  have hsame1 : (s.dirents dir).Same (s1.dirents dir) := by
    rw [hr]
    exact ⟨rfl, rfl, rfl⟩
  have hspare1 : Spare s1 dir := h.spare.moved h1 fun i hi => hs1.free ▸ hi
  refine wp_seq (wp_dirAllocFile hf h1.inv (h1.par ▸ h.within) h.opened hspare1 (by rw [hsame1.fileSize]; exact h.whole)
    hcnt (by rwa [hsame1.fileSize])) fun i s2 h2 => ?_
  obtain ⟨x, v2, own2, start, hfree2, h2, hdir2, hfirst, hst2⟩ := h2
  rw [hsame1.fileSize] at hfirst
  rw [files_relabel hsame1] at hst2
  have hmem : i ∈ s1.freeList := by
    rw [hfree2]
    exact mem_cons_of_mem _ mem_cons_self
  have hne : i ≠ dir := hspare1.ne hmem
  obtain ⟨-, hoff⟩ := entryOff_le (by omega : 1 ≤ cnt) hfirst.le hsize
  refine wp_mono (wp_placeItem hf h2.inv (by rw [h2.par, h1.par]; exact h.within) h.opened hne
    (by rw [h2.par]; exact hspare1.below hmem) (h.idle i (hs1.free ▸ hmem)) hdir2 hoff) fun j s' h' => ?_
  obtain ⟨rfl, hfree, v', own', hinv, hplace, hraw, hfiles⟩ := h'
  refine ⟨v', own', start, hinv, hcnt ▸ hfirst, hcnt ▸ hplace, fun ho => hraw _ ho, ?_, fun hj => ?_⟩
  · rw [← hcnt]
    refine hst2.append ?_
    rw [hfiles]
    have hpos : start + (dark cnt ++ nameEntries junk name).length = entryOff start cnt := by
      rw [length_append, length_dark, length_nameEntries, ← hcnt, entryOff, mul_comm direntSize, add_assoc]
    rw [hpos]
    exact .write hf
  · rw [hfree] at hj
    rw [← hs1.free, hfree2]
    exact mem_cons_of_mem _ (mem_cons_of_mem _ hj)

theorem createItem_stores_behind (hf : Consistent f) (h : AtDir f ready s v own dir) :
    (∀ cnt, 1 ≤ cnt → (s.dirents dir).fileSize + 2 * cnt * direntSize + f.clusSize ≤ 2 ^ 32 →
      wp (dirAllocEntry f dir cnt)
        (fun i s' => ∃ v' own' start, FirstFree (content f v (own dir)) (s.dirents dir).fileSize cnt start ∧
          (files f s v own dir).Stores start (dark cnt) (files f s' v' own' dir) ∧
          (s'.dirents i).parentDirOff = start + (2 * cnt - 1) * direntSize) Lacks s) ∧
    ∀ junk name isDir, (s.dirents dir).fileSize + 2 * getEntryCountByName name * direntSize + f.clusSize ≤ 2 ^ 32 →
      wp (createItem f junk dir name isDir)
        (fun i s' => ∃ v' own' start entries,
          FirstFree (content f v (own dir)) (s.dirents dir).fileSize (getEntryCountByName name) start ∧
          entries.length = getEntryCountByName name * direntSize ∧
          (files f s v own dir).Stores start (dark (getEntryCountByName name) ++ entries) (files f s' v' own' dir) ∧
          (s'.dirents i).parentDirOff = start + (2 * getEntryCountByName name - 1) * direntSize ∧
          (s'.dirents dir).fileSize ≤ (s.dirents dir).fileSize + 2 * getEntryCountByName name * direntSize)
            Lacks s := by
  have hd : direntSize = 32 := rfl
  have hentry {start cnt : ℕ} (hc : 1 ≤ cnt) : entryOff start cnt = start + (2 * cnt - 1) * direntSize := by
    rw [entryOff, hd]
    omega
  refine ⟨fun cnt hc hsize => ?_, fun junk name isDir hsize => ?_⟩
  · refine wp_mono (wp_dirAllocEntry hf h.inv h.within h.opened h.spare h.whole hc hsize) fun i s' h' => ?_
    obtain ⟨v', own', start, -, -, hdir, hfirst, hst⟩ := h'
    refine ⟨v', own', start, hfirst, hst, ?_⟩
    rw [hdir]
    exact hentry hc
  · refine wp_mono (wp_createItem hf h hsize) fun i s' h' => ?_
    obtain ⟨v', own', start, h'⟩ := h'
    obtain ⟨cnt, hcnt⟩ : ∃ cnt, cnt = getEntryCountByName name := ⟨_, rfl⟩
    have hcnt2 := (getEntryCountByName_eq name).1
    have hst := h'.stores
    have hlen : (nameEntries junk name ++ slice (s'.dirents i).raw 0 direntSize).length = cnt * direntSize := by
      rw [length_append, length_nameEntries, length_slice, ← hcnt, ← succ_mul]
      congr 1
      omega
    rw [append_assoc] at hst
    refine ⟨v', own', start, _, h'.first, hcnt ▸ hlen, hst, h'.place.trans (hentry (by omega)), ?_⟩
    have hgrow := hst.size
    have hle := h'.first.le
    rw [length_append, hlen, length_dark, ← hcnt, size_files, size_files] at hgrow
    rw [← hcnt, hgrow, hd]
    omega

end Create

section Codec

variable {junk : ℕ → ℕ → Wchar} {m : ℕ → Byte} {name : List Byte} {fullName : List Wchar} {off n t k i : ℕ}

def wide (name : List Byte) : List Wchar := name.map (BitVec.setWidth 16)

lemma zero_notMem_wide (h : 0 ∉ name) : 0 ∉ wide name := fun hc => by
  obtain ⟨b, hb, h0⟩ := mem_map.mp hc
  have hz : b = 0 := by
    have := congrArg BitVec.toNat h0
    rw [BitVec.toNat_setWidth, mod_eq_of_lt (by have := b.isLt; omega)] at this
    exact BitVec.eq_of_toNat_eq this
  exact h (hz ▸ hb)

lemma cstr_of_notMem {w : ℕ} {l : List (BitVec w)} (h : 0 ∉ l) : cstr l = l := by
  rw [cstr, takeWhile_eq_self_iff]
  intro x hx
  exact decide_eq_true fun hc => h (hc ▸ hx)

lemma cstr_append_zero {w : ℕ} {l l' : List (BitVec w)} (h : 0 ∉ l) : cstr (l ++ 0 :: l') = l := by
  induction l with
  | nil => simp [cstr]
  | cons x l ih =>
    have hx : x ≠ 0 := fun hc => h (hc ▸ mem_cons_self)
    have := ih fun hc => h (mem_cons_of_mem _ hc)
    rw [cstr] at this ⊢
    rw [cons_append, takeWhile_cons, if_pos (decide_eq_true hx), this]

lemma narrow_wide : (wide name).map (BitVec.setWidth 8) = name := by
  rw [wide, map_map]
  conv_rhs => rw [← map_id name]
  refine map_congr_left fun b _ => ?_
  refine BitVec.eq_of_toNat_eq ?_
  have := b.isLt
  simp only [comp_apply, BitVec.toNat_setWidth, id_eq]
  omega

lemma wchars_cons_cons {a b : Byte} {l : List Byte} : wchars (a :: b :: l) = (b ++ a) :: wchars l := by
  have hlen : (a :: b :: l).length / 2 = l.length / 2 + 1 := by
    rw [length_cons, length_cons]
    omega
  rw [wchars, hlen, range_succ_eq_map, map_cons, map_map]
  rfl

lemma wchars_wbytes (l : List Wchar) : wchars (wbytes l) = l := by
  induction l with
  | nil => rfl
  | cons w l ih =>
    have hbytes : wbytes (w :: l) = BitVec.ofNat 8 w.toNat :: BitVec.ofNat 8 (w.toNat / 256) :: wbytes l := rfl
    rw [hbytes, wchars_cons_cons, ih]
    congr 1
    refine BitVec.eq_of_toNat_eq ?_
    have hw := w.isLt
    rw [BitVec.toNat_append, BitVec.toNat_ofNat, BitVec.toNat_ofNat, ← shiftLeft_add_eq_or_of_lt (mod_lt _ (by decide)),
      shiftLeft_eq]
    omega

lemma wbytes_append (l l' : List Wchar) : wbytes (l ++ l') = wbytes l ++ wbytes l' := flatMap_append

lemma length_wbytes (l : List Wchar) : (wbytes l).length = 2 * l.length := by
  induction l with
  | nil => rfl
  | cons w l ih =>
    rw [show wbytes (w :: l) = leBytes 2 w.toNat ++ wbytes l from rfl, length_append, ih, length_leBytes, length_cons]
    omega

def longRaw (a b c : List Wchar) : ℕ → Byte :=
  blit (blit (blit (update (fun _ => 0) 11 attrLongNameMask) 1 (wbytes a)) 14 (wbytes b)) 28 (wbytes c)

lemma blit_zeros {a : ℕ} (h : ∀ j < n, m (a + j) = 0) : blit m a (replicate n 0) = m := by
  funext o
  rw [blit]
  split_ifs with ho
  · rw [getElem_replicate]
    obtain ⟨j, rfl⟩ := Nat.exists_eq_add_of_le ho.1
    rw [Nat.add_sub_cancel_left, length_replicate] at ho
    exact (h j ho.2).symm
  · rfl

lemma longRaw_of_lt {a b c : List Wchar} {o : ℕ} (ha : a.length = 5) (ho : 11 ≤ o) (ho' : o < 14) :
    longRaw a b c o = update (fun _ => (0 : Byte)) 11 attrLongNameMask o := by
  rw [longRaw, blit_of_lt _ _ _ (by omega), blit_of_lt _ _ _ (by omega),
    blit_of_ge _ _ _ (by rw [length_wbytes, ha]; omega)]

lemma longName_longRaw {a b c : List Wchar} (ha : a.length = 5) (hb : b.length = 6) (hc : c.length = 2) :
    longName (longRaw a b c) = a ++ b ++ c := by
  have hla : (wbytes a).length = 10 := by rw [length_wbytes, ha]
  have hlb : (wbytes b).length = 12 := by rw [length_wbytes, hb]
  have hlc : (wbytes c).length = 4 := by rw [length_wbytes, hc]
  have h1 : slice (longRaw a b c) 1 10 = wbytes a := by
    rw [longRaw, slice_blit_apart (.inl (by omega)), slice_blit_apart (.inl (by omega)), ← hla, slice_blit]
  have h2 : slice (longRaw a b c) 14 12 = wbytes b := by
    rw [longRaw, slice_blit_apart (.inl (by omega)), ← hlb, slice_blit]
  have h3 : slice (longRaw a b c) 28 4 = wbytes c := by
    rw [longRaw, ← hlc, slice_blit]
  rw [longName, h1, h2, h3, ← wbytes_append, ← wbytes_append, wchars_wbytes]

def piece (junk : ℕ → Wchar) (name : List Byte) (i : ℕ) : Wchar :=
  if i ≤ name.length then (name.getD i 0).setWidth 16 else junk i

lemma fillLongEntry_eq (junk : ℕ → Wchar) (name : List Byte) :
    ∃ b c, (fillLongEntry junk name).1 = longRaw (slice (piece junk name) 0 5) b c ∧ b.length = 6 ∧ c.length = 2 ∧
      (5 ≤ name.length → b = slice (piece junk name) 5 6) ∧ (11 ≤ name.length → c = slice (piece junk name) 11 2) := by
  have h6 : wbytes (replicate 6 0) = replicate 12 0 := rfl
  have h2 : wbytes (replicate 2 0) = replicate 4 0 := rfl
  have hlow (a : ℕ) (ha : 14 ≤ a) (j : ℕ) : blit (update (fun _ => (0 : Byte)) 11 attrLongNameMask) 1
      (wbytes (slice (piece junk name) 0 5)) (a + j) = 0 := by
    rw [blit_of_ge _ _ _ (by rw [length_wbytes, length_slice]; omega)]
    exact update_of_ne (by omega) ..
  rw [fillLongEntry]
  split_ifs
  · refine ⟨replicate 6 0, replicate 2 0, ?_, rfl, rfl, fun h => by omega, fun h => by omega⟩
    rw [longRaw, h6, h2, blit_zeros fun j _ => hlow 14 (le_refl _) j, blit_zeros fun j _ => hlow 28 (by decide) j]
    rfl
  · refine ⟨_, replicate 2 0, ?_, length_slice _ 5 6, rfl, fun _ => rfl, fun h => by omega⟩
    rw [longRaw, h2, blit_zeros fun j _ => ?_]
    · rfl
    · rw [blit_of_ge _ _ _ (by rw [length_wbytes, length_slice]; omega)]
      exact hlow 28 (by decide) j
  · exact ⟨_, _, rfl, length_slice .., length_slice .., fun _ => rfl, fun _ => rfl⟩
  · exact ⟨_, _, rfl, length_slice .., length_slice .., fun _ => rfl, fun _ => rfl⟩

lemma longName_fillLongEntry (junk : ℕ → Wchar) (name : List Byte) :
    (longName (fillLongEntry junk name).1).length = 13 ∧
      ∀ j < 13, j ≤ name.length → (longName (fillLongEntry junk name).1)[j]? = some (piece junk name j) := by
  obtain ⟨b, c, heq, hb, hc, hb', hc'⟩ := fillLongEntry_eq junk name
  have hget (a n j : ℕ) (hj : j < n) : (slice (piece junk name) a n)[j]? = some (piece junk name (a + j)) := by
    rw [List.getElem?_eq_getElem (by rwa [length_slice]), getElem_slice]
  refine ⟨length_longName, fun j hj hle => ?_⟩
  rw [heq, longName_longRaw (length_slice ..) hb hc, append_assoc]
  by_cases h5 : j < 5
  · rw [List.getElem?_append_left (by rwa [length_slice]), hget 0 5 j h5, zero_add]
  · rw [List.getElem?_append_right (by rw [length_slice]; omega), length_slice]
    by_cases h11 : j < 11
    · rw [List.getElem?_append_left (by omega), hb' (by omega), hget 5 6 _ (by omega), Nat.add_sub_cancel' (by omega)]
    · rw [List.getElem?_append_right (by omega), hb, hc' (by omega), hget 11 2 _ (by omega)]
      congr 2
      omega

lemma piece_of_lt {junk : ℕ → Wchar} {j : ℕ} (h : j < name.length) : some (piece junk name j) = (wide name)[j]? := by
  rw [wide, List.getElem?_map, List.getElem?_eq_getElem h, piece, if_pos (le_of_lt h), getD_eq_getElem?_getD,
    List.getElem?_eq_getElem h]
  rfl

lemma piece_length {junk : ℕ → Wchar} : piece junk name name.length = 0 := by
  rw [piece, if_pos (le_refl _), getD_eq_getElem?_getD, List.getElem?_eq_none (le_refl _)]
  rfl

lemma take_longName {junk : ℕ → Wchar} (hn : n ≤ 13) (hle : n ≤ name.length) :
    (longName (fillLongEntry junk name).1).take n = wide (name.take n) := by
  obtain ⟨hlen, hget⟩ := longName_fillLongEntry junk name
  refine ext_getElem? fun j => ?_
  by_cases hj : j < n
  · rw [List.getElem?_take_of_lt hj, hget j (by omega) (by omega), piece_of_lt (by omega), wide, wide,
      List.getElem?_map,
      List.getElem?_map, List.getElem?_take_of_lt hj]
  · rw [List.getElem?_eq_none (by rw [length_take]; omega),
      List.getElem?_eq_none (by rw [wide, length_map, length_take]; omega)]

lemma prepend_last {junk : ℕ → Wchar} (h : name.length < 13) (h0 : 0 ∉ name) :
    prepend (fillLongEntry junk name).1 fullName = wide name := by
  obtain ⟨hlen, hget⟩ := longName_fillLongEntry junk name
  have hnth := hget name.length h (le_refl _)
  rw [piece_length] at hnth
  obtain ⟨hlt, hnth⟩ := List.getElem?_eq_some_iff.mp hnth
  have htake : (longName (fillLongEntry junk name).1).take name.length = wide (name.take name.length) :=
    take_longName (le_of_lt h) (le_refl name.length)
  rw [take_length] at htake
  rw [prepend, ← take_append_drop name.length (longName _), htake, drop_eq_getElem_cons hlt, hnth,
    append_assoc]
  exact cstr_append_zero (zero_notMem_wide h0)

lemma prepend_full {junk : ℕ → Wchar} (h : 13 ≤ name.length) (h0 : 0 ∉ name) (hfull : 0 ∉ fullName) :
    prepend (fillLongEntry junk name).1 fullName = wide (name.take 13) ++ fullName := by
  have htake : (longName (fillLongEntry junk name).1).take 13 = wide (name.take 13) :=
    take_longName (le_refl 13) h
  rw [take_of_length_le (le_of_eq (longName_fillLongEntry junk name).1)] at htake
  rw [prepend, htake]
  refine cstr_of_notMem fun hc => ?_
  obtain hc | hc := mem_append.mp hc
  · exact zero_notMem_wide (fun hm => h0 (mem_of_mem_take hm)) hc
  · exact hfull hc

lemma ordinal_plain : ∀ i < 46, 1 ≤ i → (if i = 1 then lastLongEntry else BitVec.ofNat 8 i) ≠ 0 ∧
    (if i = 1 then lastLongEntry else BitVec.ofNat 8 i) ≠ invalidEntry ∧
    (if i = 1 then lastLongEntry else BitVec.ofNat 8 i) ≠ 46 := by decide

structure HoldsLong (m : ℕ → Byte) (off : ℕ) (junk : ℕ → Wchar) (name : List Byte) : Prop where
  long : Raw.IsLong (slot m off)
  prepend (fullName : List Wchar) : prepend (slot m off) fullName = Fat.prepend (fillLongEntry junk name).1 fullName

lemma holdsLong (h : slice m off direntSize = longEntry junk i name) (hi : 1 ≤ i) (hi' : i < 46) :
    HoldsLong m off (junk i) name := by
  obtain ⟨b, c, heq, -, -, -, -⟩ := fillLongEntry_eq (junk i) name
  have hslot {o : ℕ} (ho : o < direntSize) : slot m off o =
      update (fillLongEntry (junk i) name).1 0 (if i = 1 then lastLongEntry else BitVec.ofNat 8 i) o := by
    rw [slot, h, longEntry, getD_eq_getElem?_getD, List.getElem?_eq_getElem (by rwa [length_slice]), Option.getD_some,
      getElem_slice, zero_add]
  have hpos {o : ℕ} (ho : o < direntSize) (ho' : o ≠ 0) : slot m off o = (fillLongEntry (junk i) name).1 o := by
    rw [hslot ho, update_of_ne ho']
  have hattr : Raw.attr (slot m off) = attrLongNameMask := by
    rw [Raw.attr, hpos (by decide) (by decide), heq, longRaw_of_lt (length_slice ..) (by decide) (by decide)]
    rfl
  have hfirst : slot m off 0 = if i = 1 then lastLongEntry else BitVec.ofNat 8 i := by
    rw [hslot (by decide), update_self]
  have hord : slot m off 0 ≠ 0 ∧ slot m off 0 ≠ invalidEntry ∧ slot m off 0 ≠ 46 := by
    rw [hfirst]
    exact ordinal_plain i hi' hi
  have hdot (l : List Byte) (hc : Raw.name (slot m off) = 46 :: l) : False := by
    have : slot m off 0 = 46 := (cons.inj hc).1
    exact hord.2.2 this
  have hskip : skipped (slot m off) = false := by
    rw [skipped, decide_eq_false_iff_not]
    rintro (hc | hc | hc | hc)
    · exact hord.1 hc
    · exact hord.2.1 hc
    · exact hdot _ hc
    · exact hdot _ hc
  refine ⟨⟨hskip, hattr⟩, fun fullName => ?_⟩
  have hslice (a n : ℕ) (ha : 0 < a) (hn : a + n ≤ direntSize) :
      slice (slot m off) a n = slice (fillLongEntry (junk i) name).1 a n :=
    slice_congr _ _ _ fun j hj => hpos (by omega) (by omega)
  rw [Fat.prepend, Fat.prepend, longName, longName, hslice 1 10 (by decide) (by decide),
    hslice 14 12 (by decide) (by decide), hslice 28 4 (by decide) (by decide)]

lemma scan_skipped (h : ∀ j < t, skipped (slot m (off + j * direntSize)) = true) :
    scan m (t + n) off fullName = scan m n (off + t * direntSize) fullName := by
  induction t generalizing off with
  | zero => rw [zero_add, zero_mul, add_zero]
  | succ t ih =>
    have h0 := h 0 (succ_pos t)
    rw [zero_mul, add_zero] at h0
    rw [add_right_comm, scan, if_pos h0, ih fun j hj => ?_]
    · rw [succ_mul, add_assoc, add_comm direntSize]
    · have := h (j + 1) (succ_lt_succ hj)
      rwa [succ_mul, add_comm _ direntSize, ← add_assoc] at this

lemma scan_long (h : HoldsLong m off (junk i) name) (hroom : fullName.length + 13 < maxNameLen) :
    scan m (n + 1) off fullName =
      scan m n (off + direntSize) (prepend (fillLongEntry (junk i) name).1 fullName) := by
  rw [scan, if_neg (by rw [h.long.1]; decide), if_pos h.long.2, if_pos hroom, h.prepend]

lemma fillLongEntry_rest (junk : ℕ → Wchar) :
    (fillLongEntry junk name).2 = if name.length < 13 then none else some (name.drop 13) := by
  rw [fillLongEntry]
  split_ifs <;> first | rfl | omega

lemma scan_longEntries (h0 : 0 ∉ name) (hlen : name.length < maxNameLen) (hi : 1 ≤ i) (hik : i + k ≤ 46)
    (hlow : 13 * (k - 1) < name.length + 1) (hhigh : name.length + 1 ≤ 13 * k)
    (hm : slice m off (k * direntSize) = (longEntries junk k i name).flatten) :
    scan m (k + n) off [] = scan m n (off + k * direntSize) (wide name) := by
  induction k generalizing i name n with
  | zero => omega
  | succ k ih =>
    rw [longEntries, fillLongEntry_rest] at hm
    by_cases h13 : name.length < 13
    · obtain rfl : k = 0 := by omega
      rw [if_pos h13, zero_add, one_mul] at hm
      have hheld : HoldsLong m off (junk i) name := holdsLong (by rw [hm]; exact append_nil _) hi (by omega)
      rw [zero_add, add_comm, scan_long hheld (by decide), prepend_last h13 h0, one_mul]
    · have hdrop : (name.drop 13).length = name.length - 13 := length_drop
      have hdrop0 : 0 ∉ name.drop 13 := fun hc => h0 (mem_of_mem_drop hc)
      have hcount : (longEntries junk k (i + 1) (name.drop 13)).length = k := length_longEntries (by omega) (by omega)
      rw [if_neg h13] at hm
      change slice m off ((k + 1) * direntSize) =
        (longEntries junk k (i + 1) (name.drop 13) ++ [longEntry junk i name]).flatten at hm
      rw [flatten_append, flatten_singleton, succ_mul, slice_append] at hm
      obtain ⟨hrest, hlast⟩ := append_inj hm (by rw [length_slice, length_longEntries_flatten, hcount])
      have hheld : HoldsLong m (off + k * direntSize) (junk i) name := holdsLong hlast hi (by omega)
      have hroom : (wide (name.drop 13)).length + 13 < maxNameLen := by
        rw [wide, length_map, hdrop]
        omega
      rw [add_right_comm, add_assoc, ih hdrop0 (by omega) (by omega) (by omega) (by omega) (by omega) hrest,
        scan_long hheld hroom, prepend_full (by omega) h0 (zero_notMem_wide hdrop0), succ_mul, add_assoc]
      rw [wide, wide, ← map_append, take_append_drop, wide]

lemma dark_first (h : slice m off (n * direntSize) = dark n) {j : ℕ} (hj : j < n) :
    m (off + j * direntSize) = invalidEntry := by
  induction n generalizing off j with
  | zero => exact absurd hj (not_lt_zero j)
  | succ n ih =>
    rw [dark_succ, succ_mul, add_comm, slice_append] at h
    obtain ⟨hfirst, hrest⟩ := append_inj h (by rw [length_slice]; rfl)
    cases j with
    | zero =>
      rw [zero_mul, add_zero]
      exact (cons.inj hfirst).1
    | succ j =>
      rw [succ_mul, add_comm (j * direntSize), ← add_assoc]
      exact ih hrest (lt_of_succ_lt_succ hj)

def Vacant (m : ℕ → Byte) (off : ℕ) : Prop := m off = 0 ∨ m off = invalidEntry

lemma Vacant.skipped (h : Vacant m off) : skipped (slot m off) = true := by
  have hz : slot m off 0 = m off := slot_apply (by decide)
  exact decide_eq_true (hz ▸ h.imp_right .inl)

structure ShortRaw (name : List Byte) (raw : ℕ → Byte) : Prop where
  first : raw 0 = name.headD 0
  last : raw 10 = 0
  attr : raw 11 = 0

lemma shortRaw_newFile : ShortRaw name (newFile 0 name).raw := by
  have hraw : (newFile 0 name).raw = update (blit (fun _ => 0) 0 (name.take 10)) 10 0 := rfl
  rw [hraw]
  refine ⟨?_, update_self .., ?_⟩
  · rw [update_of_ne (by decide)]
    cases name with
    | nil => rfl
    | cons b name => rfl
  · rw [update_of_ne (by decide), blit_of_ge _ _ _ (by rw [length_take]; omega)]

lemma ShortRaw.isShort {raw : ℕ → Byte} (h : ShortRaw name raw) (h0 : name.headD 0 ≠ 0)
    (hinv : name.headD 0 ≠ invalidEntry) : Raw.IsShort raw ∧ Raw.isDirectory raw = false := by
  have hname (l : List Byte) (hl : l.getD 10 0 ≠ 0) : Raw.name raw ≠ l := fun hc => by
    rw [← hc] at hl
    exact hl h.last
  refine ⟨⟨?_, ?_⟩, ?_⟩
  · rw [skipped, decide_eq_false_iff_not, h.first]
    rintro (hc | hc | hc | hc)
    · exact h0 hc
    · exact hinv hc
    · exact hname _ (by decide) hc
    · exact hname _ (by decide) hc
  · rw [Raw.attr, h.attr]
    decide
  · rw [Raw.isDirectory, Raw.attr, h.attr]
    decide

end Codec

section ReadBack

variable {f : Super} {ready : ℕ → Prop} {junk : ℕ → ℕ → Wchar} {s : State} {v : View} {own : ℕ → List ℕ} {dir : ℕ}
  {name : List Byte} {a a' : AFile} {start : ℕ} {raw : ℕ → Byte}

structure HoldsName (m : ℕ → Byte) (size next : ℕ) (name : List Byte) (raw : ℕ → Byte) : Prop where
  aligned : next % direntSize = 0
  whole : size % direntSize = 0
  entry : direntSize ≤ next
  raw {o : ℕ} : o < direntSize → slot m (next - direntSize) o = raw o
  reaches : scan m (size / direntSize) 0 [] = scan m ((size - next) / direntSize + 1) (next - direntSize) (wide name)
  after (fullName : List Wchar) : scan m ((size - next) / direntSize) next fullName = .stop

section

variable {m : ℕ → Byte} {size next : ℕ} (h : HoldsName m size next name raw)
include h

lemma HoldsName.found (hs : Raw.IsShort (slot m (next - direntSize))) :
    scan m (size / direntSize) 0 [] = .found (next - direntSize) (wide name) := by
  rw [h.reaches, scan, if_neg (by rw [hs.1]; decide), if_neg hs.2]

lemma HoldsName.missed (hs : skipped (slot m (next - direntSize)) = true) :
    scan m (size / direntSize) 0 [] = .stop := by
  rw [h.reaches, scan, if_pos hs, Nat.sub_add_cancel h.entry, h.after]

end

lemma AFile.Stores.holdsName (hst : a.Stores start
      (dark (getEntryCountByName name) ++ nameEntries junk name ++ slice raw 0 direntSize) a')
    (hfirst : start % direntSize = 0) (hle : start ≤ a.size) (hwhole : a.size % direntSize = 0)
    (hvac : ∀ o, o % direntSize = 0 → o + direntSize ≤ a.size → Vacant a.bytes o) (h0 : 0 ∉ name)
    (hlen : name.length < maxNameLen) :
    HoldsName a'.bytes a'.size (start + 2 * getEntryCountByName name * direntSize) name raw := by
  have hd : direntSize = 32 := rfl
  obtain ⟨h2, hlow, hhigh⟩ := getEntryCountByName_eq name
  obtain ⟨hsize, hstored, hkeeps⟩ := hst
  have hlong : (nameEntries junk name).length = (getEntryCountByName name - 1) * direntSize := length_nameEntries
  rw [length_append, length_append, length_dark, hlong, length_slice] at hsize hstored hkeeps
  rw [nameEntries] at hstored hlong
  generalize getEntryCountByName name = cnt at *
  obtain ⟨c, rfl⟩ : ∃ c, cnt = c + 1 := ⟨cnt - 1, by omega⟩
  rw [Nat.add_sub_cancel] at hsize hstored hkeeps hlong hhigh
  rw [slice_append, slice_append] at hstored
  obtain ⟨hstored, hshort⟩ := append_inj hstored (by
    rw [length_append, length_append, length_slice, length_slice, length_dark, hlong])
  obtain ⟨hdark, hentries⟩ := append_inj hstored (by rw [length_slice, length_dark])
  have hnext : start + ((c + 1) * direntSize + c * direntSize) = start + 2 * (c + 1) * direntSize - direntSize := by
    rw [hd]
    omega
  rw [hnext] at hshort
  have hvac' (o : ℕ) (hm : o % direntSize = 0) (ho : o + direntSize ≤ a.size)
      (hout : o < start ∨ start + 2 * (c + 1) * direntSize ≤ o) : Vacant a'.bytes o := by
    rw [Vacant, hkeeps (by rw [hd] at ho; omega) (by rw [hd] at hout ⊢; omega)]
    exact hvac o hm ho
  rw [hd] at hsize hfirst hwhole hvac'
  refine ⟨by rw [hd]; omega, by rw [hd]; omega, by rw [hd]; omega, fun {o} ho => ?_, ?_, fun fullName => ?_⟩
  · rw [slot, hshort, getD_eq_getElem?_getD, List.getElem?_eq_getElem (by rwa [length_slice]), Option.getD_some,
      getElem_slice, zero_add]
  · have hrest : a'.size / direntSize =
        start / 32 + (c + 1 + (c + ((a'.size - (start + 2 * (c + 1) * direntSize)) / direntSize + 1))) := by
      rw [hd]
      omega
    have hstart : 0 + start / 32 * direntSize = start := by
      rw [hd]
      omega
    have hend : start + (c + 1) * direntSize + c * direntSize = start + 2 * (c + 1) * direntSize - direntSize := by
      rw [← hnext, add_assoc]
    rw [hrest, scan_skipped fun j hj => ?_, hstart, scan_skipped fun j hj => ?_,
      scan_longEntries h0 hlen (le_refl 1) (by rw [maxNameLen] at hlen; omega) (by omega) hhigh hentries, hend]
    · exact Vacant.skipped (.inr (dark_first hdark hj))
    · refine (hvac' _ ?_ ?_ (.inl ?_)).skipped <;> rw [hd] <;> omega
  · obtain ⟨rest, hrest⟩ : ∃ rest, rest = (a'.size - (start + 2 * (c + 1) * direntSize)) / direntSize := ⟨_, rfl⟩
    rw [← hrest, ← add_zero rest, scan_skipped fun j hj => ?_]
    · rfl
    · rw [hd] at hrest
      refine (hvac' _ ?_ ?_ (.inr ?_)).skipped <;> rw [hd] <;> omega

lemma FirstFree.aligned {m : ℕ → Byte} {size cnt : ℕ} (h : FirstFree m size cnt start) (hs : size % direntSize = 0) :
    start % direntSize = 0 := by
  obtain ⟨h, -⟩ | ⟨rfl, -⟩ := h
  · exact h.slot
  · exact hs

lemma wp_newDirent_file {k off : ℕ} {fullName : List Wchar} (hraw : Raw.isDirectory raw = false)
    (hfree : ∀ j ∈ s.freeList, j ≠ dir) :
    wp (newDirent f k dir off raw fullName)
      (fun file s' => (s'.dirents file).name = tmpName raw fullName ∧ s'.disk = s.disk ∧
        s'.dirents dir = s.dirents dir) (· = .noDirent) s := by
  rw [newDirent, wp_bind, wp_direntAlloc]
  refine ⟨fun i rest hi => ?_, fun _ => rfl⟩
  have hne : dir ≠ i := (hfree i (hi ▸ mem_cons_self)).symm
  rw [wp_bind, wp_modifyDirent, if_neg (by rw [hraw]; decide), wp_pure, dirents_update_self, update_eq_filed,
    dirents_filed_ne _ hne]
  exact ⟨rfl, rfl, update_of_ne hne ..⟩

theorem createItem_read_back (hf : Consistent f) (h : AtDir f ready s v own dir)
    (hvac : ∀ o, o % direntSize = 0 → o + direntSize ≤ (s.dirents dir).fileSize → Vacant (content f v (own dir)) o)
    (hsize : (s.dirents dir).fileSize + 2 * getEntryCountByName name * direntSize + f.clusSize ≤ 2 ^ 32)
    (hpos : name ≠ []) (hlen : name.length ≤ 127) (h0 : 0 ∉ name) :
    wp (createItem f junk dir name false)
      (fun _ s' => ∀ k, wp (dirGetDentFrom f k dir 0)
        (fun r s'' => ∃ file next, r = some (file, next) ∧ (s''.dirents file).name = name ∧
          wp (dirGetDentFrom f k dir next) (fun r' _ => r' = none) (fun _ => False) s'')
        (· = .noDirent) s' ↔ name.head? ≠ some invalidEntry) Lacks s := by
  refine wp_mono (wp_createItem hf h hsize) fun i s' h' k => ?_
  obtain ⟨v', own', start, h'⟩ := h'
  have hheld := h'.stores.holdsName (h'.first.aligned h.whole) h'.first.le h.whole hvac h0
    (lt_of_le_of_lt hlen (by decide))
  have hopen : Opened f s' v' dir (own' dir) := h'.inv.opened (.inl h.opened)
  rw [size_files] at hheld
  change HoldsName (content f v' (own' dir)) _ _ _ _ at hheld
  generalize start + 2 * getEntryCountByName name * direntSize = next at hheld
  have hshort : ShortRaw name (slot (content f v' (own' dir)) (next - direntSize)) := by
    have hnew : ShortRaw name (newFile 0 name).raw := shortRaw_newFile
    have hraw {o : ℕ} (ho : o < 12) : slot (content f v' (own' dir)) (next - direntSize) o =
      (newFile 0 name).raw o := by
      rw [hheld.raw (lt_trans ho (by decide)), h'.raw (by rw [Written]; omega)]
      rfl
    exact ⟨(hraw (by decide)).trans hnew.first, (hraw (by decide)).trans hnew.last, (hraw (by decide)).trans hnew.attr⟩
  obtain ⟨b, l, rfl⟩ := exists_cons_of_ne_nil hpos
  refine ⟨fun hw hfirst => ?_, fun hfirst => ?_⟩
  · have hskip : skipped (slot (content f v' (own' dir)) (next - direntSize)) = true :=
      decide_eq_true (.inr (.inl (hshort.first.trans (Option.some.inj hfirst))))
    have hnone : wp (dirGetDentFrom f k dir 0) (fun r _ => r = none) (fun _ => False) s' := by
      refine wp_dirGetDentFrom_scan hf hopen hheld.whole rfl ?_
      rw [Nat.sub_zero, hheld.missed hskip]
      rfl
    obtain ⟨r, s'', hr, rfl⟩ := wp_total hnone
    obtain ⟨_, _, hsome, -⟩ := wp_of_ok hw hr
    cases hsome
  obtain ⟨hs, hdirec⟩ := hshort.isShort (fun hc => h0 (hc ▸ mem_cons_self)) fun hc => hfirst (congrArg some hc)
  have hname : tmpName (slot (content f v' (own' dir)) (next - direntSize)) (wide (b :: l)) = b :: l := by
    rw [tmpName, if_pos (by simp [wide]), narrow_wide, cstr_of_notMem h0]
  refine wp_dirGetDentFrom_scan hf hopen hheld.whole rfl ?_
  rw [Nat.sub_zero, hheld.found hs]
  refine wp_mono (wp_newDirent_file hdirec fun j hj => h.spare.ne (h'.free hj)) fun file s'' hnew => ?_
  obtain ⟨hnm, hdisk, hdir⟩ := hnew
  refine ⟨file, next, by rw [Nat.sub_add_cancel hheld.entry], hnm.trans hname, ?_⟩
  have hopen' : Opened f s'' v' dir (own' dir) := by
    refine ⟨hdisk ▸ hopen.shows, ?_, ?_, hopen.small⟩
    · rw [hdir]
      exact hopen.owns
    · rw [hdir]
      exact hopen.mirror
  refine wp_dirGetDentFrom_scan hf hopen' (by rw [hdir]; exact hheld.whole) hheld.aligned ?_
  rw [hdir, hheld.after]
  rfl

end ReadBack

section Desk

lemma atDir_desk : AtDir smallSuper (· = 0) desk ⟨fun _ => 0, fun _ _ => 0⟩ (fun _ => []) 0 := by
  have hfree {i : ℕ} (hi : i ∈ desk.freeList) : i ≠ 0 := fun hc => absurd (hc ▸ hi) (by decide)
  have hroot {i : ℕ} (hc : Above desk.par 0 i) : False := by
    obtain ⟨p, hp, -⟩ := Relation.TransGen.head'_iff.mp hc
    cases hp
  exact ⟨files_desk, .intro nofun, rfl, ⟨fun _ _ => rfl, hfree, fun _ => hroot⟩, fun i hi => hfree hi, rfl⟩

theorem createItem_leaves_reserved :
    (∃ i s', (dirAllocEntry smallSuper 0 1).run desk = .ok (i, s') ∧ (s'.dirents 0).fileSize = 32 ∧
      (s'.dirents i).parentDirOff = 32) ∧
    ∃ i s', (createItem smallSuper (fun _ _ => 0) 0 [65] false).run desk = .ok (i, s') ∧
      getEntryCountByName [65] = 2 ∧ (s'.dirents 0).fileSize = 128 := by
  have h₁ : returns (dirAllocEntry smallSuper 0 1) desk (fun i s' =>
      (s'.dirents 0).fileSize = 32 ∧ (s'.dirents i).parentDirOff = 32) = true := by decide +kernel
  have h₂ : returns (createItem smallSuper (fun _ _ => 0) 0 [65] false) desk
      (fun _ s' => (s'.dirents 0).fileSize = 128) = true := by decide +kernel
  obtain ⟨i, s₁, hs₁, h₁⟩ := exists_of_returns h₁
  obtain ⟨j, s₂, hs₂, h₂⟩ := exists_of_returns h₂
  obtain ⟨hsize, hoff⟩ := of_decide_eq_true h₁
  exact ⟨⟨i, s₁, hs₁, hsize, hoff⟩, j, s₂, hs₂, rfl, of_decide_eq_true h₂⟩

theorem createItem_stores_behind_desk : AtDir smallSuper (· = 0) desk ⟨fun _ => 0, fun _ _ => 0⟩ (fun _ => []) 0 ∧
    ∃ i s' v' own' start entries, (createItem smallSuper (fun _ _ => 0) 0 [65] false).run desk = .ok (i, s') ∧
      entries.length = 64 ∧ (s'.dirents i).parentDirOff = start + 96 ∧
      (files smallSuper desk ⟨fun _ => 0, fun _ _ => 0⟩ (fun _ => []) 0).Stores start (dark 2 ++ entries)
        (files smallSuper s' v' own' 0) := by
  have heval : returns (createItem smallSuper (fun _ _ => 0) 0 [65] false) desk (fun _ _ => true) = true := by
    decide +kernel
  obtain ⟨i, s', hs', -⟩ := exists_of_returns heval
  obtain ⟨v', own', start, entries, -, hlen, hst, hoff, -⟩ :=
    wp_of_ok ((createItem_stores_behind consistent_smallSuper atDir_desk).2 (fun _ _ => 0) [65] false (by decide)) hs'
  exact ⟨atDir_desk, i, s', v', own', start, entries, hs', hlen, hoff, hst⟩

def longText : List Byte := replicate 17 65 ++ [66]

theorem createItem_read_back_long :
    ∃ i s', (createItem smallSuper (fun _ _ => 7) 0 longText false).run desk = .ok (i, s') ∧
      wp (dirGetDentFrom smallSuper 0 0 0)
        (fun r s'' => ∃ file next, r = some (file, next) ∧ (s''.dirents file).name = longText ∧
          wp (dirGetDentFrom smallSuper 0 0 next) (fun r' _ => r' = none) (fun _ => False) s'')
        (· = .noDirent) s' := by
  have heval : returns (createItem smallSuper (fun _ _ => 7) 0 longText false) desk (fun _ _ => true) = true := by
    decide +kernel
  obtain ⟨i, s', hs', -⟩ := exists_of_returns heval
  have hvac (o : ℕ) (_ : o % direntSize = 0) (ho : o + direntSize ≤ (desk.dirents 0).fileSize) :
      Vacant (content smallSuper ⟨fun _ => 0, fun _ _ => 0⟩ []) o := by
    change o + 32 ≤ 0 at ho
    omega
  have hroom : (desk.dirents 0).fileSize + 2 * getEntryCountByName longText * direntSize + smallSuper.clusSize ≤
    2 ^ 32 := by decide
  exact ⟨i, s', hs', wp_of_ok (createItem_read_back consistent_smallSuper atDir_desk hvac hroom (by decide) (by decide)
    (by decide)) hs' 0 |>.mpr (by decide)⟩

theorem createItem_not_read_back :
    ∃ i s' s'', (createItem smallSuper (fun _ _ => 0) 0 [0xe5, 65] false).run desk = .ok (i, s') ∧
      (dirGetDentFrom smallSuper 0 0 0).run s' = .ok (none, s'') := by
  have heval : returns (createItem smallSuper (fun _ _ => 0) 0 [0xe5, 65] false) desk (fun _ s' =>
      returns (dirGetDentFrom smallSuper 0 0 0) s' fun r _ => r = none) = true := by decide +kernel
  obtain ⟨i, s', hs', h'⟩ := exists_of_returns heval
  obtain ⟨r, s'', hs'', hr⟩ := exists_of_returns h'
  exact ⟨i, s', s'', hs', of_decide_eq_true hr ▸ hs''⟩

end Desk

end FarmOS.Fat

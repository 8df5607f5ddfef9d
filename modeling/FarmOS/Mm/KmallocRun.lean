import FarmOS.Mm.KmallocHeap

/-! Every history of `kmalloc` and `kfree` calls keeps the heap partitioned into live and free blocks. -/

namespace FarmOS.Kmalloc

open Lib Function List Nat

variable {cfg n a b i j x k size : ℕ} {h h' : Heap} {cs : List ℕ} {F : ℕ → List ℕ} {live : List (ℕ × ℕ)} {s : Sys}
  {E : Panic → Prop}

def largest : ℕ := 33 * pageSize - headerSize

lemma Laid.findClass (hl : Laid cfg classCount h cs F live) (hf : findClass h.accualSize size = some i) :
    i < classCount ∧ size ≤ classSize i - headerSize := by
  have hlt := mem_range.mp (mem_of_find?_eq_some hf)
  have hle : size ≤ h.accualSize i := by simpa using find?_some hf
  rw [hl.accual i hlt] at hle
  exact ⟨hlt, hle⟩

lemma classOf_headAddr (hi : i < classCount) : classOf cfg (headAddr cfg i) = some i := by
  refine find?_range_eq_some.mpr ⟨beq_self_eq_true _, mem_range.mpr hi, fun j hj => ?_⟩
  rw [Bool.not_eq_true', beq_eq_false_iff_ne]
  unfold headAddr
  omega

lemma Inv.kmalloc (hv : Inv cfg h cs F live) (size : ℕ) :
    wp (kmalloc cfg size) (fun p h' => ∃ a i cs' F', findClass h.accualSize size = some i ∧ p = a + headerSize ∧
        size ≤ classSize i - headerSize ∧ Inv cfg h' cs' F' ((a, i) :: live) ∧
        ∀ x, p ≤ x → x < p + (classSize i - headerSize) → h'.mem x = 0)
      (fun e => Exhausted h e ∨ e = .tooLarge ∧ largest < size) h := by
  rw [Kmalloc.kmalloc, wp_bind, wp_get]
  split
  · next hf =>
    have hnot := find?_eq_none.mp hf 16 (mem_range.mpr (by decide))
    rw [hv.laid.accual 16 (by decide), decide_eq_true_eq, not_le] at hnot
    exact wp_throw.mpr (.inr ⟨rfl, hnot⟩)
  · next i hf =>
    obtain ⟨hi, hsize⟩ := hv.laid.findClass hf
    have hchain := (hv.laid.chain i hi).eq_nil_iff
    rw [wp_ite]
    refine ⟨fun _ => ?_, fun hne => ?_⟩
    · rw [wp_bind]
      refine wp_mono (wp_mono_error (hv.extendHeap hi) fun _ he => .inl he) fun _ h1 ⟨_, cs', F1, hv1, hF⟩ => ?_
      exact wp_mono (hv1.takeBlock hi hF) fun p h2 ⟨a, F2, hp, hv2, _, hzero⟩ =>
        ⟨a, i, cs', F2, hf, hp, hsize, hv2, hzero⟩
    · exact wp_mono (hv.takeBlock hi fun hn => hne (hchain.mp hn)) fun p h2 ⟨a, F2, hp, hv2, _, hzero⟩ =>
        ⟨a, i, cs, F2, hf, hp, hsize, hv2, hzero⟩

lemma used_erase (ha : (a, i) ∈ live) : used live = classSize i + used (live.erase (a, i)) :=
  ((perm_cons_erase ha).map fun x : ℕ × ℕ => classSize x.2).sum_eq

lemma Inv.kfree (hv : Inv cfg h cs F live) (ha : (a, i) ∈ live) :
    wp (kfree cfg (a + headerSize)) (fun _ h' => ∃ F', Inv cfg h' cs F' (live.erase (a, i))) E h := by
  have hblock := hv.laid.live_block _ ha
  have hi := hv.laid.lt hblock
  have hsz := hv.laid.size hblock
  have hmap : ∀ k < headerSize, h.mapped ((a + k) / pageSize) = true := fun k hk => by
    unfold headerSize at hk
    exact hv.laid.mapped_block hblock (by omega) (by omega)
  rw [Kmalloc.kfree, Nat.add_sub_cancel, wp_bind]
  refine wp_load (hmap 8 (by decide)) ?_
  rw [(hv.laid.header a i hblock).1, classOf_headAddr hi]
  simp only [listInsertHead, wp_bind, wp_get]
  refine wp_store (hmap 0 (by decide)) (wp_modify.mpr (wp_modify.mpr ⟨_, (hv.laid.release ha).congr rfl rfl rfl rfl,
    hv.top, hv.page, hv.small, ?_⟩))
  have hlt := hv.used_lt
  have hused := used_erase ha
  simp only [hv.alloced]
  omega

lemma Laid.next (hl : Laid cfg n h cs F live) (hn : n < classCount) : Laid cfg (n + 1) { h with
        accualSize := update h.accualSize n (classSize n - headerSize)
        head := update h.head n 0 } cs (update F n []) live := by
  have hcases : ∀ {j}, j < n + 1 → j = n ∨ j ≠ n ∧ j < n := fun {j} hj => by omega
  refine ⟨hn, fun j hj => lt_succ_of_lt (hl.classes j hj), hl.mapped, fun j hj => ?_, hl.header, fun j hj => ?_,
    fun j hj => ?_, fun b j hj hb => ?_, hl.live_nodup, hl.live_block, fun b j hb => ?_⟩
  · rcases hcases hj with rfl | ⟨hne, hlt⟩
    · simp only [update_self]
    · simp only [update_of_ne hne]
      exact hl.accual j hlt
  · rcases hcases hj with rfl | ⟨hne, hlt⟩
    · simp only [update_self]
      exact rfl
    · simp only [update_of_ne hne]
      exact hl.chain j hlt
  · rcases hcases hj with rfl | ⟨hne, hlt⟩
    · rw [update_self]
      exact nodup_nil
    · rw [update_of_ne hne]
      exact hl.free_nodup j hlt
  · rcases hcases hj with rfl | ⟨hne, hlt⟩
    · rw [update_self] at hb
      cases hb
    · rw [update_of_ne hne] at hb
      exact hl.free_block b j hlt hb
  · rw [update_of_ne (Nat.ne_of_lt (hl.lt hb))]
    exact hl.part b j hb

def pagesBefore (i : ℕ) : ℕ := ((range i).map classPages).sum

lemma pagesBefore_succ (i : ℕ) : pagesBefore (i + 1) = pagesBefore i + classPages i := by
  simp [pagesBefore, range_succ]

lemma initial_pages : ∀ i < classCount, pagesBefore i + classPages i ≤ 320 ∧
    (classPages i * 4096 + classSize i - 1) / classSize i * classSize i = classPages i * 4096 := by decide

structure Starting (cfg i : ℕ) (h : Heap) (cs : List ℕ) (F : ℕ → List ℕ) : Prop where
  laid : Laid cfg i h cs F []
  top : h.heapTop = endOf cs
  filled : total classSize cs = pagesBefore i * pageSize
  npage : h.npage = classPages
  mapped (x : ℕ) : kernelMalloc ≤ x → x < kernelMalloc + 320 * pageSize → h.mapped (x / pageSize) = true
  alloced : h.allocedSize = 0

lemma Starting.initClass (hs : Starting cfg i h cs F) (hi : i < classCount) :
    wp (initClass cfg i) (fun r h' => r = 0 ∧ ∃ cs' F', Starting cfg (i + 1) h' cs' F') E h := by
  obtain ⟨hpages, hcount⟩ := initial_pages i hi
  simp only [Kmalloc.initClass, wp_bind, wp_modify, wp_get]
  have hl := hs.laid.next hi
  have hfilled := hs.filled
  rw [show h.npage i = classPages i from congrFun hs.npage i, addBlocks]
  obtain ⟨m, hm⟩ : ∃ m, (classPages i * 4096 + classSize i - 1) / classSize i = m := ⟨_, rfl⟩
  rw [hm] at hcount
  rw [show (classPages i * pageSize + classSize i - 1) / classSize i = m from hm]
  refine wp_mono (hl.addBlocks (lt_succ_self i) hs.top fun x hx hlt => hs.mapped x ?_ ?_) ?_
  · exact Nat.le_trans (Nat.le_add_right ..) hx
  · unfold pageSize at hfilled ⊢
    unfold endOf at hx hlt
    omega
  rintro _ h1 ⟨_, hsame, F', hl1, _⟩
  refine wp_pure.mpr ⟨rfl, _, F', hl1.congr rfl rfl rfl rfl, ?_, ?_, ?_, ?_, ?_⟩
  · simp only [hsame.top, hsame.npage, hs.top, hs.npage]
    rw [endOf, endOf, total_append, show total classSize (replicate m i) = m * classSize i by simp [total],
      hcount, add_assoc]
    rfl
  · rw [total_append, show total classSize (replicate m i) = m * classSize i by simp [total], hcount, hfilled,
      pagesBefore_succ, Nat.add_mul]
    rfl
  · exact hsame.npage.trans hs.npage
  · intro x hx hlt
    simp only [hsame.mapped]
    exact hs.mapped x hx hlt
  · exact hsame.alloced.trans hs.alloced

lemma wp_kmallocInit {mem : ℕ → ℕ} {mapped : ℕ → Bool} {tabled : ℕ × ℕ → Bool} {freePages : ℕ} :
    wp (kmallocInit cfg) (fun _ h => ∃ cs F, Inv cfg h cs F [])
      (fun e => e = .noFreePage ∧ freePages < 960) (start mem mapped tabled freePages) := by
  simp only [kmallocInit, wp_bind, wp_get]
  have htotal : ((range classCount).map (start mem mapped tabled freePages).npage).sum = 320 :=
    show ((range classCount).map classPages).sum = 320 by decide
  rw [htotal]
  refine wp_mono (wp_kpagesAlloc (show kernelMalloc % pageSize = 0 by decide) 320 fun hlt => ⟨rfl, hlt⟩) ?_
  rintro _ h1 ⟨_, hp⟩
  have hstart : Starting cfg 0 h1 [] (fun _ => []) := by
    refine ⟨⟨zero_le _, by simp, fun x hx hlt => ?_, by simp, fun _ _ h => absurd h not_mem_nil, by simp,
      by simp, by simp,
      nodup_nil, by simp, fun _ _ h => absurd h not_mem_nil⟩, hp.top, (Nat.zero_mul _).symm, hp.npage,
        hp.new, hp.alloced⟩
    exact absurd hlt (Nat.not_lt.mpr hx)
  refine wp_mono (wp_loop_zero (I := fun i h => ∃ cs F, Starting cfg i h cs F) classCount ⟨[], _, hstart⟩ ?_) ?_
  · rintro i h2 hi ⟨cs, F, hs⟩
    exact hs.initClass hi
  rintro _ h3 ⟨_, cs, F, hs⟩
  refine wp_pure.mpr ⟨cs, F, hs.laid, hs.top, ?_, ?_, ?_⟩
  · rw [endOf, hs.filled]
    decide
  · rw [hs.filled]
    decide
  · exact hs.alloced

def Grant.block (g : Grant) : ℕ × ℕ := (g.ptr - headerSize, g.cls)

structure Held (cfg : ℕ) (s : Sys) (cs : List ℕ) (F : ℕ → List ℕ) : Prop where
  inv : Inv cfg s.heap cs F (s.live.map Grant.block)
  ptr (g : Grant) : g ∈ s.live → headerSize ≤ g.ptr
  room (g : Grant) : g ∈ s.live → g.size ≤ g.capacity

lemma map_erase_of_nodup {α β : Type*} [BEq α] [LawfulBEq α] [BEq β] [LawfulBEq β] {f : α → β} {l : List α} {y : α}
    (hn : (l.map f).Nodup) (hy : y ∈ l) : (l.erase y).map f = (l.map f).erase (f y) := by
  induction l with
  | nil => cases hy
  | cons z l ih =>
    rw [map_cons, nodup_cons] at hn
    by_cases hz : z = y
    · subst hz
      rw [erase_cons_head, map_cons, erase_cons_head]
    · have hy' := (mem_cons.mp hy).resolve_left (Ne.symm hz)
      have hf : f z ≠ f y := fun he => hn.1 (he ▸ mem_map_of_mem hy')
      rw [erase_cons_tail (by simpa using hz), map_cons, map_cons,
        erase_cons_tail (by simpa using hf), ih hn.2 hy']

lemma Held.step {s s' : Sys} {op : Op} (hs : Held cfg s cs F) (h : op.Step cfg s s') :
    ∃ cs' F', Held cfg s' cs' F' := by
  cases h with
  | @kmalloc size p i h hrun hf =>
    obtain ⟨a, j, cs', F', hf', rfl, hsize, hv, -⟩ := wp_of_ok (hs.inv.kmalloc size) hrun
    obtain rfl : i = j := Option.some.inj (hf.symm.trans hf')
    refine ⟨cs', F', ?_, fun g hg => ?_, fun g hg => ?_⟩
    · rw [map_cons, Grant.block, Nat.add_sub_cancel]
      exact hv
    · rcases mem_cons.mp hg with rfl | hg
      · exact Nat.le_add_left ..
      · exact hs.ptr g hg
    · rcases mem_cons.mp hg with rfl | hg
      · exact hsize
      · exact hs.room g hg
  | @kfree g h hg hrun =>
    have hb := mem_map_of_mem (f := Grant.block) hg
    have hfree := hs.inv.kfree (E := fun _ => True) hb
    rw [Nat.sub_add_cancel (hs.ptr g hg)] at hfree
    obtain ⟨F', hv⟩ := wp_of_ok hfree hrun
    refine ⟨cs, F', ?_, fun g hg => hs.ptr g (mem_of_mem_erase hg), fun g hg => hs.room g (mem_of_mem_erase hg)⟩
    rw [map_erase_of_nodup hs.inv.laid.live_nodup hg]
    exact hv
  | @write g a w hg hle hlt _ =>
    have hb := hs.inv.laid.live_block _ (mem_map_of_mem (f := Grant.block) hg)
    have hptr := hs.ptr g hg
    have hsz := hs.inv.laid.size hb
    refine ⟨cs, F, ⟨hs.inv.laid.scribble hb (fun x hx => update_of_ne (fun he => hx ?_) ..) rfl rfl rfl,
      hs.inv.top, hs.inv.page, hs.inv.small, hs.inv.alloced⟩, hs.ptr, hs.room⟩
    subst he
    unfold Grant.capacity at hlt
    unfold headerSize at hlt hptr hsz ⊢
    omega
  | pages => exact ⟨cs, F, ⟨hs.inv.laid.congr rfl rfl rfl rfl, hs.inv.top, hs.inv.page, hs.inv.small, hs.inv.alloced⟩,
      hs.ptr, hs.room⟩

structure Sound (cfg : ℕ) (s : Sys) (cs : List ℕ) (F : ℕ → List ℕ) : Prop where
  top : s.heap.heapTop = kernelMalloc + total classSize cs
  mapped (x : ℕ) : kernelMalloc ≤ x → x < s.heap.heapTop → s.heap.mapped (x / pageSize) = true
  inside (g : Grant) : g ∈ s.live → kernelMalloc ≤ g.ptr ∧ g.ptr + g.capacity ≤ s.heap.heapTop
  enough (g : Grant) : g ∈ s.live → g.size ≤ g.capacity
  apart : s.live.Pairwise fun g g' => g.ptr + g.capacity ≤ g'.ptr ∨ g'.ptr + g'.capacity ≤ g.ptr
  headers (g : Grant) (a i : ℕ) : g ∈ s.live → (a, i) ∈ blocks cs → a + headerSize ≤ g.ptr ∨ g.ptr + g.capacity ≤ a
  chain (i : ℕ) : i < classCount → Chain s.heap.mem (· = 0) (s.heap.head i) (F i)
  live_block (g : Grant) : g ∈ s.live → g.block ∈ blocks cs
  free_block (a i : ℕ) : i < classCount → a ∈ F i → (a, i) ∈ blocks cs
  once (a i : ℕ) : (a, i) ∈ blocks cs →
    (s.live.map Grant.block).count (a, i) + ∑ j ∈ Finset.range classCount, (F j).count a = 1
  alloced : s.heap.allocedSize = (s.live.map fun g => classSize g.cls).sum

lemma Laid.count_free (hl : Laid cfg classCount h cs F live) (ha : (a, i) ∈ blocks cs) :
    live.count (a, i) + ∑ j ∈ Finset.range classCount, (F j).count a = 1 := by
  have hi := hl.lt ha
  have hothers : ∀ j ∈ Finset.range classCount, j ≠ i → (F j).count a = 0 := fun j hj hne =>
    count_eq_zero.mpr fun hm => hne (hl.cls (hl.free_block a j (Finset.mem_range.mp hj) hm) ha)
  rw [Finset.sum_eq_single_of_mem i (Finset.mem_range.mpr hi) hothers, (hl.free_nodup i hi).count, hl.live_nodup.count]
  by_cases hm : (a, i) ∈ live
  · rw [if_pos hm, if_neg fun hf => (hl.part a i ha).mp hf hm]
  · rw [if_neg hm, if_pos ((hl.part a i ha).mpr hm)]

lemma Held.sound (hs : Held cfg s cs F) : Sound cfg s cs F := by
  have hl := hs.inv.laid
  have hblock : ∀ g ∈ s.live, (g.ptr - headerSize, g.cls) ∈ blocks cs := fun g hg =>
    hl.live_block _ (mem_map_of_mem (f := Grant.block) hg)
  refine ⟨hs.inv.top, hs.inv.top ▸ hl.mapped, fun g hg => ?_, hs.room, ?_, fun g a i hg ha => ?_, hl.chain, hblock,
    hl.free_block, fun a i ha => hl.count_free ha, ?_⟩
  · have h1 := bounds (hblock g hg)
    have h2 := hs.ptr g hg
    have h3 := hl.size (hblock g hg)
    rw [hs.inv.top]
    unfold Grant.capacity
    unfold headerSize at *
    omega
  · refine (pairwise_map.mp hl.live_nodup).imp_of_mem fun {g g'} hg hg' hne => ?_
    have h1 := apart (hblock g hg) (hblock g' hg') hne
    have h2 := hs.ptr g hg
    have h3 := hs.ptr g' hg'
    have h4 := hl.size (hblock g hg)
    have h5 := hl.size (hblock g' hg')
    unfold Grant.capacity
    unfold headerSize at *
    omega
  · have h2 := hs.ptr g hg
    have h3 := hl.size (hblock g hg)
    have h4 := hl.size ha
    unfold Grant.capacity
    by_cases he : (g.ptr - headerSize, g.cls) = (a, i)
    · have := (Prod.mk.inj he).1
      unfold headerSize at *
      omega
    · have h1 := apart (hblock g hg) ha he
      unfold headerSize at *
      omega
  · rw [hs.inv.alloced, used, map_map]
    rfl

structure Serves (cfg : ℕ) (s : Sys) : Prop where
  kmalloc (size : ℕ) : wp (kmalloc cfg size)
    (fun p h => ∃ i, findClass s.heap.accualSize size = some i ∧ size ≤ classSize i - headerSize ∧
      ∀ x, p ≤ x → x < p + (classSize i - headerSize) → h.mem x = 0)
    (fun e => Exhausted s.heap e ∨ e = .tooLarge ∧ largest < size) s.heap
  kfree (g : Grant) : g ∈ s.live → wp (kfree cfg g.ptr) (fun _ _ => True) (fun _ => False) s.heap

lemma Held.serves (hs : Held cfg s cs F) : Serves cfg s := by
  refine ⟨fun size => wp_mono (hs.inv.kmalloc size) fun p h ⟨a, i, _, _, hf, _, hsize, _, hzero⟩ =>
    ⟨i, hf, hsize, hzero⟩, fun g hg => ?_⟩
  have hfree := hs.inv.kfree (E := fun _ => False) (mem_map_of_mem (f := Grant.block) hg)
  rw [Nat.sub_add_cancel (hs.ptr g hg)] at hfree
  exact wp_mono hfree fun _ _ _ => trivial

theorem kmalloc_heap_partitioned (cfg : ℕ) (mem : ℕ → ℕ) (mapped : ℕ → Bool) (tabled : ℕ × ℕ → Bool) (freePages : ℕ) :
    wp (kmallocInit cfg) (fun _ h => ∀ ops s, Run (fun s op s' => Op.Step cfg s op s') ⟨h, []⟩ ops s →
        (∃ cs F, Sound cfg s cs F) ∧ Serves cfg s)
      (fun e => e = .noFreePage ∧ freePages < 960) (start mem mapped tabled freePages) := by
  refine wp_mono wp_kmallocInit fun _ h ⟨cs, F, hv⟩ ops s hr => ?_
  obtain ⟨cs', F', hs⟩ : ∃ cs' F', Held cfg s cs' F' :=
    hr.invariant (P := fun s => ∃ cs' F', Held cfg s cs' F') ⟨cs, F, hv, nofun, nofun⟩
      fun _ _ _ ⟨_, _, hs⟩ he => hs.step he
  exact ⟨⟨cs', F', hs.sound⟩, hs.serves⟩

end FarmOS.Kmalloc

import FarmOS.Lib.Chain
import FarmOS.Lib.Run
import FarmOS.Lib.Tile
import FarmOS.Mm.Kmalloc

/-! The kernel heap is cut into blocks, and each of them is either in use or on the free list of its size
class. -/

namespace FarmOS.Kmalloc

open Lib Function List Nat

variable {cfg n a b i j x k : ℕ} {h h' : Heap} {cs : List ℕ} {F : ℕ → List ℕ} {live : List (ℕ × ℕ)} {E : Panic → Prop}

abbrev blocks (cs : List ℕ) : List (ℕ × ℕ) := tiles classSize kernelMalloc cs

abbrev endOf (cs : List ℕ) : ℕ := kernelMalloc + total classSize cs

lemma classSize_spec : ∀ i < classCount, 64 ≤ classSize i ∧ classSize i % 8 = 0 ∧ classSize i ≤ 33 * 4096 ∧
    (classSize i ≤ 4096 → classSize i * (4096 / classSize i) = 4096) ∧
    (¬ classSize i ≤ 4096 → classSize i = classSize i / 4096 * 4096) := by decide

lemma classSize_pos (hi : i < classCount) : 64 ≤ classSize i := (classSize_spec i hi).1

structure Laid (cfg n : ℕ) (h : Heap) (cs : List ℕ) (F : ℕ → List ℕ) (live : List (ℕ × ℕ)) : Prop where
  bound : n ≤ classCount
  classes (i : ℕ) : i ∈ cs → i < n
  mapped (x : ℕ) : kernelMalloc ≤ x → x < endOf cs → h.mapped (x / pageSize) = true
  accual (i : ℕ) : i < n → h.accualSize i = classSize i - headerSize
  header (a i : ℕ) : (a, i) ∈ blocks cs → h.mem (a + 8) = headAddr cfg i ∧ h.mem (a + 16) = classSize i - headerSize
  chain (i : ℕ) : i < n → Chain h.mem (· = 0) (h.head i) (F i)
  free_nodup (i : ℕ) : i < n → (F i).Nodup
  free_block (a i : ℕ) : i < n → a ∈ F i → (a, i) ∈ blocks cs
  live_nodup : live.Nodup
  live_block (x : ℕ × ℕ) : x ∈ live → x ∈ blocks cs
  part (a i : ℕ) : (a, i) ∈ blocks cs → (a ∈ F i ↔ (a, i) ∉ live)

structure Same (h h' : Heap) : Prop where
  mapped : h'.mapped = h.mapped
  npage : h'.npage = h.npage
  accual : h'.accualSize = h.accualSize
  top : h'.heapTop = h.heapTop
  alloced : h'.allocedSize = h.allocedSize

lemma Same.refl (h : Heap) : Same h h := ⟨rfl, rfl, rfl, rfl, rfl⟩

lemma Same.trans {h'' : Heap} (h1 : Same h h') (h2 : Same h' h'') : Same h h'' :=
  ⟨h2.mapped.trans h1.mapped, h2.npage.trans h1.npage, h2.accual.trans h1.accual, h2.top.trans h1.top,
    h2.alloced.trans h1.alloced⟩

lemma wp_load {Q : ℕ → Heap → Prop} (hm : h.mapped (a / pageSize) = true) (hQ : Q (h.mem a) h) :
    wp (load a) Q E h := by
  rw [load, wp_bind, wp_get, if_pos hm]
  exact wp_pure.mpr hQ

lemma wp_store {Q : Unit → Heap → Prop} {w : ℕ} (hm : h.mapped (a / pageSize) = true)
    (hQ : Q () { h with mem := update h.mem a w }) : wp (store a w) Q E h := by
  rw [store, wp_bind, wp_get, if_pos hm]
  exact wp_set.mpr hQ

lemma bounds (ha : (a, i) ∈ blocks cs) : kernelMalloc ≤ a ∧ a + classSize i ≤ endOf cs := bounds_of_mem_tiles ha

lemma apart (ha : (a, i) ∈ blocks cs) (hb : (b, j) ∈ blocks cs) (hne : (a, i) ≠ (b, j)) :
    a + classSize i ≤ b ∨ b + classSize j ≤ a := (tiles_apart ha hb).resolve_left hne

namespace Laid

section

variable (hl : Laid cfg n h cs F live)
include hl

section

variable (ha : (a, i) ∈ blocks cs)
include ha

lemma lt : i < n := hl.classes i (class_of_mem_tiles ha)

lemma size : 64 ≤ classSize i := classSize_pos (lt_of_lt_of_le (hl.lt ha) hl.bound)

lemma cls (ha' : (a, j) ∈ blocks cs) : i = j := by
  have h1 := hl.size ha
  have h2 := hl.size ha'
  by_contra hne
  have := apart ha ha' fun he => hne (Prod.mk.inj he).2
  omega

lemma mapped_block (hx : a ≤ x) (hlt : x < a + classSize i) : h.mapped (x / pageSize) = true := by
  have := bounds ha
  exact hl.mapped x (by omega) (by omega)

lemma word_apart (hb : (b, j) ∈ blocks cs) (hk : k < headerSize) (hne : b ≠ a) : b + k ≠ a := by
  have h1 := hl.size ha
  have h2 := hl.size hb
  have := apart ha hb fun he => hne (Prod.mk.inj he).1.symm
  unfold headerSize at hk
  omega

end

lemma below (hb : (b, j) ∈ blocks cs) (hk : k < headerSize) : b + k < endOf cs := by
  have h1 := bounds hb
  have h2 := hl.size hb
  unfold headerSize at hk
  omega

lemma congr (hm : h'.mem = h.mem) (hmap : h'.mapped = h.mapped) (hacc : h'.accualSize = h.accualSize)
    (hh : h'.head = h.head) : Laid cfg n h' cs F live := by
  refine { hl with mapped := ?_, accual := ?_, header := ?_, chain := ?_ }
  · rw [hmap]
    exact hl.mapped
  · rw [hacc]
    exact hl.accual
  · rw [hm]
    exact hl.header
  · rw [hm, hh]
    exact hl.chain

lemma scribble (ha : (a, i) ∈ blocks cs)
    (hm : ∀ x, ¬ (a + headerSize ≤ x ∧ x < a + classSize i) → h'.mem x = h.mem x) (hmap : h'.mapped = h.mapped)
    (hacc : h'.accualSize = h.accualSize) (hh : h'.head = h.head) : Laid cfg n h' cs F live := by
  have hword : ∀ b j, (b, j) ∈ blocks cs → ∀ k < headerSize, h'.mem (b + k) = h.mem (b + k) := by
    intro b j hb k hk
    refine hm _ fun hx => ?_
    have h1 := hl.size ha
    have h2 := hl.size hb
    unfold headerSize at hk hx
    by_cases he : (a, i) = (b, j)
    · obtain ⟨rfl, rfl⟩ := Prod.mk.inj he
      omega
    · have := apart ha hb he
      omega
  refine { hl with
    mapped := hmap ▸ hl.mapped, accual := hacc ▸ hl.accual, header := fun b j hb => ?_, chain := fun j hj => ?_ }
  · rw [hword b j hb 8 (by decide), hword b j hb 16 (by decide)]
    exact hl.header b j hb
  · rw [hh]
    exact (hl.chain j hj).congr fun b hb => hword b j (hl.free_block b j hj hb) 0 (by decide)

lemma take {l : List ℕ} (hi : i < n) (hF : F i = a :: l) :
    Laid cfg n { h with head := update h.head i (h.mem a) } cs (update F i l) ((a, i) :: live) := by
  have hmem : a ∈ F i := hF ▸ mem_cons_self
  have hblock := hl.free_block a i hi hmem
  have hnodup := hl.free_nodup i hi
  rw [hF] at hnodup
  have hsub : ∀ b j, b ∈ update F i l j → b ∈ F j := by
    intro b j hb
    by_cases hj : j = i
    · subst hj
      rw [update_self] at hb
      rw [hF]
      exact mem_cons_of_mem a hb
    · rwa [update_of_ne hj] at hb
  refine ⟨hl.bound, hl.classes, hl.mapped, hl.accual, hl.header, fun j hj => ?_, fun j hj => ?_,
    fun b j hj hb => hl.free_block b j hj (hsub b j hb), nodup_cons.mpr ⟨(hl.part a i hblock).mp hmem, hl.live_nodup⟩,
    fun y hy => ?_, fun b j hb => ?_⟩
  · by_cases he : j = i
    · subst he
      have hc := hl.chain j hj
      rw [hF] at hc
      simp only [update_self]
      exact hc.2.2
    · simp only [update_of_ne he]
      exact hl.chain j hj
  · by_cases he : j = i
    · subst he
      rw [update_self]
      exact (nodup_cons.mp hnodup).2
    · rw [update_of_ne he]
      exact hl.free_nodup j hj
  · rcases mem_cons.mp hy with rfl | hy
    · exact hblock
    · exact hl.live_block y hy
  · rw [mem_cons, not_or]
    by_cases he : j = i
    · subst he
      rw [update_self]
      have hp := hl.part b j hb
      rw [hF, mem_cons] at hp
      by_cases hba : b = a
      · subst hba
        exact iff_of_false (nodup_cons.mp hnodup).1 fun hn => hn.1 rfl
      · rw [← hp]
        exact ⟨fun hm => ⟨fun he => hba (Prod.mk.inj he).1, .inr hm⟩, fun hm => hm.2.resolve_left hba⟩
    · rw [update_of_ne he, hl.part b j hb]
      exact (and_iff_right fun hji => he (Prod.mk.inj hji).2).symm

lemma release (ha : (a, i) ∈ live) :
    Laid cfg n { h with mem := update h.mem a (h.head i), head := update h.head i a } cs
      (update F i (a :: F i)) (live.erase (a, i)) := by
  have hblock := hl.live_block _ ha
  have hnot : a ∉ F i := fun hm => (hl.part a i hblock).mp hm ha
  have hne : a ≠ 0 := by
    have h1 := (bounds hblock).1
    unfold kernelMalloc at h1
    omega
  have hword : ∀ b j k, (b, j) ∈ blocks cs → k < headerSize → b ≠ a ∨ k ≠ 0 →
      update h.mem a (h.head i) (b + k) = h.mem (b + k) := by
    intro b j k hb hk hor
    refine update_of_ne ?_ ..
    by_cases hba : b = a
    · subst hba
      have := hor.resolve_left (fun hn => hn rfl)
      omega
    · exact hl.word_apart hblock hb hk hba
  refine ⟨hl.bound, hl.classes, hl.mapped, hl.accual, fun b j hb => ?_, fun j hj => ?_, fun j hj => ?_,
    fun b j hj hb => ?_, hl.live_nodup.erase _, fun y hy => hl.live_block y (mem_of_mem_erase hy), fun b j hb => ?_⟩
  · simp only [hword b j 8 hb (by decide) (.inr (by decide)), hword b j 16 hb (by decide) (.inr (by decide))]
    exact hl.header b j hb
  · have hold : ∀ j < n, Chain (update h.mem a (h.head i)) (· = 0) (h.head j) (F j) := by
      intro j hj
      refine (hl.chain j hj).congr fun b hb => ?_
      have hb' := hl.free_block b j hj hb
      refine hword b j 0 hb' (by decide) (.inl fun hba => ?_)
      subst hba
      obtain rfl := hl.cls hb' hblock
      exact hnot hb
    by_cases he : j = i
    · subst he
      simp only [update_self]
      exact (hold j hj).push hne (update_self ..)
    · simp only [update_of_ne he]
      exact hold j hj
  · by_cases he : j = i
    · subst he
      rw [update_self]
      exact nodup_cons.mpr ⟨hnot, hl.free_nodup j hj⟩
    · rw [update_of_ne he]
      exact hl.free_nodup j hj
  · by_cases he : j = i
    · subst he
      rw [update_self] at hb
      rcases mem_cons.mp hb with rfl | hb
      · exact hblock
      · exact hl.free_block b j hj hb
    · rw [update_of_ne he] at hb
      exact hl.free_block b j hj hb
  · rw [hl.live_nodup.mem_erase_iff, not_and_or, not_not]
    by_cases he : j = i
    · subst he
      rw [update_self, mem_cons, hl.part b j hb, Prod.mk.injEq, and_iff_left rfl]
    · rw [update_of_ne he, hl.part b j hb]
      exact (or_iff_right fun hji => he (Prod.mk.inj hji).2).symm

lemma grow (hi : i < n) (hm : ∀ x, endOf cs ≤ x → x < endOf cs + classSize i → h.mapped (x / pageSize) = true)
    (hs : Same h h') (hh : h'.head = update h.head i (endOf cs))
    (hold : ∀ x < endOf cs, h'.mem x = h.mem x) (hnext : h'.mem (endOf cs) = h.head i)
    (hphead : h'.mem (endOf cs + 8) = headAddr cfg i)
    (hsize : h'.mem (endOf cs + 16) = classSize i - headerSize) :
    Laid cfg n h' (cs ++ [i]) (update F i (endOf cs :: F i)) live := by
  have hend : endOf (cs ++ [i]) = endOf cs + classSize i := by simp [endOf, add_assoc]
  have hmem : ∀ {b j}, (b, j) ∈ blocks (cs ++ [i]) ↔ (b, j) ∈ blocks cs ∨ b = endOf cs ∧ j = i := by
    intro b j
    rw [blocks, tiles_append, tiles, tiles, mem_append, mem_singleton, Prod.mk.injEq]
  have hbelow : ∀ {b j}, (b, j) ∈ blocks cs → ∀ k < headerSize, b + k < endOf cs := fun hb _ => hl.below hb
  have hnot : ∀ {j}, j < n → endOf cs ∉ F j := fun {j} hj hf =>
    lt_irrefl _ (hbelow (hl.free_block _ j hj hf) 0 (by decide))
  have hne : endOf cs ≠ 0 := by
    unfold endOf kernelMalloc
    omega
  refine ⟨hl.bound, fun j hj => ?_, fun x hx hlt => ?_, hs.accual ▸ hl.accual, fun b j hb => ?_, fun j hj => ?_,
    fun j hj => ?_, fun b j hj hb => hmem.mpr ?_, hl.live_nodup,
    fun y hy => hmem.mpr (.inl (hl.live_block y hy)), fun b j hb => ?_⟩
  · rcases mem_append.mp hj with hj | hj
    · exact hl.classes j hj
    · rwa [mem_singleton.mp hj]
  · rw [hs.mapped]
    by_cases hlt' : x < endOf cs
    · exact hl.mapped x hx hlt'
    · exact hm x (by omega) (hend ▸ hlt)
  · rcases hmem.mp hb with hb | ⟨rfl, rfl⟩
    · rw [hold _ (hbelow hb 8 (by decide)), hold _ (hbelow hb 16 (by decide))]
      exact hl.header b j hb
    · exact ⟨hphead, hsize⟩
  · have hchain : Chain h'.mem (· = 0) (h.head j) (F j) :=
      (hl.chain j hj).congr fun b hb => hold _ (hbelow (hl.free_block b j hj hb) 0 (by decide))
    rw [hh]
    by_cases he : j = i
    · subst he
      rw [update_self, update_self]
      exact hchain.push hne hnext
    · rw [update_of_ne he, update_of_ne he]
      exact hchain
  · by_cases he : j = i
    · subst he
      rw [update_self]
      exact nodup_cons.mpr ⟨hnot hj, hl.free_nodup j hj⟩
    · rw [update_of_ne he]
      exact hl.free_nodup j hj
  · by_cases he : j = i
    · subst he
      rw [update_self] at hb
      rcases mem_cons.mp hb with rfl | hb
      · exact .inr ⟨rfl, rfl⟩
      · exact .inl (hl.free_block b j hj hb)
    · rw [update_of_ne he] at hb
      exact .inl (hl.free_block b j hj hb)
  · rcases hmem.mp hb with hb | ⟨rfl, rfl⟩
    · have hb0 : b ≠ endOf cs := Nat.ne_of_lt (hbelow hb 0 (by decide))
      rw [← hl.part b j hb]
      by_cases he : j = i
      · subst he
        rw [update_self, mem_cons]
        exact or_iff_right hb0
      · rw [update_of_ne he]
    · rw [update_self]
      exact iff_of_true mem_cons_self fun hy =>
        lt_irrefl _ (hbelow (hl.live_block _ hy) 0 (by decide))

lemma addBlock (hi : i < n) (ha : a = endOf cs)
    (hm : ∀ x, endOf cs ≤ x → x < endOf cs + classSize i → h.mapped (x / pageSize) = true) :
    wp (addBlock cfg i a) (fun r h' => r = 0 ∧ Same h h' ∧
      Laid cfg n h' (cs ++ [i]) (update F i (endOf cs :: F i)) live) E h := by
  subst ha
  have hsz := classSize_pos (lt_of_lt_of_le hi hl.bound)
  have hmap : ∀ k < headerSize, h.mapped ((endOf cs + k) / pageSize) = true := fun k hk => by
    unfold headerSize at hk
    exact hm _ (by omega) (by omega)
  simp only [Kmalloc.addBlock, listInsertHead, wp_bind]
  refine wp_store (hmap 8 (by decide)) (wp_store (hmap 0 (by decide)) (wp_get.mpr (wp_store (hmap 16 (by decide)) ?_)))
  refine wp_get.mpr (wp_store (hmap 0 (by decide)) (wp_modify.mpr (wp_pure.mpr ⟨rfl, ⟨rfl, rfl, rfl, rfl, rfl⟩, ?_⟩)))
  refine hl.grow hi hm ⟨rfl, rfl, rfl, rfl, rfl⟩ rfl (fun x hx => ?_) ?_ ?_ ?_
  · simp only [update_of_ne (show x ≠ endOf cs by omega), update_of_ne (show x ≠ endOf cs + 8 by omega),
      update_of_ne (show x ≠ endOf cs + 16 by omega)]
  · simp only [update_self]
  · simp
  · simp [hl.accual i hi]

lemma addBlocks {m : ℕ} (hi : i < n) (ha : a = endOf cs)
    (hm : ∀ x, endOf cs ≤ x → x < endOf cs + m * classSize i → h.mapped (x / pageSize) = true) :
    wp (loop (fun k => Kmalloc.addBlock cfg i (a + k * classSize i)) 0 m) (fun r h' => r = 0 ∧ Same h h' ∧ ∃ F',
      Laid cfg n h' (cs ++ replicate m i) F' live ∧ (0 < m → F' i ≠ [])) E h := by
  have hend : ∀ k, endOf (cs ++ replicate k i) = endOf cs + k * classSize i := fun k => by
    simp [endOf, total, add_assoc]
  refine wp_loop_zero (I := fun k h' => Same h h' ∧ ∃ F', Laid cfg n h' (cs ++ replicate k i) F' live ∧
    (0 < k → F' i ≠ [])) m ⟨.refl h, F, by simpa using hl, fun h0 => absurd h0 (lt_irrefl 0)⟩ ?_
  rintro k h1 hk ⟨hs, F1, hl1, _⟩
  have hle : (k + 1) * classSize i ≤ m * classSize i := mul_le_mul_right _ hk
  rw [succ_mul] at hle
  refine wp_mono (hl1.addBlock hi (by rw [hend, ha]) fun x hx hlt => ?_) ?_
  · rw [hend] at hx hlt
    rw [hs.mapped]
    exact hm x (by omega) (by omega)
  · rintro r h2 ⟨hr, hs2, hl2⟩
    rw [append_assoc, ← replicate_succ'] at hl2
    refine ⟨hr, hs.trans hs2, _, hl2, fun _ => ?_⟩
    rw [update_self]
    exact cons_ne_nil _ _

end

end Laid

structure Paged (h : Heap) (va m : ℕ) (h' : Heap) : Prop where
  mem (x : ℕ) : x < va → h'.mem x = h.mem x
  old (p : ℕ) : h.mapped p = true → h'.mapped p = true
  new (x : ℕ) : va ≤ x → x < va + m * pageSize → h'.mapped (x / pageSize) = true
  head : h'.head = h.head
  npage : h'.npage = h.npage
  accual : h'.accualSize = h.accualSize
  top : h'.heapTop = h.heapTop
  alloced : h'.allocedSize = h.allocedSize
  pages : h.freePages ≤ h'.freePages + 3 * m

lemma pagesTaken_le (h : Heap) (va : ℕ) : pagesTaken h va ≤ 3 := by
  have : (tablesOf va).countP (fun t => !h.tabled t) ≤ 2 := countP_le_length
  unfold pagesTaken
  omega

lemma below_page {va : ℕ} (hva : va % pageSize = 0) (hlt : x < va + (k + 1) * pageSize)
    (hne : x / pageSize ≠ (va + k * pageSize) / pageSize) : x < va + k * pageSize := by
  have hpos : 0 < pageSize := by decide
  obtain ⟨q, rfl⟩ := dvd_of_mod_eq_zero hva
  rw [Nat.mul_comm pageSize, ← Nat.add_mul] at *
  rw [Nat.mul_div_cancel _ hpos] at hne
  have hle : x / pageSize < q + (k + 1) := Nat.div_lt_of_lt_mul (Nat.mul_comm _ _ ▸ hlt)
  exact (div_lt_iff_lt_mul hpos).mp (by omega)

lemma wp_kpagesAlloc {va : ℕ} (hva : va % pageSize = 0) (m : ℕ) (hE : h.freePages < 3 * m → E .noFreePage) :
    wp (kpagesAlloc va m) (fun r h' => r = 0 ∧ Paged h va m h') E h := by
  refine wp_loop_zero (I := fun k h' => Paged h va k h') m ⟨fun _ _ => rfl, fun _ hp => hp, fun x hx hlt => ?_,
    rfl, rfl, rfl, rfl, rfl, le_refl _⟩ fun k h1 hk h' => ?_
  · omega
  · have htaken := pagesTaken_le h1 (va + k * pageSize)
    have hpages := h'.pages
    rw [wp_bind, kpageAlloc, wp_bind, wp_get, wp_ite]
    refine ⟨fun hlt => wp_throw.mpr (hE (by omega)), fun hge => wp_set.mpr (wp_pure.mpr ⟨rfl, fun x hx => ?_,
      fun p hp => ?_, fun x hx hlt => ?_, h'.head, h'.npage, h'.accual, h'.top, h'.alloced, ?_⟩)⟩
    · have hne : ¬ x / pageSize = (va + k * pageSize) / pageSize := by
        unfold pageSize at hva ⊢
        omega
      exact (if_neg hne).trans (h'.mem x hx)
    · by_cases hp' : p = (va + k * pageSize) / pageSize
      · simp only [hp', update_self]
      · simp only [update_of_ne hp']
        exact h'.old p hp
    · by_cases hp' : x / pageSize = (va + k * pageSize) / pageSize
      · simp only [hp', update_self]
      · simp only [update_of_ne hp']
        exact h'.new x hx (below_page hva hlt hp')
    · simp only
      omega

lemma Laid.paged {m : ℕ} (hl : Laid cfg n h cs F live) (hp : Paged h (endOf cs) m h') : Laid cfg n h' cs F live := by
  have hbelow : ∀ {b j}, (b, j) ∈ blocks cs → ∀ k < headerSize, b + k < endOf cs := fun hb _ => hl.below hb
  refine { hl with
    mapped := fun x hx hlt => hp.old _ (hl.mapped x hx hlt), accual := hp.accual ▸ hl.accual
    header := fun b j hb => ?_, chain := fun j hj => ?_ }
  · rw [hp.mem _ (hbelow hb 8 (by decide)), hp.mem _ (hbelow hb 16 (by decide))]
    exact hl.header b j hb
  · rw [hp.head]
    exact (hl.chain j hj).congr fun b hb => hp.mem _ (hbelow (hl.free_block b j hj hb) 0 (by decide))

def used (live : List (ℕ × ℕ)) : ℕ := (live.map fun x => classSize x.2).sum

structure Inv (cfg : ℕ) (h : Heap) (cs : List ℕ) (F : ℕ → List ℕ) (live : List (ℕ × ℕ)) : Prop where
  laid : Laid cfg classCount h cs F live
  top : h.heapTop = endOf cs
  page : endOf cs % pageSize = 0
  small : total classSize cs ≤ 20032 * pageSize
  alloced : h.allocedSize = used live

def Exhausted (h : Heap) (e : Panic) : Prop :=
  e = .noFreePage ∧ h.freePages < 99 ∨
    e = .outOfMemory ∧ kernelMalloc + maxMallocNpage * pageSize < h.heapTop + pageSize

lemma Laid.addNew (hl : Laid cfg classCount h cs F live) (hi : i < classCount) (ha : a = endOf cs)
    (hm : ∀ x, endOf cs ≤ x → x < endOf cs + max 1 (classSize i / pageSize) * pageSize →
      h.mapped (x / pageSize) = true) :
    wp (addNew cfg i a) (fun _ h' => Same h h' ∧ ∃ ds F', Laid cfg classCount h' (cs ++ ds) F' live ∧
      F' i ≠ [] ∧ total classSize ds = max 1 (classSize i / pageSize) * pageSize) E h := by
  obtain ⟨hpos, -, -, hsmall, hlarge⟩ := classSize_spec i hi
  rw [show pageSize = 4096 from rfl] at hm ⊢
  rw [Kmalloc.addNew, wp_ite]
  refine ⟨fun (hle : classSize i ≤ 4096) => ?_, fun (hgt : ¬ classSize i ≤ 4096) => ?_⟩
  · have hcount : (4096 + classSize i - 1) / classSize i = 4096 / classSize i := by
      have h1 := hsmall hle
      refine Nat.div_eq_of_lt_le ?_ ?_
      · rw [Nat.mul_comm, h1]
        omega
      · rw [Nat.add_mul, Nat.mul_comm (4096 / classSize i), h1]
        omega
    have hone : max 1 (classSize i / 4096) = 1 := by
      have : classSize i / 4096 ≤ 1 := Nat.div_le_of_le_mul (by omega)
      omega
    rw [hone] at hm ⊢
    have hmul : 4096 / classSize i * classSize i = 4096 := by rw [Nat.mul_comm, hsmall hle]
    rw [Kmalloc.addBlocks, show (pageSize + classSize i - 1) / classSize i = 4096 / classSize i from hcount]
    refine wp_mono (hl.addBlocks hi ha fun x hx hlt => hm x hx (by omega)) ?_
    rintro r h' ⟨_, hs, F', hl', hF⟩
    refine ⟨hs, _, F', hl', hF (div_pos hle (by omega)), ?_⟩
    rw [total, map_replicate, sum_replicate_nat, hmul]
  · have hdiv := hlarge hgt
    have hmax : max 1 (classSize i / 4096) * 4096 = classSize i := by
      have : 1 ≤ classSize i / 4096 := div_pos (by omega) (by decide)
      rw [max_eq_right this, ← hdiv]
    rw [hmax] at hm ⊢
    refine wp_mono (hl.addBlock hi ha hm) fun r h' ha => ⟨ha.2.1, [i], _, ha.2.2, ?_, ?_⟩
    · rw [update_self]
      exact cons_ne_nil _ _
    · simp [total]

lemma Inv.extendHeap (hv : Inv cfg h cs F live) (hi : i < classCount) :
    wp (extendHeap cfg i) (fun _ h' => h'.accualSize = h.accualSize ∧ ∃ cs' F', Inv cfg h' cs' F' live ∧ F' i ≠ [])
      (Exhausted h) h := by
  have hsz := (classSize_spec i hi).2.2.1
  obtain ⟨m, hm⟩ : ∃ m, max 1 (classSize i / pageSize) = m := ⟨_, rfl⟩
  have hm33 : m ≤ 33 := by
    have : classSize i / 4096 ≤ 33 := Nat.div_le_of_le_mul (by omega)
    unfold pageSize at hm
    omega
  simp only [Kmalloc.extendHeap, wp_bind, wp_get, hm]
  have hpage : h.heapTop % pageSize = 0 := hv.top ▸ hv.page
  refine wp_mono (wp_kpagesAlloc hpage m fun hlt => .inl ⟨rfl, by omega⟩) ?_
  rintro _ h1 ⟨_, hp⟩
  rw [wp_ite]
  refine ⟨fun hfull => wp_throw.mpr (.inr ⟨rfl, hfull⟩), fun hroom => ?_⟩
  rw [hv.top] at hp
  have hl1 := hv.laid.paged hp
  simp only [wp_bind, wp_modify]
  have hl2 : Laid cfg classCount { h1 with npage := update h1.npage i (h1.npage i + m) } cs F live :=
    hl1.congr rfl rfl rfl rfl
  refine wp_mono (hl2.addNew hi hv.top fun x hx hlt => hp.new x hx (hm ▸ hlt)) ?_
  rintro _ h3 ⟨hs, ds, F', hl3, hF, htot⟩
  have hend : endOf (cs ++ ds) = endOf cs + m * pageSize := by
    rw [hm] at htot
    rw [endOf, total_append, htot, add_assoc]
  refine ⟨hs.accual.trans hp.accual, cs ++ ds, F', ⟨?_, ?_, ?_, ?_, ?_⟩, hF⟩
  · exact hl3.congr rfl rfl rfl rfl
  · rw [hend, ← hv.top]
  · have := hv.page
    rw [hend]
    unfold pageSize at this ⊢
    omega
  · rw [total_append, htot, hm]
    rw [hv.top] at hroom
    unfold endOf maxMallocNpage pageSize at *
    omega
  · exact hs.alloced.trans (hp.alloced.trans hv.alloced)

lemma Inv.used_lt (hv : Inv cfg h cs F live) : used live < 2 ^ 63 := by
  have h1 : used live ≤ total classSize cs := sum_le_total hv.laid.live_nodup hv.laid.live_block
  have h2 := hv.small
  unfold pageSize at h2
  omega

lemma Inv.takeBlock (hv : Inv cfg h cs F live) (hi : i < classCount) (hF : F i ≠ []) :
    wp (takeBlock i) (fun p h' => ∃ a F', p = a + headerSize ∧ Inv cfg h' cs F' ((a, i) :: live) ∧
      h'.accualSize = h.accualSize ∧ ∀ x, p ≤ x → x < p + (classSize i - headerSize) → h'.mem x = 0) E h := by
  obtain ⟨a, l, hal⟩ := exists_cons_of_ne_nil hF
  have hl := hv.laid
  have hchain := hl.chain i hi
  rw [hal] at hchain
  have hblock := hl.free_block a i hi (hal ▸ mem_cons_self)
  have hsz := hl.size hblock
  have hmap : ∀ k < classSize i, h.mapped ((a + k) / pageSize) = true := fun k hk =>
    hl.mapped_block hblock (by omega) (by omega)
  have htake := hl.take hi hal
  simp only [Kmalloc.takeBlock, wp_bind, wp_get, hchain.1]
  refine wp_load (hmap 0 (by omega)) (wp_modify.mpr (wp_load (hmap 16 (by omega)) ?_))
  rw [show Heap.mem { h with head := update h.head i (h.mem a) } (a + 16) = classSize i - headerSize from
    (hl.header a i hblock).2, memsetZero, wp_bind, wp_get, if_pos]
  · refine wp_set.mpr (wp_modify.mpr (wp_pure.mpr ⟨a, update F i l, rfl, ⟨?_, hv.top, hv.page, hv.small, ?_⟩, rfl,
      fun x hx hlt => if_pos ⟨hx, hlt⟩⟩))
    · refine htake.scribble hblock (fun x hx => if_neg fun hx' => hx ⟨hx'.1, ?_⟩) rfl rfl rfl
      unfold headerSize at hx'
      omega
    · have h1 : used ((a, i) :: live) ≤ total classSize cs := sum_le_total htake.live_nodup htake.live_block
      have h2 := hv.small
      have h3 : used ((a, i) :: live) = classSize i + used live := sum_cons
      simp only [hv.alloced]
      unfold pageSize at h2
      omega
  · rw [all_eq_true]
    intro k hk
    have hk := mem_range.mp hk
    unfold headerSize at hk ⊢
    rw [add_assoc]
    exact hmap _ (by omega)

end FarmOS.Kmalloc

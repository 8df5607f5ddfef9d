import FarmOS.Mm.Walk

/-! Building the free list and the kernel page table at boot. -/

namespace FarmOS.Mm

open Lib List

def pgRoundUp (a : ℕ) : ℕ := (a + 4095) / 4096 * 4096

def pgRoundDown (a : BitVec 64) : BitVec 64 := a &&& ~~~0xfff

def pmInitPush (start size : ℕ) : ℕ := start + pgRoundUp size

structure Board where
  imageEnd : ℕ
  memSize : ℕ
  arrays : List ℕ
  endText : BitVec 64
  trampoline : BitVec 64
  sifive : Bool
  fits : (arrays.foldl pmInitPush (pgRoundUp imageEnd) - 0x80000000) / 4096 ≤ memSize / 4096
  small : memSize / 4096 < 2 ^ 23

namespace Board

variable (b : Board)

def npage : ℕ := b.memSize / pageSize

def freemem : ℕ := b.arrays.foldl pmInitPush (pgRoundUp b.imageEnd)

def pageused : ℕ := (b.freemem - membase.toNat) / pageSize

def layout : Layout := ⟨b.npage, b.pageused, b.fits, b.small⟩

def pmTop : BitVec 64 := membase + BitVec.ofNat 64 b.npage <<< 12

def uart0 : BitVec 64 := if b.sifive then 0x10010000 else 0x10000000

end Board

def spiCtrlAddr : BitVec 64 := 0x10050000
def virtio0 : BitVec 64 := 0x10001000
def rtcBase : BitVec 64 := 0x101000
def plic : BitVec 64 := 0x0c000000
def kernbase : BitVec 64 := 0x80200000

def pmmInit (b : Board) : M Unit := modify fun s =>
  { s with
    ref := fun i => if i < b.pageused then 1 else 0
    pageFreeList := (List.range' b.pageused (b.npage - b.pageused)).foldl (fun l i => i :: l) []
    pageleft := b.npage - b.pageused }

def vmInitPage (pa va : BitVec 64) (perm : Pte) : M ℤ := do
  let s ← get
  match ← ptWalk s.kernPd va true with
  | none => throw .nullPointer
  | some x =>
    store x (mkPte s.ad pa perm)
    modify fun s => { s with ident := x :: s.ident }
    pure 0

def vmInitMap (pa va len : BitVec 64) (perm : Pte) : M ℤ :=
  loop (fun k => vmInitPage (pa + BitVec.ofNat 64 (k * 4096)) (va + BitVec.ofNat 64 (k * 4096)) perm) 0
    ((len.toNat + 4095) / 4096)

def memoryTest (b : Board) : M ℤ :=
  loop (fun k => do
    let va := kernbase + BitVec.ofNat 64 (k * 4096)
    let pte ← ptLookup (← get).kernPd va
    check (pteToPa pte = va) .assertion
    pure 0) 0 ((b.pmTop.toNat - kernbase.toNat + 4095) / 4096)

def vmInitMaps (b : Board) : M Unit := do
  let _ ← vmInitMap b.uart0 b.uart0 4096 (pteR ||| pteW)
  let _ ← vmInitMap spiCtrlAddr spiCtrlAddr 4096 (pteR ||| pteW)
  let _ ← vmInitMap virtio0 virtio0 4096 (pteR ||| pteW)
  let _ ← vmInitMap rtcBase rtcBase 4096 (pteR ||| pteW)
  let _ ← vmInitMap plic plic 0x400000 (pteR ||| pteW)
  let _ ← vmInitMap kernbase kernbase (b.endText - kernbase) (pteR ||| pteX)
  let _ ← vmInitMap b.endText b.endText (b.pmTop - b.endText) (pteR ||| pteW)
  let _ ← vmInitMap (pgRoundDown b.trampoline) trampolineVa 4096 (pteR ||| pteX)
  let _ ← memoryTest b

def vmmInit (b : Board) : M Unit := do
  let pd ← pmAlloc
  modify fun s => { s with kernPd := pd }
  vmInitMaps b

def boot (b : Board) : M Unit := do
  pmmInit b
  vmmInit b

def powerOn (b : Board) (mem : ℕ → ℕ → BitVec 64) : Phys :=
  { mem := mem, ref := fun _ => 0, pageFreeList := [], pageleft := 0, kernPd := 0, ident := [], ad := b.sifive }

variable {L : Layout} {s s' : Phys} {v v' : View} {b : Board} {x : ℕ × ℕ} {w perm : Pte} {f : ℕ}
  {pa va len : BitVec 64}

def Phys.identify (s : Phys) (x : ℕ × ℕ) (w : Pte) : Phys :=
  { s.setWord x.1 x.2 w with ident := x :: s.ident }

structure Blank (s : Phys) (v : View) : Prop where
  leaf (x : ℕ × ℕ) : v.lev x.1 = 3 → x ∉ s.ident → s.mem x.1 x.2 = 0

structure Kernel (L : Layout) (s : Phys) (v : View) : Prop where
  inv : Inv L s v []
  blank : Blank s v
  dead : v.dead = ∅
  roots : v.roots = []
  held : v.held = []
  heap (t : ℕ) : v.lev t ≠ 0 → L.pageused ≤ t
  cow (x : ℕ × ℕ) : x ∈ s.ident → has (s.mem x.1 x.2) pteCow = false

structure IdentSlot (s : Phys) (v : View) (x : ℕ × ℕ) : Prop where
  lev : v.lev x.1 = 3
  own : v.own x.1 = s.kernPd
  index : x.2 < 512

namespace IdentSlot

section

open scoped Classical

lemma key_eq (h : IdentSlot s v x) (hb : Blank s v) (y : ℕ × ℕ) : key (s.identify x w) v y = key s v y := by
  by_cases hy : y = x
  · subst hy
    have hnew : key (s.identify y w) v y = none := if_neg fun hk => hk.2.2 mem_cons_self
    rw [hnew]
    unfold key
    split
    · next hk =>
      rw [hb.leaf y h.lev hk.2.2]
      exact target_zero.symm
    · rfl
  · refine if_congr ?_ (by rw [Phys.identify, mem_setWord_ne s w hy]) rfl
    simp [Phys.identify, hy, Phys.setWord, Phys.setPage]

end

section

variable (h : IdentSlot s v x)
include h

lemma mem_ne {t : ℕ} (ht : v.lev t ≠ 3) : (s.identify x w).mem t = s.mem t := by
  have hne : t ≠ x.1 := by
    rintro rfl
    exact ht h.lev
  exact Function.update_of_ne hne ..

lemma link {t i c : ℕ} : Link (s.identify x w) v t i c ↔ Link s v t i c := by
  constructor
  · rintro ⟨h1, h2, h3, h4⟩
    exact ⟨h1, h2, h3, by rwa [h.mem_ne (by omega)] at h4⟩
  · rintro ⟨h1, h2, h3, h4⟩
    exact ⟨h1, h2, h3, by rwa [h.mem_ne (by omega)]⟩

lemma shape (hs : Shape L s v) (hb : Blank s v)
    (hw : has w pteV = true) : Shape L (s.identify x w) v where
  __ := hs
  link t i c hl := hs.link t i c (h.link.mp hl)
  link_some t i hl hi hd hV := by
    rw [h.mem_ne (by omega)] at hV ⊢
    exact hs.link_some t i hl hi hd hV
  inj t i t' i' c h1 h2 := hs.inj t i t' i' c (h.link.mp h1) (h.link.mp h2)
  parent c hc := by
    obtain ⟨t, i, hl⟩ := hs.parent c hc
    exact ⟨t, i, h.link.mpr hl⟩
  inval t i hl hi hV := by
    by_cases he : (t, i) = x
    · subst he
      rw [show (s.identify (t, i) w).mem t i = w from mem_setWord_self ..] at hV
      rw [hw] at hV
      cases hV
    · rw [show (s.identify x w).mem t i = s.mem t i from mem_setWord_ne s w he] at hV ⊢
      exact hs.inval t i hl hi hV
  tgt_lt t i f hi hk := hs.tgt_lt t i f hi ((h.key_eq hb (t, i)).symm.trans hk)
  ident y hy := by
    rcases mem_cons.mp hy with rfl | hy
    · exact ⟨h.lev, h.own⟩
    · exact hs.ident y hy

lemma kernel (hk : Kernel L s v) (hw : has w pteV = true)
    (hc : has w pteCow = false) : Kernel L (s.identify x w) v where
  inv := by
    refine ⟨h.shape hk.inv.shape hk.blank hw, hk.inv.account.congr rfl rfl rfl rfl fun f => ?_⟩
    rw [uses, uses, refs, refs, funext (h.key_eq hk.blank)]
  blank := by
    refine ⟨fun y hl hy => ?_⟩
    have hne : y ≠ x := fun he => hy (he ▸ mem_cons_self)
    rw [show (s.identify x w).mem y.1 y.2 = s.mem y.1 y.2 from mem_setWord_ne s w hne]
    exact hk.blank.leaf y hl fun hm => hy (mem_cons_of_mem x hm)
  __ := hk
  cow y hy := by
    by_cases he : y = x
    · subst he
      rwa [show (s.identify y w).mem y.1 y.2 = w from mem_setWord_self ..]
    · rw [show (s.identify x w).mem y.1 y.2 = s.mem y.1 y.2 from mem_setWord_ne s w he]
      exact hk.cow y ((mem_cons.mp hy).resolve_left he)

end

end IdentSlot

section

variable (h : Kernel L s v)
include h

lemma Kernel.grown (hi : Inv L s' v' []) (hg : Grown L s v [] s' v') : Kernel L s' v' where
  inv := hi
  blank := by
    refine ⟨fun x hl hx => ?_⟩
    by_cases h0 : v.lev x.1 = 0
    · exact hg.zero x.1 x.2 h0 hl
    · have h3 := (hg.table x.1 h0).1.symm.trans hl
      rw [hg.leaf x.1 h3]
      exact h.blank.leaf x h3 (hg.ident ▸ hx)
  dead := hg.dead.trans h.dead
  roots := hg.roots.trans h.roots
  held := hg.held.trans h.held
  heap t ht := by
    by_cases h0 : v.lev t = 0
    · exact (hg.fresh t h0 ht).2.2
    · exact h.heap t h0
  cow x hx := by
    rw [hg.ident] at hx
    rw [hg.leaf x.1 (h.inv.shape.ident x hx).1]
    exact h.cow x hx

lemma Kernel.vmInitPage (hc : has perm pteCow = false) :
    wp (vmInitPage pa va perm) (fun r s' => r = 0 ∧ ∃ v', Kernel L s' v') NotRefZero s := by
  have hroot : v.lev s.kernPd = 1 := (h.inv.shape.root _).mpr (.inl rfl)
  simp only [Mm.vmInitPage, wp_bind, wp_get]
  refine wp_mono (h.inv.ptWalk h.dead hroot) fun _ s1 h1 => ?_
  obtain ⟨v1, x, rfl, hw⟩ := h1
  have hroot1 := (hw.grown.table s.kernPd (by omega)).1.trans hroot
  obtain ⟨h3, h4, h5⟩ := hw.inv.shape.slot_lev (hw.grown.dead.trans h.dead) hroot1 hw.slot
  have hslot : IdentSlot s1 v1 x := ⟨h3, h4.trans hw.grown.kernPd.symm, h5⟩
  simp only [store, wp_bind, wp_modify, wp_pure]
  refine ⟨trivial, v1, hslot.kernel (h.grown hw.inv hw.grown) (has_V_mkPte ..) ?_⟩
  rw [has_cow, getLsbD_mkPte _ _ _ (by decide), ← has_cow, hc]
  simp

lemma Kernel.vmInitMap (hc : has perm pteCow = false) :
    wp (vmInitMap pa va len perm) (fun _ s' => ∃ v', Kernel L s' v') NotRefZero s := by
  refine wp_mono (wp_loop_zero (I := fun _ s' => ∃ v', Kernel L s' v') _ ⟨v, h⟩ fun k s' _ h' => ?_)
    fun r s' h' => h'.2
  obtain ⟨v', hk⟩ := h'
  exact hk.vmInitPage hc

lemma Kernel.memoryTest :
    wp (memoryTest b) (fun _ s' => ∃ v', Kernel L s' v') NotRefZero s := by
  refine wp_mono (wp_loop_zero (I := fun _ s' => ∃ v', Kernel L s' v') _ ⟨v, h⟩ fun k s' _ h' => ?_)
    fun r s' h' => h'.2
  simp only [wp_bind, wp_get, wp_ptLookup, check, wp_ite, wp_pure, wp_throw]
  exact ⟨fun _ => ⟨trivial, h'⟩, fun _ => by rintro ⟨⟩⟩

end

lemma foldl_cons (l acc : List ℕ) : l.foldl (fun l i => i :: l) acc = l.reverse ++ acc := by
  induction l generalizing acc with
  | nil => rfl
  | cons a l ih => rw [List.foldl_cons, ih, List.reverse_cons, List.append_assoc, List.singleton_append]

def Layout.freePages (L : Layout) : List ℕ := (List.range' L.pageused (L.npage - L.pageused)).reverse

lemma mem_freePages : f ∈ L.freePages ↔ L.pageused ≤ f ∧ f < L.npage := by
  have := L.used_le
  rw [Layout.freePages, mem_reverse, mem_range'_1]
  omega

lemma nodup_freePages : L.freePages.Nodup := nodup_reverse.mpr (nodup_range' ..)

lemma length_freePages : L.freePages.length = L.npage - L.pageused := by
  rw [Layout.freePages, length_reverse, length_range']

def bareView (pd : ℕ) : View := ⟨fun t => if t = pd then 1 else 0, fun t => t, ∅, [], []⟩

structure Seeded (L : Layout) (s : Phys) (rest : List ℕ) : Prop where
  free : L.freePages = s.kernPd :: rest
  list : s.pageFreeList = rest
  left : s.pageleft = rest.length
  zero (i : ℕ) : s.mem s.kernPd i = 0
  ref (f : ℕ) : s.ref f = if f < L.pageused then 1 else 0
  ident : s.ident = []

namespace Seeded

variable {rest : List ℕ}

lemma lev_iff (pd t : ℕ) : (bareView pd).lev t ≠ 0 ↔ t = pd := by
  unfold bareView
  simp

section

variable (h : Seeded L s rest)
include h

lemma target_none {t i : ℕ} (hl : (bareView s.kernPd).lev t ≠ 0) : target (s.mem t i) = none := by
  rw [(lev_iff _ _).mp hl, h.zero]
  exact target_zero

lemma key_none (x : ℕ × ℕ) : key s (bareView s.kernPd) x = none := by
  unfold key
  split
  · next hk => exact h.target_none hk.1
  · rfl

lemma uses_zero (f : ℕ) : uses L s (bareView s.kernPd) f = 0 := by
  have hr : refs L s (bareView s.kernPd) f = 0 :=
    occ_eq_zero.mpr fun x _ => by rw [h.key_none]; simp
  rw [uses, hr]
  rfl

lemma page : L.pageused ≤ s.kernPd ∧ s.kernPd < L.npage :=
  mem_freePages.mp (by rw [h.free]; simp)

lemma shape : Shape L s (bareView s.kernPd) := by
  have hno : ∀ t i c, ¬ Link s (bareView s.kernPd) t i c := fun t i c hl => by
    have := hl.tgt
    rw [h.target_none (by have := hl.level; omega)] at this
    cases this
  have hle : ∀ t, (bareView s.kernPd).lev t ≤ 1 := fun t => by
    unfold bareView
    simp only
    split <;> omega
  refine ⟨fun t => ?_, fun t => ?_, fun t hl => ?_, fun t _ => rfl, fun t i c hl => absurd hl (hno t i c),
    fun t i hl _ _ hV => ?_, fun t i _ _ c hl => absurd hl (hno t i c), fun c hc => ?_, fun t i hl _ _ => ?_,
    fun t i f _ hk => ?_, fun x hx => ?_, fun x hx => hx.elim, .nil, nofun, nofun, .nil, nofun⟩
  · unfold bareView
    simp
  · have := hle t
    omega
  · rw [(lev_iff _ _).mp hl]
    exact h.page.2
  · have hp : (bareView s.kernPd).lev t ≠ 0 := by omega
    rw [(lev_iff _ _).mp hp, h.zero] at hV
    exact absurd hV (by decide)
  · have := hle c
    omega
  · rw [(lev_iff _ _).mp hl, h.zero]
    rfl
  · rw [h.key_none] at hk
    cases hk
  · rw [h.ident] at hx
    cases hx

lemma account : Account L s (uses L s (bareView s.kernPd)) [] := by
  have hnd := nodup_freePages (L := L)
  rw [h.free, nodup_cons] at hnd
  have hmem : ∀ f, f ∈ rest ↔ L.pageused ≤ f ∧ f < L.npage ∧ f ≠ s.kernPd := fun f => by
    have hf := mem_freePages (L := L) (f := f)
    rw [h.free, mem_cons] at hf
    constructor
    · intro hm
      have := hf.mp (.inr hm)
      exact ⟨this.1, this.2, fun he => hnd.1 (he ▸ hm)⟩
    · rintro ⟨h1, h2, h3⟩
      exact (hf.mpr ⟨h1, h2⟩).resolve_left h3
  refine ⟨fun f hf => ?_, fun f => ?_, h.list ▸ hnd.2, fun f => ?_, by rw [h.left, h.list], .nil, nofun, ?_, h.page⟩
  · rw [h.uses_zero, h.ref, Layout.base]
    split <;> rfl
  · rw [h.uses_zero]
    omega
  · rw [h.list, hmem, h.ref]
    constructor
    · rintro ⟨h1, h2, h3⟩
      exact ⟨h1, h2, if_neg (by omega), not_mem_nil, h3⟩
    · rintro ⟨h1, h2, -, -, h3⟩
      exact ⟨h1, h2, h3⟩
  · exact h.uses_zero _

lemma kernel : Kernel L s (bareView s.kernPd) where
  inv := ⟨h.shape, h.account⟩
  blank := by
    refine ⟨fun x hl _ => ?_⟩
    have hp : (bareView s.kernPd).lev x.1 ≠ 0 := by omega
    rw [(lev_iff _ _).mp hp, h.zero]
  dead := rfl
  roots := rfl
  held := rfl
  heap t ht := by
    rw [(lev_iff _ _).mp ht]
    exact h.page.1
  cow x hx := by
    rw [h.ident] at hx
    cases hx

end

end Seeded

lemma Kernel.vmInitMaps (h : Kernel L s v) :
    wp (vmInitMaps b) (fun _ s' => ∃ v', Kernel L s' v') NotRefZero s := by
  rw [Mm.vmInitMaps]
  refine wp_seq (h.vmInitMap (by decide)) fun _ s1 ⟨v1, h1⟩ => wp_bind.mpr ?_
  refine wp_mono (h1.vmInitMap (by decide)) fun _ s2 ⟨v2, h2⟩ => wp_bind.mpr ?_
  refine wp_mono (h2.vmInitMap (by decide)) fun _ s3 ⟨v3, h3⟩ => wp_bind.mpr ?_
  refine wp_mono (h3.vmInitMap (by decide)) fun _ s4 ⟨v4, h4⟩ => wp_bind.mpr ?_
  refine wp_mono (h4.vmInitMap (by decide)) fun _ s5 ⟨v5, h5⟩ => wp_bind.mpr ?_
  refine wp_mono (h5.vmInitMap (by decide)) fun _ s6 ⟨v6, h6⟩ => wp_bind.mpr ?_
  refine wp_mono (h6.vmInitMap (by decide)) fun _ s7 ⟨v7, h7⟩ => wp_bind.mpr ?_
  refine wp_mono (h7.vmInitMap (by decide)) fun _ s8 ⟨v8, h8⟩ => wp_bind.mpr ?_
  exact wp_mono h8.memoryTest fun _ s9 h9 => wp_pure.mpr h9

lemma wp_vmmInit (hlist : s.pageFreeList = b.layout.freePages) (hleft : s.pageleft = b.layout.freePages.length)
    (href : ∀ f, s.ref f = if f < b.layout.pageused then 1 else 0) (hid : s.ident = []) :
    wp (vmmInit b) (fun _ s' => ∃ v, Kernel b.layout s' v) NotRefZero s := by
  rw [vmmInit, wp_bind]
  refine wp_pmAlloc (fun _ => nofun) fun pd rest hs => ?_
  rw [wp_bind, wp_modify]
  have hseed : Seeded b.layout { s.take pd rest with kernPd := pd } rest := by
    refine ⟨hlist.symm.trans hs, rfl, ?_, fun i => ?_, href, hid⟩
    · change s.pageleft - 1 = rest.length
      rw [hleft, ← hlist, hs, length_cons, Nat.add_sub_cancel]
    · exact congrFun (Function.update_self pd (fun _ => 0) s.mem) i
  exact hseed.kernel.vmInitMaps

lemma wp_boot (b : Board) (mem : ℕ → ℕ → BitVec 64) :
    wp (boot b) (fun _ s => ∃ v, Kernel b.layout s v) NotRefZero (powerOn b mem) := by
  rw [boot, wp_bind, pmmInit, wp_modify]
  refine wp_vmmInit ((foldl_cons ..).trans (append_nil _)) ?_ (fun _ => rfl) rfl
  exact (length_freePages (L := b.layout)).symm

end FarmOS.Mm

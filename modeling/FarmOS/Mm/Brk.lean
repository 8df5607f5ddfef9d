import FarmOS.Mm.RangeCalls
import FarmOS.Mm.SharedFork

/-! The heap of a process under `sys_brk`, loads and stores. -/

namespace FarmOS.Mm

open Lib Function Nat

variable {L : Layout} {img : Image L} {s s' s0 : Phys} {v v' : View} {procs : List ℕ} {p q n low limit bound : ℕ}
  {va va2 start brk addr : BitVec 64} {w : Pte} {mem : BitVec 64 → Byte} {b : Byte}

def heapPerm : Pte := pteR ||| pteW ||| pteU

def roundUp (a : ℕ) : ℕ := (a + 4095) / 4096 * 4096

lemma roundUp_mono {a b : ℕ} (h : a ≤ b) : roundUp a ≤ roundUp b :=
  Nat.mul_le_mul_right _ (Nat.div_le_div_right (Nat.add_le_add_right h _))

def InHeap (low : ℕ) (brk va : BitVec 64) : Prop := ∃ va', SamePage va va' ∧ low ≤ va'.toNat ∧ va'.toNat < brk.toNat

structure Ready (mem : BitVec 64 → Byte) (p : ℕ) (s : Phys) (va : BitVec 64) : Prop where
  usable (write : Bool) : Usable write (look s p va)
  own : ¬ Shared (look s p va)
  byte : content s p va = mem va

lemma Ready.congr {mem' : BitVec 64 → Byte} (h : Ready mem p s va) (he : mem' va = mem va) : Ready mem' p s va :=
  ⟨h.usable, h.own, h.byte.trans he.symm⟩

def Unmade (mem : BitVec 64 → Byte) (p : ℕ) (s : Phys) (va : BitVec 64) : Prop := look s p va = 0 ∧ mem va = 0

structure Heap (L : Layout) (procs : List ℕ) (p low limit : ℕ) (brk : BitVec 64) (mem : BitVec 64 → Byte) (s : Phys)
    (v : View) : Prop where
  walled : Walled L s v []
  roots : v.roots = procs
  above_low : low ≤ brk.toNat
  below_limit : brk.toNat ≤ limit
  inside (va : BitVec 64) : low ≤ va.toNat → va.toNat < roundUp brk.toNat → Ready mem p s va
  outside (va : BitVec 64) : roundUp brk.toNat ≤ va.toNat → va.toNat < limit → Unmade mem p s va

lemma Edit.keeps (he : Edit L s v p start w s' v') (hw : Walled L s v []) (hroot : p ∈ v.roots)
    (hne : ¬ SamePage va start) : Mm.look s' p va = Mm.look s p va ∧ content s' p va = content s p va := by
  have hput : put (Mm.look s) p start w p va = Mm.look s p va := if_neg fun hc => hne hc.2
  refine ⟨(he.look hw.inv.shape hroot va).trans hput, ?_⟩
  exact content_rewritten he.rewritten hw.inv.shape hw.dead hroot (fun f => hw.plain p va f hroot) (by rw [hput])

section Grow

structure Growing (L : Layout) (procs : List ℕ) (p low limit bound : ℕ) (mem : BitVec 64 → Byte) (s0 : Phys)
    (start : BitVec 64) (n : ℕ) (s : Phys) (v : View) : Prop where
  walled : Walled L s v []
  roots : v.roots = procs
  ready (va : BitVec 64) : low ≤ va.toNat → va.toNat < limit → va.toNat < bound ∨ Pages start n va → Ready mem p s va
  unmade (va : BitVec 64) : bound ≤ va.toNat → va.toNat < limit → ¬ Pages start n va → Unmade mem p s va
  frame (r : ℕ) (va : BitVec 64) : r ∈ procs → ¬ (r = p ∧ Pages start n va) → look s r va = look s0 r va

lemma Fill.usable (hf : Fill L s heapPerm w) (write : Bool) : Usable write w := by
  have hb := hf.sameBits
  refine ⟨(hb 4 (by decide) (by decide)).trans (by decide), .inl ?_⟩
  cases write with
  | true => exact (hb 2 (by decide) (by decide)).trans (by decide)
  | false => exact (hb 1 (by decide) (by decide)).trans (by decide)

lemma Usable.present {write : Bool} (h : Usable write w) : Present w := by
  by_cases hV : has w pteV = true
  · exact .inl hV
  · refine .inr ?_
    rw [ptePassive, h.1, Bool.not_eq_true _ |>.mp hV]
    rfl

lemma content_of_frameless (h : pteToPa (look s p va) = 0) : content s p va = 0 := by
  have ht : target (look s p va) = none := by
    rw [target, h, if_neg fun hc => absurd hc.2 (by decide)]
  rw [content, ht]

variable (h : Growing L procs p low limit bound mem s0 start n s v) (hp : p ∈ procs)
include h hp

lemma Growing.edited (hedit : Edit L s v p (start + BitVec.ofNat 64 (4096 * n)) w s' v')
    (h0 : pteToPa (look s p (start + BitVec.ofNat 64 (4096 * n))) = 0) (hf : Fill L s heapPerm w)
    (hz : ∀ f, target w = some f → ∀ i, s'.mem f i = 0) :
    Growing L procs p low limit bound mem s0 start (n + 1) s' v' := by
  have hw := h.walled
  have hroot : p ∈ v.roots := h.roots ▸ hp
  have hlook : ∀ r ∈ procs, ∀ va, look s' r va = put (look s) p (start + BitVec.ofNat 64 (4096 * n)) w r va :=
    fun r hr va => hedit.look hw.inv.shape (h.roots ▸ hr) va
  refine ⟨hw.fill hroot hedit hf (by decide) (by decide) (by decide), hedit.rewritten.kept.roots.trans h.roots,
    fun va hl hh hin => ?_, fun va hb hh hn => ?_, fun r va hr hn => ?_⟩
  · by_cases hpage : SamePage va (start + BitVec.ofNat 64 (4096 * n))
    · have hold : pteToPa (look s p va) = 0 := by rw [hpage.look s p, h0]
      have hmem : mem va = 0 := by
        by_cases hr : va.toNat < bound ∨ Pages start n va
        · exact (h.ready va hl hh hr).byte.symm.trans (content_of_frameless hold)
        · rw [not_or, not_lt] at hr
          exact (h.unmade va hr.1 hh hr.2).2
      have hnew : look s' p va = w := by rw [hlook p hp va, put, if_pos ⟨rfl, hpage⟩]
      refine ⟨fun write => ?_, ?_, ?_⟩
      · rw [hnew]
        exact hf.usable write
      · rw [hnew, hf.shared]
        decide
      · rw [hmem]
        exact content_zero fun f ht => hz f (hnew ▸ ht)
    · obtain ⟨hl', hc'⟩ := hedit.keeps hw hroot hpage
      have hr := h.ready va hl hh (hin.imp_right fun hp => (pages_succ.mp hp).resolve_right hpage)
      exact ⟨fun write => hl' ▸ hr.usable write, hl' ▸ hr.own, hc'.trans hr.byte⟩
  · have hpage : ¬ SamePage va (start + BitVec.ofNat 64 (4096 * n)) := fun hc => hn (pages_succ.mpr (.inr hc))
    obtain ⟨hl', -⟩ := hedit.keeps hw hroot hpage
    have hu := h.unmade va hb hh fun hc => hn (pages_succ.mpr (.inl hc))
    exact ⟨hl'.trans hu.1, hu.2⟩
  · rw [hlook r hr va, put, if_neg fun hc => hn ⟨hc.1, pages_succ.mpr (.inr hc.2)⟩]
    exact h.frame r va hr fun hc => hn ⟨hc.1, pages_succ.mpr (.inl hc.2)⟩

lemma Growing.mapPage : wp (mapPage p heapPerm (start + BitVec.ofNat 64 (4096 * n))) (fun _ s' =>
    ∃ v', Growing L procs p low limit bound mem s0 start (n + 1) s' v') NotRefZero s := by
  have hw := h.walled
  have hground : Grounded L s v := ⟨hw.inv, hw.dead, fun r va hr => (hw.iso.sober r va hr).ram⟩
  refine wp_mono (hground.mapPage (h.roots ▸ hp) (by decide) (by decide)) fun _ s' h' => ?_
  rcases h' with ⟨hn, rfl⟩ | ⟨v', w, h0, hf, he, hz⟩
  · -- the page has a frame already
    refine ⟨v, hw, h.roots, fun va hl hh hin => ?_, fun va hb hh hn' => ?_, fun r va hr hn' => ?_⟩
    · by_cases hr : va.toNat < bound ∨ Pages start n va
      · exact h.ready va hl hh hr
      · rw [not_or, not_lt] at hr
        have hpage := (pages_succ.mp (hin.resolve_left (not_lt.mpr hr.1))).resolve_left hr.2
        have hu := (h.unmade va hr.1 hh hr.2).1
        rw [hpage.look s' p] at hu
        exact absurd (by rw [hu]; rfl) hn
    · exact h.unmade va hb hh fun hc => hn' (pages_succ.mpr (.inl hc))
    · exact h.frame r va hr fun hc => hn' ⟨hc.1, pages_succ.mpr (.inl hc.2)⟩
  · exact ⟨v', h.edited hp he h0 hf hz⟩

end Grow

section Shrink

structure Shrinking (L : Layout) (procs : List ℕ) (p : ℕ) (s0 : Phys) (start : BitVec 64) (n : ℕ) (s : Phys)
    (v : View) : Prop where
  walled : Walled L s v []
  roots : v.roots = procs
  gone (va : BitVec 64) : Pages start n va → look s p va = 0
  byte (va : BitVec 64) : ¬ Pages start n va → content s p va = content s0 p va
  frame (r : ℕ) (va : BitVec 64) : r ∈ procs → ¬ (r = p ∧ Pages start n va) → look s r va = look s0 r va

lemma Shrinking.unmapPage (h : Shrinking L procs p s0 start n s v) (hp : p ∈ procs) :
    wp (Mm.unmapPage p (start + BitVec.ofNat 64 (4096 * n)))
      (fun _ s' => ∃ v', Shrinking L procs p s0 start (n + 1) s' v') NotRefZero s := by
  have hw := h.walled
  have hroot : p ∈ v.roots := h.roots ▸ hp
  have hground : Grounded L s v := ⟨hw.inv, hw.dead, fun r va hr => (hw.iso.sober r va hr).ram⟩
  refine wp_mono (hground.unmapPage hroot) fun _ s' he => ⟨v, ?_⟩
  have hlook : ∀ r ∈ procs, ∀ va, look s' r va = put (look s) p (start + BitVec.ofNat 64 (4096 * n)) 0 r va :=
    fun r hr va => he.look hw.inv.shape (h.roots ▸ hr) va
  refine ⟨hw.clear hroot he rfl, h.roots, fun va hin => ?_, fun va hn => ?_, fun r va hr hn => ?_⟩
  · rw [hlook p hp va]
    unfold put
    split
    · rfl
    · next hc => exact h.gone va ((pages_succ.mp hin).resolve_right fun hs => hc ⟨rfl, hs⟩)
  · rw [(he.keeps hw hroot fun hs => hn (pages_succ.mpr (.inr hs))).2]
    exact h.byte va fun hc => hn (pages_succ.mpr (.inl hc))
  · rw [hlook r hr va, put, if_neg fun hc => hn ⟨hc.1, pages_succ.mpr (.inr hc.2)⟩]
    exact h.frame r va hr fun hc => hn ⟨hc.1, pages_succ.mpr (.inl hc.2)⟩

end Shrink

def Moves (low limit : ℕ) (brk addr : BitVec 64) : Prop :=
  addr = 0 ∨ (brk.toNat ≤ addr.toNat ∧ addr.toNat ≤ limit ∧ (addr = brk ∨ addr.toNat % 4096 ≠ 1)) ∨
    low ≤ addr.toNat ∧ addr.toNat < brk.toNat ∧ addr.toNat + brk.toNat < roundUp brk.toNat

def cut (brk : BitVec 64) (mem : BitVec 64 → Byte) (va : BitVec 64) : Byte :=
  if roundUp brk.toNat ≤ va.toNat then 0 else mem va

lemma Heap.settled (h : Heap L procs p low limit brk mem s v) : Heap L procs p low limit brk (cut brk mem) s v :=
  ⟨h.walled, h.roots, h.above_low, h.below_limit,
    fun va hl hh => (h.inside va hl hh).congr (if_neg (not_le.mpr hh)),
    fun va hb hh => ⟨(h.outside va hb hh).1, if_pos hb⟩⟩

lemma Heap.shrunk (hlim : limit % 4096 = 0) (hp : p ∈ procs) (h : Heap L procs p low limit brk mem s v)
    (hl : low ≤ addr.toNat) (hlt : addr.toNat < brk.toNat) (hg : Shrinking L procs p s start n s' v')
    (hpages : ∀ va : BitVec 64, va.toNat < limit →
      (Pages start n va ↔ roundUp addr.toNat ≤ va.toNat ∧ va.toNat < roundUp brk.toNat)) :
    Heap L procs p low limit addr (cut addr mem) s' v' := by
  have hbl := h.below_limit
  refine ⟨hg.walled, hg.roots, hl, by omega, fun va hlo hh => ?_, fun va hb hh => ⟨?_, if_pos hb⟩⟩
  · have hup := roundUp_mono (le_of_lt hlt)
    have hva : va.toNat < limit := by
      rw [roundUp] at hh
      omega
    have hn : ¬ Pages start n va := fun hc => absurd ((hpages va hva).mp hc).1 (not_le.mpr hh)
    have hr := h.inside va hlo (lt_of_lt_of_le hh hup)
    have hlook := hg.frame p va hp fun hc => hn hc.2
    refine ⟨fun write => hlook ▸ hr.usable write, hlook ▸ hr.own, ?_⟩
    rw [hg.byte va hn, hr.byte, cut, if_neg (not_le.mpr hh)]
  · by_cases hold : va.toNat < roundUp brk.toNat
    · exact hg.gone va ((hpages va hh).mpr ⟨hb, hold⟩)
    · rw [hg.frame p va hp fun hc => hold ((hpages va hh).mp hc.2).2]
      exact (h.outside va (not_lt.mp hold) hh).1

section Moves

variable (hlow : low % 4096 = 0) (hlim : limit % 4096 = 0) (hlimit : limit ≤ 2 ^ 38) (hp : p ∈ procs)
  (h : Heap L procs p low limit brk mem s v)
include hlow hlim hlimit hp h

lemma Heap.grow (h0 : addr ≠ 0) (hle : brk.toNat ≤ addr.toNat) (hbound : addr.toNat ≤ limit)
    (hend : addr = brk ∨ addr.toNat % 4096 ≠ 1) :
    wp (sysMap p brk (addr - brk) heapPerm) (fun r s' => r = 0 ∧ ∃ v',
      Heap L procs p low limit addr (cut addr mem) s' v' ∧
      ∀ r va, r ∈ procs → ¬ (r = p ∧ InHeap low addr va) → look s' r va = look s r va) NotRefZero s := by
  have hpos : 0 < addr.toNat := pos_of_ne_zero fun hz => h0 (BitVec.eq_of_toNat_eq hz)
  have hlast : (brk + (addr - brk) - 1).toNat = addr.toNat - 1 := by
    have h1 : (1 : BitVec 64).toNat = 1 := rfl
    rw [BitVec.add_comm, BitVec.sub_add_cancel, BitVec.toNat_sub, h1]
    omega
  have hup : (mapEnd brk (addr - brk)).toNat = roundUp (addr.toNat - 1) := by
    rw [mapEnd, toNat_pgRoundUpVa (by rw [hlast]; omega), hlast, roundUp]
  have hcount : mapCount brk (addr - brk) = roundUp (addr.toNat - 1) / 4096 - brk.toNat / 4096 := by
    rw [mapCount, hup]
  have hbl := h.above_low
  have hbm := h.below_limit
  have hpages : ∀ {va : BitVec 64}, va.toNat < limit → (Pages (pgRoundDown brk) (mapCount brk (addr - brk)) va ↔
      brk.toNat / 4096 ≤ va.toNat / 4096 ∧ va.toNat / 4096 < roundUp (addr.toNat - 1) / 4096) := by
    intro va hva
    constructor
    · rintro ⟨j, hj, hs⟩
      have hpage := toNat_mapPage (le_of_lt hj)
      rw [hcount, roundUp] at hj
      rw [samePage_canonical (by omega) (by rw [hpage]; omega), hpage] at hs
      rw [roundUp]
      omega
    · rintro ⟨hlo, hhi⟩
      have hj : va.toNat / 4096 - brk.toNat / 4096 < mapCount brk (addr - brk) := by omega
      refine ⟨_, hj, samePage_of_div ?_⟩
      rw [toNat_mapPage (le_of_lt hj)]
      omega
  have hstart : Growing L procs p low limit (roundUp brk.toNat) mem s (pgRoundDown brk) 0 s v :=
    ⟨h.walled, h.roots, fun va hl _ hin => h.inside va hl (hin.resolve_right not_pages_zero),
      fun va hb hh _ => h.outside va hb hh, fun _ _ _ _ => rfl⟩
  refine wp_seq (wp_whilePages_count (I := fun j s' => ∃ v',
    Growing L procs p low limit (roundUp brk.toNat) mem s (pgRoundDown brk) j s' v') (mapCount_lt brk (addr - brk))
    (fun j hj => (mapPage_lt (le_of_lt hj)).trans (decide_eq_true hj))
    ((mapPage_lt (le_refl _)).trans (decide_eq_false (lt_irrefl _))) ⟨v, hstart⟩ ?_) ?_
  · rintro j s' - ⟨v', hg⟩
    exact hg.mapPage hp
  rintro _ s' ⟨v', hg⟩
  refine wp_pure.mpr ⟨rfl, v', ?_, fun r va hr hn => ?_⟩
  · refine ⟨hg.walled, hg.roots, le_trans hbl hle, hbound, fun va hl hh => ?_, fun va hb hh => ?_⟩
    · have hva : va.toNat < limit := by
        rw [roundUp] at hh
        omega
      refine (hg.ready va hl hva ?_).congr (if_neg (not_le.mpr hh))
      rw [hpages hva]
      rw [roundUp] at hh ⊢
      rw [roundUp]
      rcases hend with rfl | hend <;> omega
    · refine ⟨(hg.unmade va (le_trans (roundUp_mono hle) hb) hh ?_).1, if_pos hb⟩
      rw [hpages hh]
      rw [roundUp] at hb ⊢
      omega
  · refine hg.frame r va hr fun hpage => hn ⟨hpage.1, ?_⟩
    obtain ⟨j, hj, hs⟩ := hpage.2
    have hnat := toNat_mapPage (le_of_lt hj)
    rw [hcount, roundUp] at hj
    refine ⟨_, hs, ?_, ?_⟩ <;> rw [hnat] <;> omega

lemma Heap.shrink (h0 : addr ≠ 0) (hl : low ≤ addr.toNat) (hlt : addr.toNat < brk.toNat)
    (hfit : addr.toNat + brk.toNat < roundUp brk.toNat) :
    wp (sysUnmap p (addr + 1) brk) (fun r s' => r = 0 ∧ ∃ v', Heap L procs p low limit addr (cut addr mem) s' v' ∧
      ∀ r va, r ∈ procs → ¬ (r = p ∧ InHeap low brk va) → look s' r va = look s r va) NotRefZero s := by
  have hpos : 0 < addr.toNat := pos_of_ne_zero fun hz => h0 (BitVec.eq_of_toNat_eq hz)
  have hroom : addr.toNat + brk.toNat < limit := by
    have := h.below_limit
    rw [roundUp] at hfit
    omega
  have h1 : (1 : BitVec 64).toNat = 1 := rfl
  have hfrom : (pgRoundUpVa (addr + 1)).toNat = roundUp (addr.toNat + 1) := by
    have hadd : (addr + 1).toNat = addr.toNat + 1 := by
      rw [BitVec.toNat_add, h1]
      omega
    rw [toNat_pgRoundUpVa (by omega), hadd, roundUp]
  have hto : (unmapEnd (addr + 1) brk).toNat = (addr.toNat + brk.toNat) / 4096 * 4096 := by
    have hadd : (addr + 1 + brk - 1).toNat = addr.toNat + brk.toNat := by
      rw [BitVec.toNat_sub, BitVec.toNat_add, BitVec.toNat_add, h1]
      omega
    rw [unmapEnd, toNat_pgRoundDown, hadd]
  have hpage : ∀ j, 4096 * j ≤ limit → (pgRoundUpVa (addr + 1) + BitVec.ofNat 64 (4096 * j)).toNat =
      roundUp (addr.toNat + 1) + 4096 * j := fun j hj => by
    rw [← hfrom]
    exact toNat_add_ofNat (by rw [hfrom, roundUp]; omega)
  obtain ⟨n, hn⟩ : ∃ n, n = (addr.toNat + brk.toNat) / 4096 + 1 - roundUp (addr.toNat + 1) / 4096 := ⟨_, rfl⟩
  have hmore : ∀ j ≤ n, decide (pgRoundUpVa (addr + 1) + BitVec.ofNat 64 (4096 * j) ≤ unmapEnd (addr + 1) brk) =
      decide (j < n) := fun j hj => by
    rw [decide_eq_decide, BitVec.le_def, hpage j (by omega), hto, roundUp]
    rw [roundUp] at hn
    omega
  have hstart : Shrinking L procs p s (pgRoundUpVa (addr + 1)) 0 s v :=
    ⟨h.walled, h.roots, fun _ hj => absurd hj not_pages_zero, fun _ _ => rfl, fun _ _ _ _ => rfl⟩
  refine wp_seq (wp_whilePages_count (I := fun j s' => ∃ v',
    Shrinking L procs p s (pgRoundUpVa (addr + 1)) j s' v') (by rw [allPages]; omega)
    (fun j hj => (hmore j (le_of_lt hj)).trans (decide_eq_true hj))
    ((hmore n (le_refl _)).trans (decide_eq_false (lt_irrefl _))) ⟨v, hstart⟩ ?_) ?_
  · rintro j s' hj ⟨v', hg⟩
    exact hg.unmapPage hp
  rintro _ s' ⟨v', hg⟩
  refine wp_pure.mpr ⟨rfl, v', ?_⟩
  have hsmall : addr.toNat < 4095 ∧ brk.toNat % 4096 ≠ 0 := by
    rw [roundUp] at hfit
    omega
  have hup : roundUp (addr.toNat + 1) = 4096 ∧ roundUp addr.toNat = 4096 := by
    rw [roundUp, roundUp]
    omega
  have hpages : ∀ va : BitVec 64, va.toNat < limit → (Pages (pgRoundUpVa (addr + 1)) n va ↔
      roundUp addr.toNat ≤ va.toNat ∧ va.toNat < roundUp brk.toNat) := by
    intro va hva
    rw [hup.1] at hn hpage
    rw [hup.2]
    rw [roundUp] at hfit ⊢
    constructor
    · rintro ⟨j, hj, hs⟩
      have hnat := hpage j (by omega)
      rw [samePage_canonical (by omega) (by omega), hnat] at hs
      omega
    · rintro ⟨hlo, hhi⟩
      refine ⟨va.toNat / 4096 - 1, by omega, samePage_of_div ?_⟩
      rw [hpage _ (by omega)]
      omega
  refine ⟨h.shrunk hlim hp hl hlt hg hpages, fun r va hr hc => hg.frame r va hr fun hin => hc ⟨hin.1, ?_⟩⟩
  obtain ⟨j, hj, hs⟩ := hin.2
  have hnat := hpage j (by omega)
  rw [hup.1] at hnat hn
  rw [roundUp] at hfit
  exact ⟨_, hs, by omega, by omega⟩

lemma Heap.sysBrk (hm : Moves low limit brk addr) : wp (sysBrk p brk addr) (fun a s' =>
    a.2 = (if addr = 0 then brk else addr) ∧ a.1 = errT a.2 ∧ ∃ v', Heap L procs p low limit a.2 (cut a.2 mem) s' v' ∧
      ∀ r va, r ∈ procs → ¬ (r = p ∧ (InHeap low brk va ∨ InHeap low a.2 va)) → look s' r va = look s r va)
    NotRefZero s := by
  unfold Mm.sysBrk
  rw [wp_ite]
  refine ⟨fun h0 => wp_pure.mpr ⟨(if_pos h0).symm, rfl, v, h.settled, fun _ _ _ _ => rfl⟩, fun h0 => wp_ite.mpr
    ⟨fun hlt => wp_bind.mpr ?_, fun hge => wp_bind.mpr ?_⟩⟩
  · have hlt' := BitVec.lt_def.mp hlt
    obtain ⟨hl, -, hfit⟩ := (hm.resolve_left h0).resolve_left fun hc => absurd hc.1 (not_le.mpr hlt')
    refine wp_mono (h.shrink hlow hlim hlimit hp h0 hl hlt' hfit) fun r s' ⟨hr, v', hh, hf⟩ => ?_
    rw [wp_pure, if_neg h0, hr, if_neg (by decide)]
    exact ⟨rfl, rfl, v', hh, fun r va hr hn => hf r va hr fun hc => hn ⟨hc.1, .inl hc.2⟩⟩
  · obtain ⟨hle, hbound, hend⟩ := (hm.resolve_left h0).resolve_right fun hc => hge (BitVec.lt_def.mpr hc.2.1)
    refine wp_mono (h.grow hlow hlim hlimit hp h0 hle hbound hend) fun r s' ⟨hr, v', hh, hf⟩ => ?_
    rw [wp_pure, if_neg h0, hr, if_neg (by decide)]
    exact ⟨rfl, rfl, v', hh, fun r va hr hn => hf r va hr fun hc => hn ⟨hc.1, .inr hc.2⟩⟩

end Moves

section Accesses

def KeepsHidden (procs : List ℕ) (s s' : Phys) : Prop :=
  ∀ r va, r ∈ procs → has (look s r va) pteU = false → look s' r va = look s r va

variable (hw : Walled L s v []) (hr : v.roots = procs) (hq : q ∈ procs)
include hw hr hq

lemma Walled.fault_keeps {violate : Pte} :
    wp (Mm.pageFaultHandler q violate va2) (fun _ s' => KeepsHidden procs s s') NotRefZero s := by
  subst hr
  have hplaced : ∀ {perm content s'}, has (look s q va2) pteU = true → Placed L s v [] q va2 perm content s' →
      KeepsHidden v.roots s s' := by
    intro perm content s' hU hpl r va hr hn
    obtain ⟨v', f, he, -⟩ := hpl.edit
    rw [he.look hw.inv.shape hr, put, if_neg]
    rintro ⟨rfl, hpage⟩
    rw [hpage.look s r] at hn
    exact Bool.false_ne_true (hn.symm.trans hU)
  refine wp_mono (hw.inv.pageFaultHandler hw.dead hq) fun _ s' h' => ?_
  rcases h' with ⟨hc, -, hpl⟩ | ⟨hp, -, hpl⟩ | ⟨-, -, -, rfl⟩
  · exact hplaced hc.2.2.1 hpl
  · exact hplaced hp.2.2 hpl
  · exact fun _ _ _ _ => rfl

lemma Walled.access_keeps {need : Pte} : wp (Mm.userAccess need q va2) (fun ok s' =>
    KeepsHidden procs s s' ∧ (ok = true → has (look s q va2) pteU = true)) NotRefZero s := by
  have hallow : ∀ {pte : Pte}, allows need pte = true → has pte pteU = true := fun ha => by
    rw [allows, Bool.and_eq_true, Bool.and_eq_true] at ha
    exact ha.1.2
  simp only [Mm.userAccess, trapPgfault, wp_bind, wp_ptLookup, wp_ite, wp_pure]
  refine ⟨fun ha => ⟨fun _ _ _ _ => rfl, fun _ => hallow ha⟩, fun _ => ?_⟩
  refine wp_mono (hw.fault_keeps hr hq) fun r s' hk => ⟨fun _ => ⟨hk, by simp⟩, fun _ => ⟨hk, fun ha => ?_⟩⟩
  by_contra hn
  rw [hk q va2 hq (by simpa using hn)] at ha
  exact hn (hallow ha)

lemma Walled.load_keeps : wp (Mm.userLoad q va2) (fun _ s' => KeepsHidden procs s s') NotRefZero s := by
  simp only [Mm.userLoad, wp_bind]
  refine wp_mono (hw.access_keeps hr hq) fun _ _ h' => ?_
  simp only [wp_ite, wp_bind, wp_ptLookup, wp_get, wp_pure]
  exact ⟨fun _ => h'.1, fun _ => h'.1⟩

lemma Walled.store_keeps (hva : va2.toNat < 2 ^ 38) : wp (Mm.userStore q va2 b) (fun ok s' =>
    KeepsHidden procs s s' ∧ (ok = true → has (look s q va2) pteU = true)) NotRefZero s := by
  simp only [Mm.userStore, wp_bind]
  refine wp_mono (wp_and (hw.userAccess (hr ▸ hq) true) (hw.access_keeps hr hq)) ?_
  rintro ok s' ⟨⟨v', hc, hok, _⟩, hk, hU⟩
  simp only [wp_ite, wp_bind, wp_ptLookup, wp_modify, wp_pure]
  refine ⟨fun ho => ⟨fun r va hr' hn => ?_, fun _ => hU ho⟩, fun _ => ⟨hk, by simp⟩⟩
  have hlen : pageOff va2 + [b].length ≤ 4096 := mod_lt _ (by decide)
  obtain ⟨-, hag, -⟩ := hc.walled.write [b] (hc.roots.symm ▸ hr ▸ hq) hva (hok ho) hlen
  have hroot : r ∈ v'.roots := hc.roots.symm ▸ hr ▸ hr'
  refine Eq.trans ?_ (hk r va hr' hn)
  exact hag.look hc.walled.inv.shape hc.walled.dead (hc.walled.inv.shape.root_of_mem hroot)

end Accesses

lemma stored_byte (ok : Bool) : (if p = q then ((if ok = true then covers va2.toNat [b] else fun _ => none)
    va).getD (mem va) else mem va) = (if ok = true ∧ q = p then update mem va2 b else mem) va := by
  by_cases hpq : p = q
  · subst hpq
    cases ok with
    | false => simp
    | true =>
      rw [if_pos rfl, if_pos rfl, if_pos ⟨rfl, rfl⟩]
      by_cases he : va = va2
      · subst he
        simp [covers]
      · have hne : va.toNat ≠ va2.toNat := fun hc => he (BitVec.eq_of_toNat_eq hc)
        rw [update_of_ne he, covers]
        split
        · rw [List.getElem?_eq_none (by simp; omega), Option.getD_none]
        · rfl
  · rw [if_neg hpq, if_neg fun hc => hpq hc.2.symm]

section Uses

variable (h : Heap L procs p low limit brk mem s v) (hp : p ∈ procs) (hq : q ∈ procs)
include h hp hq

lemma Heap.load (va2 : BitVec 64) : wp (userLoad q va2) (fun _ s' => ∃ v', Heap L procs p low limit brk mem s' v')
    NotRefZero s := by
  have hw := h.walled
  refine wp_mono (wp_and (hw.userLoad (h.roots ▸ hq)) (hw.load_keeps h.roots hq)) fun _ s' ⟨⟨v', hs, _⟩, hk⟩ => ?_
  have hroot : p ∈ v.roots := h.roots ▸ hp
  refine ⟨v', hs.walled, hs.roots.trans h.roots, h.above_low, h.below_limit, fun va hl hh => ?_, fun va hb hh => ?_⟩
  · have hr := h.inside va hl hh
    refine ⟨fun write => hs.quiet.usable write p va hroot (hr.usable write), fun hsh => hr.own ?_,
      (hs.quiet.content p va hroot).trans hr.byte⟩
    exact (hs.quiet.shared p va hroot).symm.trans hsh
  · obtain ⟨h0, hm⟩ := h.outside va hb hh
    refine ⟨(hk p va hp ?_).trans h0, hm⟩
    rw [h0]
    decide

lemma Heap.store (hlim : limit % 4096 = 0) (hlimit : limit ≤ 2 ^ 38) (hva : va2.toNat < 2 ^ 38) :
    wp (Mm.userStore q va2 b) (fun ok s' => ∃ v', Heap L procs p low limit brk
      (if ok = true ∧ q = p then update mem va2 b else mem) s' v')
    NotRefZero s := by
  have hw := h.walled
  refine wp_mono (wp_and ((walled_stable _ _).userStore hw (h.roots ▸ hq) hva) (hw.store_keeps h.roots hq hva))
    fun ok s' ⟨⟨_, v', hw', hr', hst⟩, hk, hU⟩ => ?_
  have hroot : p ∈ v.roots := h.roots ▸ hp
  refine ⟨v', hw', hr'.trans h.roots, h.above_low, h.below_limit, fun va hl hh => ?_, fun va hb hh => ?_⟩
  · have hr := h.inside va hl hh
    refine ⟨fun write => hst.usable write p va hroot (hr.usable write), fun hsh => hr.own ?_, ?_⟩
    · exact (hst.shared p va hroot).symm.trans hsh
    · have hlt : va.toNat < 2 ^ 38 := by
        rw [roundUp] at hh
        have := h.below_limit
        omega
      rw [hst.content p va hroot hlt fun hc => hr.own hc.1, hr.byte]
      exact stored_byte ok
  · obtain ⟨h0, hm⟩ := h.outside va hb hh
    have hnot : has (look s p va) pteU = false := by
      rw [h0]
      decide
    refine ⟨(hk p va hp hnot).trans h0, ?_⟩
    split
    · next hc =>
      rw [update_of_ne, hm]
      rintro rfl
      exact Bool.false_ne_true (hnot.symm.trans (hc.2 ▸ hU hc.1))
    · exact hm

end Uses

structure Heaped where
  sys : Sharing
  mem : BitVec 64 → Byte

variable {x x' : Sharing} {y y' : Heaped} {l : Life}

def Life.memory (p : ℕ) (x' : Sharing) (mem : BitVec 64 → Byte) : Life → BitVec 64 → Byte
  | doing _ => cut (x'.users.brk p) mem
  | load _ _ _ => mem
  | store q va b ok => if ok = true ∧ q = p then update mem va b else mem

def Heaped.Step (img : Image L) (p : ℕ) (y : Heaped) (l : Life) (y' : Heaped) : Prop :=
  l.Step img y.sys y'.sys ∧ y'.mem = l.memory p y'.sys y.mem

def Life.Brks (p low limit : ℕ) (x : Sharing) : Life → Prop
  | doing (.call q (.brk addr)) => q = p ∧ Moves low limit (x.users.brk p) addr
  | doing _ => False
  | load _ _ _ | store _ _ _ _ => True

lemma Heap.live (hlow : low % 4096 = 0) (hlim : limit % 4096 = 0) (hlimit : limit ≤ 2 ^ 38)
    (h : Heap L x.users.procs p low limit (x.users.brk p) mem x.users.phys v) (hp : p ∈ x.users.procs)
    (hstep : l.Step img x x') (hb : l.Brks p low limit x) : p ∈ x'.users.procs ∧
      ∃ v', Heap L x'.users.procs p low limit (x'.users.brk p) (l.memory p x' mem) x'.users.phys v' := by
  cases hstep with
  | doing hd =>
    rename_i d
    match d, hb with
    | .call q (.brk addr), ⟨hq, hm⟩ =>
      subst hq
      have hcall : wp (Call.exec q (x.users.brk q) (x.users.mmapAddr q) (.brk addr)) (fun a s' => ∃ v',
          Heap L x.users.procs q low limit a.1 (cut a.1 mem) s' v') NotRefZero x.users.phys :=
        wp_seq (h.sysBrk hlow hlim hlimit hp hm) fun _ _ ⟨_, _, v', hh, _⟩ => wp_pure.mpr ⟨v', hh⟩
      obtain ⟨a, s, rfl, v', hh⟩ := ok_of_runWith hcall hd.2
      refine ⟨hp, v', ?_⟩
      rw [Life.memory, Users.update]
      simpa using hh
  | load hq _ hrun => exact ⟨hp, wp_of_ok (h.load hp hq _) hrun⟩
  | store hq hva hrun => exact ⟨hp, wp_of_ok (h.store hp hq hlim hlimit hva) hrun⟩

structure HeapKept (p low limit : ℕ) (y : Heaped) : Prop where
  mapped (va : BitVec 64) : low ≤ va.toNat → va.toNat < (y.sys.users.brk p).toNat →
    Present (look y.sys.users.phys p va)
  readable (va : BitVec 64) : low ≤ va.toNat → va.toNat < (y.sys.users.brk p).toNat →
    wp (userLoad p va) (fun r _ => r = some (y.mem va)) OutOfMemory y.sys.users.phys
  unmapped (va : BitVec 64) : roundUp (y.sys.users.brk p).toNat ≤ va.toNat → va.toNat < limit →
    look y.sys.users.phys p va = 0
  moves (addr : BitVec 64) : Moves low limit (y.sys.users.brk p) addr →
    wp (sysBrk p (y.sys.users.brk p) addr) (fun a s' =>
      a.2 = (if addr = 0 then y.sys.users.brk p else addr) ∧ a.1 = errT a.2 ∧ ∀ r va, r ∈ y.sys.users.procs →
        ¬ (r = p ∧ (InHeap low (y.sys.users.brk p) va ∨ InHeap low a.2 va)) →
          look s' r va = look y.sys.users.phys r va) NotRefZero y.sys.users.phys

lemma Heap.kept (hlow : low % 4096 = 0) (hlim : limit % 4096 = 0) (hlimit : limit ≤ 2 ^ 38) (hu : 0 < L.pageused)
    (h : Heap L y.sys.users.procs p low limit (y.sys.users.brk p) y.mem y.sys.users.phys v)
    (hp : p ∈ y.sys.users.procs) : HeapKept p low limit y := by
  have hinside : ∀ va : BitVec 64, low ≤ va.toNat → va.toNat < (y.sys.users.brk p).toNat →
      Ready y.mem p y.sys.users.phys va := fun va hl hh => h.inside va hl (by rw [roundUp]; omega)
  refine ⟨fun va hl hh => ?_, fun va hl hh => ?_, fun va hb hh => (h.outside va hb hh).1, fun addr hm => ?_⟩
  · exact ((hinside va hl hh).usable true).present
  · have hr := hinside va hl hh
    rw [← hr.byte]
    exact h.walled.load_content hu (h.roots.symm ▸ hp) (hr.usable false)
  · exact wp_mono (h.sysBrk hlow hlim hlimit hp hm) fun a s' ⟨h1, h2, _, _, h3⟩ => ⟨h1, h2, h3⟩

theorem brk_moves_heap_end (b : Board) (img : Image b.layout) (mem : ℕ → ℕ → BitVec 64) :
    wp (boot b) (fun _ s => ∀ ls x, Run (fun x l x' => Life.Step img x l x' ∧ l.Careful b.layout x) (.start s) ls x →
      ∀ p ∈ x.users.procs, ∀ low limit : ℕ, low = (x.users.brk p).toNat → low % 4096 = 0 → limit % 4096 = 0 →
      low ≤ limit → limit ≤ 2 ^ 38 →
      (∀ va : BitVec 64, low ≤ va.toNat → va.toNat < limit → look x.users.phys p va = 0) →
      ∀ ms y, Run (fun y l y' => Heaped.Step img p y l y' ∧ l.Brks p low limit y.sys) ⟨x, fun _ => 0⟩ ms y →
        HeapKept p low limit y) NotRefZero (powerOn b mem) := by
  refine wp_mono (wp_boot_live b img mem) fun _ s hboot ls x hrun p hp low limit hbrk hlow hlim hle hlimit hfree
    ms y hrun' => ?_
  obtain ⟨v, hv⟩ := hboot ls x hrun
  have hup : roundUp (x.users.brk p).toNat = low := by
    rw [roundUp, ← hbrk]
    omega
  have hstart : Heap b.layout x.users.procs p low limit (x.users.brk p) (fun _ => 0) x.users.phys v := by
    refine ⟨hv.walled, hv.roots, le_of_eq hbrk, hbrk ▸ hle, fun va hl hh => ?_, fun va hb hh => ⟨?_, rfl⟩⟩
    · rw [hup] at hh
      omega
    · exact hfree va (hup ▸ hb) hh
  obtain ⟨hpy, v', hy⟩ := hrun'.invariant (P := fun y : Heaped => p ∈ y.sys.users.procs ∧ ∃ v,
    Heap b.layout y.sys.users.procs p low limit (y.sys.users.brk p) y.mem y.sys.users.phys v) ⟨hp, v, hstart⟩
    fun y l y' ⟨hp, v, hv⟩ hstep => hstep.1.2 ▸ hv.live hlow hlim hlimit hp hstep.1.1 hstep.2
  exact hy.kept hlow hlim hlimit img.used_pos hpy

theorem brk_misses_heap_end : ∃ p s₁, (procInitupt smallImage).run smallMachine = .ok (p, s₁) ∧
    (∃ a s₂ s₃ s₄, (sysMmap p 0x600000000 0x1000 0x1000 protRead mapAnonymous none 0).run s₁ = .ok (a, s₂) ∧
      (sysBrk p 0 0xc00).run s₂ = .ok ((0xc00, 0xc00), s₃) ∧ Present (look s₃ p 0x1000) ∧
      (sysBrk p 0xc00 0x800).run s₃ = .ok ((0x800, 0x800), s₄) ∧ look s₄ p 0x1000 = 0) ∧
    ∃ s₂, (sysBrk p 0x3000000 0x3000001).run s₁ = .ok ((0x3000001, 0x3000001), s₂) ∧
      ¬ Present (look s₂ p 0x3000000) := by
  have hrun : returns (procInitupt smallImage) smallMachine (fun p s =>
      returns (sysMmap p 0x600000000 0x1000 0x1000 protRead mapAnonymous none 0) s (fun _ s =>
        returns (sysBrk p 0 0xc00) s fun a s => decide (a = (0xc00, 0xc00) ∧ Present (look s p 0x1000)) &&
          returns (sysBrk p 0xc00 0x800) s fun a s => decide (a = (0x800, 0x800) ∧ look s p 0x1000 = 0)) &&
      returns (sysBrk p 0x3000000 0x3000001) s fun a s =>
        decide (a = (0x3000001, 0x3000001) ∧ ¬ Present (look s p 0x3000000))) = true := by decide +kernel
  obtain ⟨p, s₁, hinit, hrun⟩ := exists_of_returns hrun
  rw [Bool.and_eq_true] at hrun
  obtain ⟨a, s₂, hmap, hrun₂⟩ := exists_of_returns hrun.1
  obtain ⟨a₃, s₃, hgrow, hrun₃⟩ := exists_of_returns hrun₂
  rw [Bool.and_eq_true, decide_eq_true_eq] at hrun₃
  obtain ⟨⟨rfl, h₃⟩, hrun₃⟩ := hrun₃
  obtain ⟨a₄, s₄, hshrink, hrun₄⟩ := exists_of_returns hrun₃
  obtain ⟨rfl, h₄⟩ := of_decide_eq_true hrun₄
  obtain ⟨a₅, s₅, hone, hrun₅⟩ := exists_of_returns hrun.2
  obtain ⟨rfl, h₅⟩ := of_decide_eq_true hrun₅
  exact ⟨p, s₁, hinit, ⟨a, s₂, s₃, s₄, hmap, hgrow, h₃, hshrink, h₄⟩, s₅, hone, h₅⟩

end FarmOS.Mm

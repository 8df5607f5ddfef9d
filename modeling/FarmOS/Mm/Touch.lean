import FarmOS.Mm.Owned
import FarmOS.Mm.TrapPages

/-! Which pages a kernel copy reaches through a user pointer. -/

namespace FarmOS.Mm

open Lib

variable {i uoff : ℕ} {pte : Pte} {E : Panic → Prop}

structure Touch where
  va : BitVec 64
  len : ℕ
  pte : Pte

section

variable {κ : Type} (upd : ℕ) (uptr : BitVec 64) (callback : Callback κ)

def traced : Callback (κ × List Touch) := fun f off i ulen x => do
  let va := uptr + BitVec.ofNat 64 i
  let pte ← ptLookup upd va
  let r ← callback f off i ulen x.1
  pure ((r.1, x.2 ++ [⟨va, ulen, pte⟩]), r.2)

lemma wp_traced {len : ℕ} {permneed : Pte} (fuel : ℕ) {buf : κ} {log : List Touch} {s : Phys}
    {Q : κ → Phys → Prop} :
    wp (userToKernel upd uptr len callback permneed fuel i uoff buf) Q E s ↔
      wp (userToKernel upd uptr len (traced upd uptr callback) permneed fuel i uoff (buf, log))
        (fun x s' => Q x.1 s') E s := by
  induction fuel generalizing i uoff buf log s with
  | zero => simp only [userToKernel, wp_pure]
  | succ fuel ih =>
    rw [userToKernel, userToKernel]
    split
    · simp only [wp_bind, traced, wp_ptLookup, wp_pure, wp_ite, ← ih]
    · simp only [wp_pure]

end

def copyOutTouches (upd : ℕ) (uptr : BitVec 64) (data : List Byte) : M (Unit × List Touch) :=
  userToKernel upd uptr data.length (traced upd uptr (copyOutCallback data)) pteW data.length 0 (pageOff uptr) ((), [])

def copyInTouches (upd : ℕ) (uptr : BitVec 64) (len : ℕ) : M (List Byte × List Touch) :=
  userToKernel upd uptr len (traced upd uptr copyInCallback) pteR len 0 (pageOff uptr) ([], [])

def copyInStrTouches (upd : ℕ) (uptr : BitVec 64) (k : ℕ → Byte) (n : ℕ) : M ((ℕ → Byte) × List Touch) :=
  userToKernel upd uptr n (traced upd uptr copyInStrCallback) pteR n 0 (pageOff uptr) (k, [])

def Traces {κ : Type} (c : M κ) (t : M (κ × List Touch)) (s : Phys) (P : List Touch → Prop) : Prop :=
  ∀ r s', c.run s = .ok (r, s') → ∃ log, t.run s = .ok ((r, log), s') ∧ P log

def Reaches {κ : Type} (c : M κ) (t : M (κ × List Touch)) (s : Phys) (P : Touch → Prop) : Prop :=
  Traces c t s fun log => ∀ x ∈ log, P x

lemma traces_of_wp {κ : Type} {c : M κ} {t : M (κ × List Touch)} {s : Phys} {P : List Touch → Prop}
    (ht : ∀ {Q E}, wp c Q E s ↔ wp t (fun x s' => Q x.1 s') E s) (h : wp t (fun x _ => P x.2) E s) :
    Traces c t s P := by
  intro r s' hc
  have hrun : wp c (fun a b => a = r ∧ b = s') (fun _ => False) s := (wp_ok hc).mpr ⟨rfl, rfl⟩
  obtain ⟨⟨a, log⟩, b, hb, ha, hs⟩ := wp_total (ht.mp hrun)
  change a = r at ha
  subst ha hs
  exact ⟨log, hb, wp_of_ok h hb⟩

def KernelOnly (pte : Pte) : Prop := has pte pteV = true ∧ has pte pteU = false

variable {L : Layout} {s s' : Phys} {v : View} {fl : List ℕ} {pd f : ℕ} {va uptr : BitVec 64} {permneed : Pte}

lemma Shape.look_inval (h : Shape L s v) (hd : v.dead = ∅) (hpd : v.lev pd = 1) (hV : has (look s pd va) pteV = false) :
    pteToPa (look s pd va) = 0 := by
  unfold look at hV ⊢
  split at hV
  · rfl
  · next x hx =>
    obtain ⟨hl, -, hi⟩ := h.slot_lev hd hpd hx
    exact h.inval x.1 x.2 (by omega) hi hV

lemma paToPage_low {pa : BitVec 64} (h : ¬ membase ≤ pa) : 2 ^ 23 ≤ paToPage pa := by
  have hb : membase.toNat = 2147483648 := rfl
  have hlt : pa.toNat < membase.toNat := BitVec.lt_def.mp (BitVec.not_le.mp h)
  rw [paToPage, BitVec.toNat_ushiftRight, Nat.shiftRight_eq_div_pow, BitVec.toNat_sub, hb]
  omega

namespace Tidy

structure Faulted (L : Layout) (s : Phys) (v : View) (fl : List ℕ) (pd : ℕ) (s' : Phys) (v' : View) : Prop where
  tidy : Tidy L s' v' fl
  roots : v'.roots = v.roots
  kernel (va : BitVec 64) : KernelOnly (look s' pd va) ↔ KernelOnly (look s pd va)

lemma Faulted.refl (h : Tidy L s v fl) (pd : ℕ) : Faulted L s v fl pd s v := ⟨h, rfl, fun _ => Iff.rfl⟩

lemma Faulted.trans {s'' : Phys} {v' v'' : View} (h : Faulted L s v fl pd s' v') (h' : Faulted L s' v' fl pd s'' v'') :
    Faulted L s v fl pd s'' v'' := ⟨h'.tidy, h'.roots.trans h.roots, fun va => (h'.kernel va).trans (h.kernel va)⟩

lemma kernelOnly_placed (h : Tidy L s v fl) (hpd : pd ∈ v.roots) {perm : Pte} {content : ℕ → ℕ → BitVec 64}
    (hold : has (look s pd va) pteU = true) (hU : has perm pteU = true) (hp : Placed L s v fl pd va perm content s')
    (va' : BitVec 64) : KernelOnly (look s' pd va') ↔ KernelOnly (look s pd va') := by
  obtain ⟨-, v', p, hw, -⟩ := hp
  rw [hw.look pd va' (h.inv.shape.root_of_mem hpd), put]
  split
  · next hs =>
    refine iff_of_false (fun hk => ?_) fun hk => ?_
    · have hn := hk.2
      rw [has_U_mkPte, hU] at hn
      cases hn
    · have hn := hk.2
      rw [hs.2.look s pd, hold] at hn
      cases hn
  · exact Iff.rfl

lemma faulted (h : Tidy L s v fl) (hpd : pd ∈ v.roots) {violate : Pte} :
    wp (pageFaultHandler pd violate va) (fun _ s' => ∃ v', Faulted L s v fl pd s' v') NotRefZero s := by
  refine wp_mono (wp_and (h.pageFault hpd) (h.inv.pageFaultHandler h.dead hpd)) fun r s' ⟨⟨v', ht, hk⟩, h'⟩ => ?_
  refine ⟨v', ht, hk.roots, fun va' => ?_⟩
  rcases h' with ⟨hc, -, hp⟩ | ⟨hc, -, hp⟩ | ⟨-, -, -, rfl⟩
  · refine h.kernelOnly_placed hpd hc.2.2.1 ?_ hp va'
    exact (has_cowedPerm _ (k := 4) (by decide)).trans (by simpa [pteU] using hc.2.2.1)
  · exact h.kernelOnly_placed hpd hc.2.2 hc.2.2 hp va'
  · exact Iff.rfl

end Tidy

lemma wp_testPageFault {I : Phys → Prop} (h : I s)
    (hf : ∀ violate s, I s → wp (pageFaultHandler pd violate va) (fun _ s' => I s') NotRefZero s) :
    wp (testPageFault pd va pte permneed) (fun _ s' => I s') NotRefZero s := by
  have hread : ∀ {s}, I s → (has permneed pteR = true ∧ ¬ has pte pteR = true →
      wp (pageFaultHandler pd pteR va) (fun r s' => wp (panicOn r) (fun _ s' => I s') NotRefZero s') NotRefZero s) ∧
      (¬ (has permneed pteR = true ∧ ¬ has pte pteR = true) → I s) := fun hI =>
    ⟨fun _ => wp_mono (hf pteR _ hI) fun _ _ hI' => wp_panicOn fun _ => hI', fun _ => hI⟩
  simp only [testPageFault, wp_bind, wp_ite, wp_pure]
  refine ⟨fun _ => wp_mono (hf permneed s h) fun _ s1 h1 => ⟨fun _ => ?_, fun _ => hread h1⟩,
    fun _ => ⟨fun _ => ?_, fun _ => hread h⟩⟩
  · exact wp_mono (hf pteW s1 h1) fun _ _ h2 => wp_panicOn fun _ => hread h2
  · exact wp_mono (hf pteW s h) fun _ _ h2 => wp_panicOn fun _ => hread h2

namespace Tidy

lemma testPageFault (h : Tidy L s v fl) (hpd : pd ∈ v.roots) :
    wp (testPageFault pd va pte permneed) (fun _ s' => ∃ v', Faulted L s v fl pd s' v') NotRefZero s :=
  wp_testPageFault ⟨v, .refl h pd⟩ fun _ _ ⟨_, h1⟩ =>
    wp_mono (h1.tidy.faulted (h1.roots.symm ▸ hpd)) fun _ _ ⟨v2, h2⟩ => ⟨v2, h1.trans h2⟩

lemma plain (h : Tidy L s v fl) (hpd : pd ∈ v.roots) (hV : has (look s pd va) pteV = true) :
    v.lev (paToPage (pteToPa (look s pd va))) = 0 := by
  have hs := h.inv.shape
  by_cases hb : membase ≤ pteToPa (look s pd va)
  · exact h.leaf pd va _ (hs.root_of_mem hpd) (hs.user_counted h.dead hpd) (if_pos ⟨hV, hb⟩)
  · by_contra hl
    have h1 := hs.lev_lt _ hl
    have h2 := paToPage_low hb
    have h3 := L.npage_lt
    omega

lemma writeBytes (h : Tidy L s v fl) (hf : v.lev f = 0) (off : ℕ) (bs : List Byte) :
    Tidy L (s.writeBytes f off bs) v fl ∧ Agrees v s (s.writeBytes f off bs) := by
  obtain ⟨h1, h2, h3, h4, h5, -⟩ := writeBytes_fields s f off bs
  have hag : Agrees v s (s.writeBytes f off bs) := ⟨fun t ht => mem_writeBytes_ne fun he => ht (he ▸ hf), h4, h5⟩
  refine ⟨h.agrees hag ⟨h.inv.shape.of_agrees hag,
    h.inv.account.congr h1 h2 h3 h4 fun g => by rw [hag.uses]⟩ ?_, hag⟩
  rw [refs, hag.key]
  exact h.zero

end Tidy

def Tame {κ : Type} (callback : Callback κ) : Prop :=
  ∀ (L : Layout) (v : View) (fl : List ℕ) (s : Phys) (f off i ulen : ℕ) (buf : κ), Tidy L s v fl → v.lev f = 0 →
    wp (callback f off i ulen buf) (fun _ s' => Tidy L s' v fl ∧ Agrees v s s') NotRefZero s

lemma copyOutCallback_tame (data : List Byte) : Tame (copyOutCallback data) :=
  fun _ _ _ _ _ _ _ _ _ h hf => wp_bind.mpr (wp_modify.mpr (wp_pure.mpr (h.writeBytes hf ..)))

lemma copyInCallback_tame : Tame copyInCallback :=
  fun _ _ _ _ _ _ _ _ _ h _ => wp_bind.mpr (wp_get.mpr (wp_pure.mpr ⟨h, fun _ _ => rfl, rfl, rfl⟩))

lemma copyInStrCallback_tame : Tame copyInStrCallback :=
  fun _ _ _ _ _ _ _ _ _ h _ => wp_bind.mpr (wp_get.mpr (wp_pure.mpr ⟨h, fun _ _ => rfl, rfl, rfl⟩))

def UserTouch (x : Touch) : Prop := has x.pte pteU = true ∧ pageOff x.va + x.len ≤ pageSize

/-- An access lies in a user page exactly if its page was not a kernel page before the copy. -/
structure Judged (s : Phys) (pd : ℕ) (uptr : BitVec 64) (len : ℕ) (x : Touch) : Prop where
  inside : ∃ i < len, x.va = uptr + BitVec.ofNat 64 i
  user : UserTouch x ↔ ¬ KernelOnly (look s pd x.va)

lemma Tame.userToKernel {κ : Type} {callback : Callback κ} (hc : Tame callback) {len : ℕ} (fuel : ℕ) {s0 : Phys}
    {x : κ × List Touch} (h : Tidy L s v fl) (hpd : pd ∈ v.roots)
    (hoff : i < len → uoff = pageOff (uptr + BitVec.ofNat 64 i))
    (hk : ∀ va, KernelOnly (look s pd va) ↔ KernelOnly (look s0 pd va)) (hx : ∀ y ∈ x.2, Judged s0 pd uptr len y) :
    wp (userToKernel pd uptr len (traced pd uptr callback) permneed fuel i uoff x)
      (fun x _ => ∀ y ∈ x.2, Judged s0 pd uptr len y) NotRefZero s := by
  induction fuel generalizing i uoff x s v with
  | zero => exact wp_pure.mpr hx
  | succ fuel ih =>
    rw [Mm.userToKernel]
    by_cases hlt : i < len
    · rw [if_pos hlt, hoff hlt]
      refine wp_bind.mpr (wp_ptLookup.mpr (wp_seq (h.testPageFault hpd) ?_))
      rintro _ s1 ⟨v1, hft⟩
      have hpd1 : pd ∈ v1.roots := hft.roots.symm ▸ hpd
      refine wp_bind.mpr (wp_ptLookup.mpr (wp_bind.mpr ?_))
      rw [check, wp_ite]
      refine ⟨fun hlow => wp_pure.mpr ?_, fun _ => wp_throw.mpr (by rintro ⟨⟩)⟩
      have hV : has (look s1 pd (uptr + BitVec.ofNat 64 i)) pteV = true := by
        by_contra hn
        have hs := hft.tidy.inv.shape
        rw [hs.look_inval hft.tidy.dead (hs.root_of_mem hpd1) (by simpa using hn)] at hlow
        exact absurd hlow (by decide)
      have hU : has (look s1 pd (uptr + BitVec.ofNat 64 i)) pteU = true ↔
          ¬ KernelOnly (look s0 pd (uptr + BitVec.ofNat 64 i)) := by
        rw [← hk, ← hft.kernel, KernelOnly, hV]
        simp
      have hps : pageSize = 4096 := rfl
      have hmod := pageOff_add uptr i
      have hmod' := Nat.mod_lt (uptr.toNat + i) (show 4096 > 0 by decide)
      simp only [traced, wp_bind, wp_ptLookup, wp_pure]
      refine wp_mono (hc L v1 fl s1 _ _ _ _ _ hft.tidy (hft.tidy.plain hpd1 hV)) ?_
      rintro r s2 ⟨h2, hag⟩
      have hlog : ∀ y ∈ x.2 ++ [⟨uptr + BitVec.ofNat 64 i,
          min (len - i) (pageSize - pageOff (uptr + BitVec.ofNat 64 i)), look s1 pd (uptr + BitVec.ofNat 64 i)⟩],
          Judged s0 pd uptr len y := by
        intro y hy
        rcases List.mem_append.mp hy with hy | hy
        · exact hx y hy
        · rw [List.mem_singleton.mp hy]
          have hlen := Nat.min_le_right (len - i) (pageSize - pageOff (uptr + BitVec.ofNat 64 i))
          refine ⟨⟨i, hlt, rfl⟩, Iff.trans (and_iff_left ?_) hU⟩
          change pageOff (uptr + BitVec.ofNat 64 i) + min (len - i) (pageSize - _) ≤ pageSize
          omega
      have hroot := hft.tidy.inv.shape.root_of_mem hpd1
      rw [wp_ite]
      refine ⟨fun _ => wp_pure.mpr hlog, fun _ => ih h2 hpd1 (fun hlt' => ?_) (fun va => ?_) hlog⟩
      · rw [pageOff_add]
        omega
      · rw [hag.look hft.tidy.inv.shape hft.tidy.dead hroot, hft.kernel, hk]
    · rw [if_neg hlt]
      exact wp_pure.mpr hx

def Unstopped {κ : Type} (callback : Callback κ) : Prop :=
  ∀ (f off i ulen : ℕ) (buf : κ) (s : Phys), wp (callback f off i ulen buf) (fun r _ => r.2 = false) (fun _ => True) s

lemma copyOutCallback_unstopped (data : List Byte) : Unstopped (copyOutCallback data) :=
  fun _ _ _ _ _ _ => wp_bind.mpr (wp_modify.mpr (wp_pure.mpr rfl))

lemma copyInCallback_unstopped : Unstopped copyInCallback :=
  fun _ _ _ _ _ _ => wp_bind.mpr (wp_get.mpr (wp_pure.mpr rfl))

def Covers (uptr : BitVec 64) (i len : ℕ) (log : List Touch) : Prop :=
  ∀ j, i ≤ j → j < len → ∃ y ∈ log, SamePage (uptr + BitVec.ofNat 64 j) y.va

lemma samePage_within {j : ℕ} (hij : i ≤ j) (h : pageOff (uptr + BitVec.ofNat 64 i) + (j - i) < 4096) :
    SamePage (uptr + BitVec.ofNat 64 j) (uptr + BitVec.ofNat 64 i) := by
  have hoff : pageOff (uptr + BitVec.ofNat 64 i) = (uptr + BitVec.ofNat 64 i).toNat % 4096 := rfl
  have hlt := (uptr + BitVec.ofNat 64 i).isLt
  have hj : uptr + BitVec.ofNat 64 j = uptr + BitVec.ofNat 64 i + BitVec.ofNat 64 (j - i) := by
    rw [BitVec.add_assoc, ← BitVec.ofNat_add, Nat.add_sub_cancel' hij]
  have hadd : (uptr + BitVec.ofNat 64 i + BitVec.ofNat 64 (j - i)).toNat =
      (uptr + BitVec.ofNat 64 i).toNat + (j - i) := by
    rw [BitVec.toNat_add, BitVec.toNat_ofNat, Nat.mod_eq_of_lt (a := j - i) (by omega), Nat.mod_eq_of_lt (by omega)]
  unfold SamePage
  rw [hj]
  simp only [ptx_eq, hadd]
  omega

lemma Unstopped.covers {κ : Type} {callback : Callback κ} (hc : Unstopped callback) {len : ℕ} (fuel : ℕ)
    {x : κ × List Touch} (hfuel : len - i ≤ fuel) (hoff : i < len → uoff = pageOff (uptr + BitVec.ofNat 64 i)) :
    wp (userToKernel pd uptr len (traced pd uptr callback) permneed fuel i uoff x)
      (fun x' _ => x.2 ⊆ x'.2 ∧ Covers uptr i len x'.2) (fun _ => True) s := by
  induction fuel generalizing i uoff x s with
  | zero => exact wp_pure.mpr ⟨List.Subset.refl _, fun j hi hj => by omega⟩
  | succ fuel ih =>
    rw [Mm.userToKernel]
    by_cases hlt : i < len
    · rw [if_pos hlt, hoff hlt]
      refine wp_bind.mpr (wp_ptLookup.mpr (wp_bind.mpr (wp_any fun _ s1 => wp_bind.mpr (wp_ptLookup.mpr
        (wp_bind.mpr (wp_any fun _ s2 => ?_))))))
      simp only [traced, wp_bind, wp_ptLookup, wp_pure]
      have hps : pageSize = 4096 := rfl
      have hmod := pageOff_add uptr i
      have hmod' := Nat.mod_lt (uptr.toNat + i) (show 4096 > 0 by decide)
      refine wp_mono (hc _ _ _ _ _ _) fun r s3 hr => ?_
      rw [hr, if_neg (by decide)]
      refine wp_mono (ih (by omega) fun hlt' => ?_) ?_
      · rw [pageOff_add]
        omega
      · rintro x' _ ⟨hsub, hcov⟩
        refine ⟨fun y hy => hsub (List.mem_append_left _ hy), fun j hi hj => ?_⟩
        by_cases hin : i + min (len - i) (pageSize - pageOff (uptr + BitVec.ofNat 64 i)) ≤ j
        · exact hcov j hin hj
        · exact ⟨_, hsub (List.mem_append_right _ List.mem_cons_self), samePage_within hi (by omega)⟩
    · rw [if_neg hlt]
      exact wp_pure.mpr ⟨List.Subset.refl _, fun j hi hj => by omega⟩

section Copies

variable {len : ℕ} (h : Tidy L s v fl) (hpd : pd ∈ v.roots)
include h hpd

lemma Tidy.judged {κ : Type} {callback : Callback κ} (hc : Tame callback) (buf : κ) :
    wp (userToKernel pd uptr len (traced pd uptr callback) permneed len 0 (pageOff uptr) (buf, []))
      (fun x _ => ∀ y ∈ x.2, Judged s pd uptr len y) NotRefZero s :=
  hc.userToKernel len h hpd (fun _ => by rw [BitVec.add_zero]) (fun _ => Iff.rfl) nofun

lemma Tidy.touches {κ : Type} {callback : Callback κ} (hc : Tame callback) (hu : Unstopped callback) (buf : κ) :
    Traces (userToKernel pd uptr len callback permneed len 0 (pageOff uptr) buf)
      (userToKernel pd uptr len (traced pd uptr callback) permneed len 0 (pageOff uptr) (buf, [])) s fun log =>
        (∀ x ∈ log, UserTouch x) ↔ ∀ i < len, ¬ KernelOnly (look s pd (uptr + BitVec.ofNat 64 i)) := by
  refine traces_of_wp (wp_traced pd uptr callback len) (wp_mono (wp_and (h.judged hpd hc buf)
    (hu.covers len (Nat.le_refl _) fun _ => by rw [BitVec.add_zero])) ?_)
  rintro x s' ⟨hj, -, hcov⟩
  refine ⟨fun hx i hi => ?_, fun hk y hy => ?_⟩
  · obtain ⟨y, hy, hs⟩ := hcov i (Nat.zero_le _) hi
    rw [hs.look s pd]
    exact (hj y hy).user.mp (hx y hy)
  · obtain ⟨i, hi, hva⟩ := (hj y hy).inside
    exact (hj y hy).user.mpr (hva ▸ hk i hi)

end Copies

end FarmOS.Mm

import FarmOS.Mm.Live
import FarmOS.Mm.Touch

/-! What `copyInStr` leaves in the kernel's buffer, and how far it reads. -/

namespace FarmOS.Mm

open Lib Function List Nat

def patched (k : ℕ → Byte) (o c : ℕ) (g : ℕ → Byte) (j : ℕ) : Byte := if o ≤ j ∧ j < o + c then g (j - o) else k j

lemma patched_zero (k g : ℕ → Byte) (o : ℕ) : patched k o 0 g = k := by
  funext j
  exact if_neg (by omega)

lemma patched_cons (k g : ℕ → Byte) (o c : ℕ) :
    patched (update k o (g 0)) (o + 1) c (fun j => g (j + 1)) = patched k o (c + 1) g := by
  funext j
  unfold patched
  by_cases hj : o + 1 ≤ j ∧ j < o + 1 + c
  · rw [if_pos hj, if_pos (by omega)]
    exact congrArg g (by omega)
  · rw [if_neg hj]
    by_cases ho : j = o
    · rw [ho, update_self, if_pos (by omega), Nat.sub_self]
    · rw [update_of_ne ho, if_neg (by omega)]

lemma patched_append {k g : ℕ → Byte} {i c : ℕ} :
    patched (patched k 0 i g) i c (fun j => g (i + j)) = patched k 0 (i + c) g := by
  funext j
  unfold patched
  by_cases hj : i ≤ j ∧ j < i + c
  · rw [if_pos hj, if_pos (by omega)]
    exact congrArg g (by omega)
  · rw [if_neg hj]
    exact if_congr (by omega) rfl rfl

lemma patched_congr {k g g' : ℕ → Byte} {o c : ℕ} (h : ∀ j, j < c → g j = g' j) :
    patched k o c g = patched k o c g' := by
  funext j
  unfold patched
  split
  · exact h _ (by omega)
  · rfl

variable {L : Layout} {s s' : Phys} {v : View} {fl roots : List ℕ} {f pd n m : ℕ} {uptr : BitVec 64} {k : ℕ → Byte}

lemma strncpyLoop_eq {t o c : ℕ} (hc : c ≤ n) (hne : ∀ j, j + 1 < c → readByte s f (t + j) ≠ 0)
    (hend : c < n → 0 < c ∧ readByte s f (t + (c - 1)) = 0) :
    strncpyLoop s f n t o k = (patched k o c fun j => readByte s f (t + j), o + c) := by
  induction n generalizing t o c k with
  | zero =>
    obtain rfl : c = 0 := by omega
    rw [patched_zero]
    rfl
  | succ n ih =>
    obtain ⟨c, rfl⟩ : ∃ c', c = c' + 1 := ⟨c - 1, by omega⟩
    have hshift : ∀ j, t + 1 + j = t + (j + 1) := fun j => by omega
    have hcons := patched_cons k (fun j => readByte s f (t + j)) o c
    rw [strncpyLoop]
    simp only [update_self]
    by_cases hb : readByte s f t ≠ 0
    · rw [if_pos hb, ih (c := c) (by omega) (fun j hj => hshift j ▸ hne (j + 1) (by omega)) fun hlt => ?_]
      · simp only [hshift]
        rw [← hcons, add_right_comm]
        rfl
      · obtain ⟨-, h0⟩ := hend (by omega)
        cases c with
        | zero => exact absurd h0 hb
        | succ c => exact ⟨succ_pos c, hshift c ▸ h0⟩
    · rw [if_neg hb]
      obtain rfl : c = 0 := by
        by_contra h0
        exact hb (hne 0 (by omega))
      rw [← hcons, patched_zero]
      rfl

lemma strncpyJudgeEnd_eq {t o c : ℕ} (hpos : 0 < c) (hc : c ≤ n) (hne : ∀ j, j + 1 < c → readByte s f (t + j) ≠ 0)
    (hend : c < n → readByte s f (t + (c - 1)) = 0) :
    strncpyJudgeEnd s f t n o k =
      (patched k o c fun j => readByte s f (t + j), readByte s f (t + (c - 1)) == 0) := by
  have hlast : patched k o c (fun j => readByte s f (t + j)) (o + c - 1) = readByte s f (t + (c - 1)) := by
    rw [patched, if_pos (by omega), show o + c - 1 - o = c - 1 by omega]
  rw [strncpyJudgeEnd, strncpyLoop_eq hc hne fun hlt => ⟨hpos, hend hlt⟩, ← hlast]

structure CString (s : Phys) (pd : ℕ) (uptr : BitVec 64) (m : ℕ) : Prop where
  body (j : ℕ) : j < m → content s pd (uptr + BitVec.ofNat 64 j) ≠ 0
  last : content s pd (uptr + BitVec.ofNat 64 m) = 0

def InString (uptr : BitVec 64) (m n : ℕ) (y : Touch) : Prop :=
  ∃ i, i ≤ m ∧ i < n ∧ y.va = uptr + BitVec.ofNat 64 i ∧ pageOff y.va + y.len ≤ pageSize

section Copying

variable {K : Phys → View → Prop} (hK : Stable L fl K)
include hK

lemma copyInStr_transfers (hpd : pd ∈ roots) (hstr : CString s pd uptr m)
    (ha : Accessible s false pd uptr (min (m + 1) n)) :
    Transfers K roots pd uptr n false (traced pd uptr copyInStrCallback)
      (fun i x s' => Quiet roots s s' ∧ i ≤ m ∧ (∀ y ∈ x.2, InString uptr m n y) ∧
        x.1 = patched k 0 i fun j => content s pd (uptr + BitVec.ofNat 64 j))
      (fun x _ => (∀ y ∈ x.2, InString uptr m n y) ∧
        x.1 = patched k 0 (min (m + 1) n) fun j => content s pd (uptr + BitVec.ofNat 64 j)) where
  usable i _ _ hI hi := hI.1.usable false pd _ hpd (ha.2 i (by have := hI.2.1; omega))
  calm _ _ _ _ hI hq := ⟨hI.1.trans hq, hI.2⟩
  chunk i ulen x s1 v1 hI hs hr hpos hlen hoff hal := by
    obtain ⟨hq, him, hlog, hx⟩ := hI
    obtain ⟨f, hf⟩ : ∃ f, paToPage (pteToPa (look s1 pd (uptr + BitVec.ofNat 64 i))) = f := ⟨_, rfl⟩
    have ht := (target_of_allows (hK.walled s1 v1 hs) (hr.symm ▸ hpd) hal).1
    rw [hf] at ht ⊢
    have hread : ∀ j, j < ulen → readByte s1 f (pageOff (uptr + BitVec.ofNat 64 i) + j) =
        content s pd (uptr + BitVec.ofNat 64 (i + j)) := fun j hj => by
      have hb := ha.1
      have hva : (uptr + BitVec.ofNat 64 i).toNat = uptr.toNat + i := toNat_add_ofNat (by omega)
      have hmod := pageOff_add uptr i
      have hbytes := readBytes_content ht hoff (by omega)
      have := map_inj_left.mp hbytes j (mem_range.mpr hj)
      rw [this, hq.content pd _ hpd, BitVec.add_assoc, ← BitVec.ofNat_add]
    have hlog' : ∀ y ∈ x.2 ++ [⟨uptr + BitVec.ofNat 64 i, ulen, look s1 pd (uptr + BitVec.ofNat 64 i)⟩],
        InString uptr m n y := fun y hy => by
      rcases mem_append.mp hy with hy | hy
      · exact hlog y hy
      · rw [mem_singleton.mp hy]
        exact ⟨i, him, by omega, rfl, hoff⟩
    have hnext : ∀ c, c ≤ ulen → patched x.1 i c (fun j => readByte s1 f (pageOff (uptr + BitVec.ofNat 64 i) + j)) =
        patched k 0 (i + c) fun j => content s pd (uptr + BitVec.ofNat 64 j) := fun c hc => by
      rw [hx, ← patched_append]
      exact patched_congr fun j hj => hread j (by omega)
    simp only [traced, copyInStrCallback, wp_bind, wp_ptLookup, wp_get, wp_pure]
    refine ⟨⟨v1, hs, hr⟩, ?_⟩
    by_cases hin : m < i + ulen
    · have hlast : readByte s1 f (pageOff (uptr + BitVec.ofNat 64 i) + (m + 1 - i - 1)) = 0 := by
        rw [hread _ (by omega), show i + (m + 1 - i - 1) = m by omega]
        exact hstr.last
      rw [strncpyJudgeEnd_eq (c := m + 1 - i) (by omega) (by omega) (fun j hj => ?_) fun _ => hlast]
      · rw [if_pos (by rw [hlast]; rfl)]
        refine ⟨hlog', (hnext _ (by omega)).trans ?_⟩
        rw [show i + (m + 1 - i) = min (m + 1) n by omega]
      · rw [hread j (by omega)]
        exact hstr.body _ (by omega)
    · rw [strncpyJudgeEnd_eq (c := ulen) hpos (le_refl _) (fun j hj => ?_) fun hlt => absurd hlt (lt_irrefl _)]
      · have hlast : readByte s1 f (pageOff (uptr + BitVec.ofNat 64 i) + (ulen - 1)) ≠ 0 := by
          rw [hread _ (by omega)]
          exact hstr.body _ (by omega)
        rw [if_neg (by simpa using hlast)]
        exact ⟨hq, by omega, hlog', hnext ulen (le_refl _)⟩
      · rw [hread j (by omega)]
        exact hstr.body _ (by omega)
  done x s' hI := by
    obtain ⟨-, hm, hlog, hx⟩ := hI
    exact ⟨hlog, by rw [hx, min_eq_right (by omega)]⟩

end Copying

structure StringCopied (k k' : ℕ → Byte) (s : Phys) (pd : ℕ) (uptr : BitVec 64) (n m : ℕ) : Prop where
  bound (j : ℕ) : n ≤ j → k' j = k j
  copied (j : ℕ) : j ≤ m → j < n → k' j = content s pd (uptr + BitVec.ofNat 64 j)
  rest (j : ℕ) : m < j → k' j = k j
  ended : m < n → (∀ j, j < m → k' j ≠ 0) ∧ k' m = 0

lemma CString.copied (h : CString s pd uptr m) : StringCopied k
    (patched k 0 (min (m + 1) n) fun j => content s pd (uptr + BitVec.ofNat 64 j)) s pd uptr n m := by
  have hin : ∀ j, j ≤ m → j < n → patched k 0 (min (m + 1) n)
      (fun j => content s pd (uptr + BitVec.ofNat 64 j)) j = content s pd (uptr + BitVec.ofNat 64 j) :=
    fun j hm hn => if_pos ⟨zero_le j, by omega⟩
  refine ⟨fun j hj => if_neg (by omega), hin, fun j hj => if_neg (by omega), fun hlt => ⟨fun j hj => ?_, ?_⟩⟩
  · rw [hin j (by omega) (by omega)]
    exact h.body j hj
  · rw [hin m (le_refl m) hlt]
    exact h.last

lemma Walled.copyInStr (h : Walled L s v fl) (hu : 0 < L.pageused) (hpd : pd ∈ v.roots) (hstr : CString s pd uptr m)
    (ha : Accessible s false pd uptr (min (m + 1) n)) :
    wp (copyInStr pd uptr k n) (fun k' _ => StringCopied k k' s pd uptr n m) OutOfMemory s ∧
      Reaches (copyInStr pd uptr k n) (copyInStrTouches pd uptr k n) s (InString uptr m n) := by
  have hcopy : wp (copyInStrTouches pd uptr k n) _ OutOfMemory s :=
    (copyInStr_transfers (k := k) (walled_stable L fl) hpd hstr ha).userToKernel (walled_stable L fl) hu hpd
      n (by omega) (zero_le n) (fun _ => by rw [BitVec.add_zero])
      ⟨.refl _ _, zero_le m, nofun, (patched_zero ..).symm⟩ h rfl
  have htraced : ∀ {Q E}, wp (Mm.copyInStr pd uptr k n) Q E s ↔
      wp (copyInStrTouches pd uptr k n) (fun x s' => Q x.1 s') E s := wp_traced pd uptr copyInStrCallback n
  refine ⟨htraced.mpr (wp_mono hcopy fun x _ ⟨⟨_, hx⟩, _⟩ => ?_),
    traces_of_wp htraced (wp_mono hcopy fun x _ ⟨⟨hlog, _⟩, _⟩ => hlog)⟩
  rw [hx]
  exact hstr.copied

theorem copyInStr_copies_strings (b : Board) (img : Image b.layout) (mem : ℕ → ℕ → BitVec 64) :
    wp (boot b) (fun _ s => ∀ ls x,
      Run (fun x l x' => Life.Step img x l x' ∧ l.Careful b.layout x) (.start s) ls x →
      ∀ p ∈ x.users.procs, ∀ (uptr : BitVec 64) (k : ℕ → Byte) (n m : ℕ), CString x.users.phys p uptr m →
        Accessible x.users.phys false p uptr (min (m + 1) n) →
        wp (copyInStr p uptr k n) (fun k' _ => StringCopied k k' x.users.phys p uptr n m) OutOfMemory x.users.phys ∧
          Reaches (copyInStr p uptr k n) (copyInStrTouches p uptr k n) x.users.phys (InString uptr m n))
      NotRefZero (powerOn b mem) := by
  refine wp_mono (wp_boot_live b img mem) fun _ s h ls x hrun p hp uptr k n m hstr ha => ?_
  obtain ⟨v, hv⟩ := h ls x hrun
  exact hv.walled.copyInStr img.used_pos (hv.roots ▸ hp) hstr ha

def threeLetters : List Life :=
  [.doing (.spawn 0 0), .doing (.call 4 (.mmap privateVa 4096 readWrite mapAnonymous none 0)),
    .store 4 privateVa 0x61 true, .store 4 (privateVa + 1) 0x62 true, .store 4 (privateVa + 2) 0x63 true]

theorem copyInStr_leaves_unterminated : ∃ x, Run (Life.Step smallImage) (.start smallMachine) threeLetters x ∧
    CString x.users.phys 4 privateVa 3 ∧ Accessible x.users.phys false 4 privateVa 4 ∧
    ∃ k' s', (copyInStr 4 privateVa (fun _ => 0xff) 2).run x.users.phys = .ok (k', s') ∧ ∀ j < 2, k' j ≠ 0 := by
  have hrun : runLives smallImage (fun x =>
      ((range 3).all fun j => content x.users.phys 4 (privateVa + BitVec.ofNat 64 j) != 0) &&
      (content x.users.phys 4 (privateVa + BitVec.ofNat 64 3) == 0) &&
      ((range 4).all fun i => has (look x.users.phys 4 (privateVa + BitVec.ofNat 64 i)) pteU &&
        has (look x.users.phys 4 (privateVa + BitVec.ofNat 64 i)) pteR) &&
      returns (copyInStr 4 privateVa (fun _ => 0xff) 2) x.users.phys
        (fun k' _ => (range 2).all fun j => k' j != 0)) (.start smallMachine) threeLetters = true := by
    decide +kernel
  obtain ⟨x, hr, h⟩ := run_of_runLives hrun
  simp only [Bool.and_eq_true, beq_iff_eq, bne_iff_ne, all_eq_true, mem_range] at h
  obtain ⟨⟨⟨hbody, hlast⟩, hus⟩, hcopy⟩ := h
  obtain ⟨k', s', hc, hk⟩ := exists_of_returns hcopy
  simp only [bne_iff_ne, all_eq_true, mem_range] at hk
  exact ⟨x, hr, ⟨hbody, hlast⟩, ⟨by decide, fun i hi => ⟨(hus i hi).1, .inl (hus i hi).2⟩⟩, k', s', hc, hk⟩

end FarmOS.Mm

import FarmOS.Fs.FdCount

/-! The balance of a descriptor table in the middle of a call: descriptors in hand and slots
reserved by `alloc_ufd` are accounted for beside the slots. -/

namespace FarmOS.Fs.FdTable

open Lib List

structure Balanced (s : Kernel) (hand : List ℕ) (res : Set (Fin nproc × ℕ)) : Prop where
  count (k : ℕ) : k < fdnum → (s.fds k).refcnt.toNat = slots s k + hand.count k
  bits (k : ℕ) : k < fdnum → (s.bit k = true ↔ 0 < slots s k + hand.count k)
  range (p : Fin nproc) (u : ℕ) : u < maxFdCount →
    s.slot p u = -1 ∨ isKernFd (s.slot p u) ∨ s.slot p u = fdnum + 1 ∧ (p, u) ∈ res
  dev (k : ℕ) : k < fdnum → 0 < slots s k → (s.fds k).fdDev.isSome = true
  hand_lt (k : ℕ) : k ∈ hand → k < fdnum
  hand_le : hand.length ≤ 2

variable {s : Kernel} {hand : List ℕ} {res : Set (Fin nproc × ℕ)} {p : Fin nproc} {u k : ℕ} {s' : Kernel}
  {hand' : List ℕ}

section

variable (h : Balanced s hand res)
include h

lemma Balanced.lt_bound (hk : k < fdnum) : (s.fds k).refcnt.toNat < 4000002 := by
  have h1 := slots_lt s k
  have h2 := h.count k hk
  have h3 : hand.count k ≤ hand.length := count_le_length
  have h4 := h.hand_le
  omega

lemma Balanced.hand_erase : ∀ j ∈ hand.erase k, j < fdnum := fun j hj =>
  h.hand_lt j (mem_of_mem_erase hj)

lemma Balanced.hand_cons (hk : k < fdnum) : ∀ j ∈ k :: hand, j < fdnum :=
  forall_mem_cons.mpr ⟨hk, h.hand_lt⟩

lemma Balanced.setSlot {v : ℤ} {res' : Set (Fin nproc × ℕ)} (hp : Alive s p) (hu : u < maxFdCount)
    (hcount : ∀ k, k < fdnum → slots (s.setSlot p u v) k + hand'.count k = slots s k + hand.count k)
    (hv : v = -1 ∨ isKernFd v ∨ v = fdnum + 1 ∧ (p, u) ∈ res')
    (hdev : ∀ k : ℕ, k < fdnum → v = k → (s.fds k).fdDev.isSome = true)
    (hlt : ∀ k ∈ hand', k < fdnum) (hle : hand'.length ≤ 2)
    (hres : ∀ q w, (q, w) ∈ res → (q ≠ p ∨ w ≠ u) → (q, w) ∈ res') :
    Balanced (s.setSlot p u v) hand' res' := by
  constructor
  · intro k hk
    rw [fds_setSlot, h.count k hk, hcount k hk]
  · intro k hk
    rw [bit_setSlot, h.bits k hk, hcount k hk]
  · intro q w hw
    by_cases he : q = p ∧ w = u
    · obtain ⟨rfl, rfl⟩ := he
      rw [slot_setSlot_self s q w v hp]
      exact hv
    · have he' : q ≠ p ∨ w ≠ u := by tauto
      rw [slot_setSlot_ne s p q u w v he']
      exact (h.range q w hw).imp_right fun h' => h'.imp_right fun ⟨hq, hm⟩ => ⟨hq, hres q w hm he'⟩
  · intro k hk hpos
    rw [fds_setSlot]
    by_cases hvk : v = k
    · exact hdev k hk hvk
    · have hs := slots_setSlot s p u v k hp hu
      rw [if_neg hvk] at hs
      exact h.dev k hk (by omega)
  · exact hlt
  · exact hle

lemma Balanced.reserve (hp : Alive s p) (hu : u < maxFdCount)
    (hs : s.slot p u = -1) : Balanced (s.setSlot p u (fdnum + 1)) hand (insert (p, u) res) := by
  refine h.setSlot hp hu (fun k hk => ?_) (.inr (.inr ⟨rfl, by simp⟩)) (fun k hk he => ?_) h.hand_lt
    h.hand_le fun q w hm _ => .inr hm
  · have hc := slots_setSlot s p u (fdnum + 1) k hp hu
    rw [hs, if_neg (by omega), if_neg (by omega)] at hc
    omega
  · omega

lemma Balanced.unreserve (hp : Alive s p) (hu : u < maxFdCount)
    (hs : s.slot p u = fdnum + 1) : Balanced (s.setSlot p u (-1)) hand (res \ {(p, u)}) := by
  refine h.setSlot hp hu (fun k hk => ?_) (.inl rfl) (fun k hk he => by omega) h.hand_lt h.hand_le
    fun q w hm hne => ⟨hm, ?_⟩
  · have hc := slots_setSlot s p u (-1) k hp hu
    rw [hs, if_neg (by omega), if_neg (by omega)] at hc
    omega
  · rintro ⟨rfl, rfl⟩
    exact hne.elim (· rfl) (· rfl)

omit h in
lemma count_erase_add {l : List ℕ} {k : ℕ} (j : ℕ) (h : k ∈ l) :
    (l.erase k).count j + (if k = j then 1 else 0) = l.count j := by
  by_cases he : k = j
  · subst he
    have := count_pos_iff.mpr h
    simp only [count_erase_self, if_true]
    omega
  · simp [he, count_erase_of_ne (Ne.symm he)]

lemma Balanced.place (hp : Alive s p) (hu : u < maxFdCount)
    (hs : s.slot p u = -1 ∨ s.slot p u = fdnum + 1) (hk : k ∈ hand)
    (hd : (s.fds k).fdDev.isSome = true) :
    Balanced (s.setSlot p u k) (hand.erase k) (res \ {(p, u)}) := by
  have hlt := h.hand_lt k hk
  refine h.setSlot hp hu (fun j hj => ?_) (.inr (.inl ⟨by omega, by omega⟩)) (fun j _ he => ?_)
    h.hand_erase (length_erase_le.trans h.hand_le) fun q w hm hne => ⟨hm, ?_⟩
  · have hc := slots_setSlot s p u k j hp hu
    rw [if_neg (by omega)] at hc
    have he := count_erase_add j hk
    simp only [Nat.cast_inj] at hc
    omega
  · rwa [← Nat.cast_inj.mp he]
  · rintro ⟨rfl, rfl⟩
    exact hne.elim (· rfl) (· rfl)

lemma Balanced.take (hp : Alive s p) (hu : u < maxFdCount)
    (hs : s.slot p u = k) (hk : k < fdnum) (hle : hand.length ≤ 1) :
    Balanced (s.setSlot p u (-1)) (k :: hand) res := by
  refine h.setSlot hp hu (fun j hj => ?_) (.inl rfl) (fun j hj he => by omega) (h.hand_cons hk) (by simpa using hle)
    fun q w hm _ => hm
  · have hc := slots_setSlot s p u (-1) j hp hu
    have hj : (-1 : ℤ) ≠ j := by omega
    rw [hs, if_neg hj] at hc
    simp only [Nat.cast_inj] at hc
    simp only [count_cons, beq_iff_eq]
    omega

lemma Balanced.change (k : ℕ) (hprocs : s'.procs = s.procs)
    (hother : ∀ j ≠ k, s'.fds j = s.fds j ∧ s'.bit j = s.bit j ∧ hand'.count j = hand.count j)
    (hcount : (s'.fds k).refcnt.toNat = slots s k + hand'.count k)
    (hbit : s'.bit k = true ↔ 0 < slots s k + hand'.count k)
    (hdev : 0 < slots s k → (s'.fds k).fdDev.isSome = true)
    (hlt : ∀ j ∈ hand', j < fdnum) (hle : hand'.length ≤ 2) : Balanced s' hand' res := by
  refine ⟨fun j hj => ?_, fun j hj => ?_, fun q w => ?_, fun j hj => ?_, hlt, hle⟩
  · rw [slots_of_procs hprocs]
    obtain rfl | he := eq_or_ne j k
    · exact hcount
    · rw [(hother j he).1, (hother j he).2.2]
      exact h.count j hj
  · rw [slots_of_procs hprocs]
    obtain rfl | he := eq_or_ne j k
    · exact hbit
    · rw [(hother j he).2.1, (hother j he).2.2]
      exact h.bits j hj
  · rw [Kernel.slot, hprocs]
    exact h.range q w
  · rw [slots_of_procs hprocs]
    obtain rfl | he := eq_or_ne j k
    · exact hdev
    · rw [(hother j he).1]
      exact h.dev j hj

lemma Balanced.setFd {f : Fd} (hr : f.refcnt = (s.fds k).refcnt)
    (hd : f.fdDev.isSome = true) : Balanced (s.setFd k f) hand res := by
  refine { h with count := fun j hj => ?_, dev := fun j hj hp => ?_ }
  · rw [slots_setFd, ← h.count j hj]
    by_cases he : j = k
    · subst he
      simp [hr]
    · rw [fds_setFd_ne _ _ _ he]
  · by_cases he : j = k
    · subst he
      simpa using hd
    · rw [fds_setFd_ne _ _ _ he]
      exact h.dev j hj hp

lemma Balanced.congr (hf : s'.fds = s.fds)
    (hb : s'.fdBitMap = s.fdBitMap) (hs : ∀ q w, w < maxFdCount → s'.slot q w = s.slot q w) :
    Balanced s' hand res := by
  have hbit : ∀ k, s'.bit k = s.bit k := fun k => by simp only [bit_eq, hb]
  refine ⟨fun k hk => ?_, fun k hk => ?_, fun q w hw => ?_, fun k hk => ?_, h.hand_lt, h.hand_le⟩
  · rw [hf, slots_congr hs]
    exact h.count k hk
  · rw [hbit, slots_congr hs]
    exact h.bits k hk
  · rw [hs q w hw]
    exact h.range q w hw
  · rw [hf, slots_congr hs]
    exact h.dev k hk

lemma Balanced.fdAlloc_some (hle : hand.length ≤ 1)
    (hk : k < fdnum) (hb : s.bit k = false) :
    Balanced ((s.setBit k).setFd k { refcnt := 1 }) (k :: hand) res := by
  have hzero : slots s k + hand.count k = 0 := by
    by_contra hne
    have := (h.bits k hk).mpr (by omega)
    simp [hb] at this
  refine h.change k rfl (fun j hj => ⟨?_, ?_, count_cons_of_ne hj.symm⟩) ?_ ?_ (fun hpos => by omega)
    (h.hand_cons hk) (by simpa using hle)
  · rw [fds_setFd_ne _ _ _ hj]
    rfl
  · simp [bit_setBit, hj]
  · rw [fds_setFd_self, count_cons_self, ← Nat.add_assoc, hzero]
    rfl
  · simp only [bit_setFd, bit_setBit, decide_true, Bool.true_or, count_cons_self, true_iff]
    omega

omit h in
lemma fdAlloc_cases (s : Kernel) :
    (∃ k : ℕ, k < fdnum ∧ s.bit k = false ∧ fdAlloc s = ((k : ℤ), (s.setBit k).setFd k { refcnt := 1 }))
      ∨ fdAlloc s = (-enfile, s) := by
  unfold fdAlloc
  split
  · next i hi =>
    have hb := find?_some hi
    refine .inl ⟨i, mem_range.mp (mem_of_find?_eq_some hi), by simpa using hb, rfl⟩
  · exact .inr rfl

omit h in
lemma cloneAddCite_eq (s : Kernel) (hk : k < fdnum) :
    cloneAddCite s k = some (s.setFd k { s.fds k with refcnt := (s.fds k).refcnt + 1 }) := by
  rw [cloneAddCite, if_pos ⟨by omega, by omega⟩, Int.toNat_natCast]

lemma Balanced.cite (hle : hand.length ≤ 1) (hk : k < fdnum) (hpos : 0 < slots s k) :
    Balanced (s.setFd k { s.fds k with refcnt := (s.fds k).refcnt + 1 }) (k :: hand) res := by
  have hlt := h.lt_bound hk
  have hc := h.count k hk
  refine h.change k rfl (fun j hj => ⟨fds_setFd_ne _ _ _ hj, rfl, count_cons_of_ne hj.symm⟩) ?_ ?_ ?_
    (h.hand_cons hk) (by simpa using hle)
  · have h1 : (1 : UInt32).toNat = 1 := rfl
    simp only [fds_setFd_self, count_cons_self, UInt32.toNat_add, h1]
    omega
  · rw [bit_setFd, h.bits k hk, count_cons_self]
    omega
  · simpa using h.dev k hk

end

structure Freed (s : Kernel) (k : ℕ) (last : Prop) (s' : Kernel) : Prop where
  procs : s'.procs = s.procs
  other (j : ℕ) : j ≠ k → s'.fds j = s.fds j
  kept : ¬ last → (s'.fds k).fdDev = (s.fds k).fdDev ∧ s'.closed = s.closed
  gone : last → s'.closed = s.closed ++ ((s.fds k).fdDev.map (k, ·)).toList

lemma freeFd_eq (s : Kernel) (hk : k < fdnum) :
    freeFd s k = some (if (s.fds k).refcnt - 1 = 0 then ((devClose s k).setFd k {}).clearBit k
      else s.setFd k { s.fds k with refcnt := (s.fds k).refcnt - 1 }) := by
  rw [freeFd, if_pos ⟨by omega, by omega⟩]
  simp only [Int.toNat_natCast]
  split <;> rfl

lemma sub_one_eq_zero_iff (r : UInt32) : r - 1 = 0 ↔ r.toNat = 1 := by
  have hlt := r.toNat_lt
  have h1 : (1 : UInt32).toNat = 1 := rfl
  have h0 : (0 : UInt32).toNat = 0 := rfl
  rw [← UInt32.toNat_inj, UInt32.toNat_sub, h1, h0]
  omega

@[simp] lemma fds_devClose (s : Kernel) (k : ℕ) : (devClose s k).fds = s.fds := by
  unfold devClose
  split <;> rfl

@[simp] lemma procs_devClose (s : Kernel) (k : ℕ) : (devClose s k).procs = s.procs := by
  unfold devClose
  split <;> rfl

@[simp] lemma bit_devClose (s : Kernel) (k j : ℕ) : (devClose s k).bit j = s.bit j := by
  unfold devClose
  split <;> rfl

lemma Balanced.free_last (h : Balanced s hand res) (hz : slots s k + (hand.erase k).count k = 0) :
    Balanced (((devClose s k).setFd k {}).clearBit k) (hand.erase k) res := by
  refine h.change k (procs_devClose s k) (fun j hj => ⟨?_, ?_, count_erase_of_ne hj⟩) ?_ ?_ (fun hpos => by omega)
    h.hand_erase (length_erase_le.trans h.hand_le)
  · rw [fds_clearBit, fds_setFd_ne _ _ _ hj, fds_devClose]
  · simp [bit_clearBit, hj]
  · rw [hz, fds_clearBit, fds_setFd_self]
    rfl
  · rw [hz]
    simp [bit_clearBit]

lemma Balanced.free_more (h : Balanced s hand res) (hk : k ∈ hand) (hz : 0 < slots s k + (hand.erase k).count k) :
    Balanced (s.setFd k { s.fds k with refcnt := (s.fds k).refcnt - 1 }) (hand.erase k) res := by
  have hlt := h.hand_lt k hk
  have hc := h.count k hlt
  have he := count_erase_add k hk
  rw [if_pos rfl] at he
  refine h.change k rfl (fun j hj => ⟨fds_setFd_ne _ _ _ hj, rfl, count_erase_of_ne hj⟩) ?_ ?_ ?_
    h.hand_erase (length_erase_le.trans h.hand_le)
  · have h1 : (1 : UInt32).toNat = 1 := rfl
    have hb := (s.fds k).refcnt.toNat_lt
    rw [fds_setFd_self, UInt32.toNat_sub, h1]
    omega
  · rw [bit_setFd, h.bits k hlt]
    omega
  · simpa using h.dev k hlt

lemma Balanced.free (h : Balanced s hand res) (hk : k ∈ hand) :
    ∃ s', freeFd s k = some s' ∧ Balanced s' (hand.erase k) res ∧
      Freed s k (slots s k + (hand.erase k).count k = 0) s' := by
  have hlt := h.hand_lt k hk
  have hc := h.count k hlt
  have he := count_erase_add k hk
  rw [if_pos rfl] at he
  rw [freeFd_eq s hlt]
  by_cases hz : slots s k + (hand.erase k).count k = 0
  · rw [if_pos ((sub_one_eq_zero_iff _).mpr (by omega))]
    refine ⟨_, rfl, h.free_last hz, ⟨by simp, fun j hj => ?_, fun hn => absurd hz hn, fun _ => ?_⟩⟩
    · rw [fds_clearBit, fds_setFd_ne _ _ _ hj, fds_devClose]
    · rw [closed_clearBit, closed_setFd, devClose]
      split <;> simp [*]
  · rw [if_neg (fun hr => by have := (sub_one_eq_zero_iff _).mp hr; omega)]
    refine ⟨_, rfl, h.free_more hk (by omega), ⟨rfl, fun j hj => ?_, fun _ => ⟨by simp, rfl⟩,
      fun hn => absurd hn hz⟩⟩
    exact fds_setFd_ne _ _ _ hj

end FarmOS.Fs.FdTable

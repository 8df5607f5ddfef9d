import FarmOS.Fs.FdBalance

/-! Every descriptor call keeps the reference counts exact and closes a device when its last slot
goes away. -/

namespace FarmOS.Fs.FdTable

open List Option

variable {s s' t : Kernel} {hand : List ℕ} {res : Set (Fin nproc × ℕ)} {p : Fin nproc} {u k : ℕ} {v old new : ℤ}

def Closes (s s' : Kernel) : Prop :=
  ∃ l : List (ℕ × FdDev), s'.closed = s.closed ++ l ∧ (l.map Prod.fst).Nodup ∧
    ∀ k d, (k, d) ∈ l ↔ k < fdnum ∧ 0 < slots s k ∧ slots s' k = 0 ∧ (s.fds k).fdDev = some d

structure Released (s s' : Kernel) : Prop where
  closes : Closes s s'
  le (k : ℕ) : k < fdnum → slots s' k ≤ slots s k
  dev (k : ℕ) : k < fdnum → 0 < slots s' k → (s'.fds k).fdDev = (s.fds k).fdDev

structure Grows (s s' : Kernel) : Prop where
  closed : s'.closed = s.closed
  le (k : ℕ) : k < fdnum → slots s k ≤ slots s' k
  alive (q : Fin nproc) : Alive s q → Alive s' q

lemma Grows.refl (s : Kernel) : Grows s s := ⟨rfl, fun _ _ => le_rfl, fun _ h => h⟩

lemma Grows.trans (h : Grows s t) (h' : Grows t s') : Grows s s' :=
  ⟨h'.closed.trans h.closed, fun k hk => (h.le k hk).trans (h'.le k hk),
    fun q hq => h'.alive q (h.alive q hq)⟩

lemma Grows.closes (h : Grows s s') : Closes s s' := by
  refine ⟨[], by rw [h.closed, append_nil], by simp, fun k d => ?_⟩
  simp only [not_mem_nil, false_iff]
  rintro ⟨hk, hpos, hz, -⟩
  have := h.le k hk
  omega

lemma Grows.setSlot (hp : Alive s p) (hu : u < maxFdCount)
    (hs : s.slot p u = -1 ∨ s.slot p u = fdnum + 1) : Grows s (s.setSlot p u v) := by
  refine ⟨rfl, fun k hk => ?_, fun q hq => (alive_setSlot ..).mpr hq⟩
  have hc := slots_setSlot s p u v k hp hu
  rw [if_neg (by omega)] at hc
  omega

lemma Grows.setFd (s : Kernel) (k : ℕ) (f : Fd) : Grows s (s.setFd k f) :=
  ⟨rfl, fun _ _ => le_rfl, fun _ h => h⟩

lemma Grows.setBit (s : Kernel) (k : ℕ) : Grows s (s.setBit k) :=
  ⟨rfl, fun _ _ => le_rfl, fun _ h => h⟩

lemma Freed.grows {last : Prop} (h : Freed s k last s') (hd : (s.fds k).fdDev = none) : Grows s s' := by
  refine ⟨?_, fun j _ => (slots_of_procs h.procs j).ge, fun q hq => ?_⟩
  · by_cases hl : last
    · rw [h.gone hl, hd]
      simp
    · exact (h.kept hl).2
  · rw [Alive, h.procs]
    exact hq

lemma Released.refl (s : Kernel) : Released s s :=
  ⟨(Grows.refl s).closes, fun _ _ => le_rfl, fun _ _ _ => rfl⟩

lemma Released.trans (h : Released s t) (h' : Released t s') : Released s s' := by
  obtain ⟨l, hl, hnd, hm⟩ := h.closes
  obtain ⟨l', hl', hnd', hm'⟩ := h'.closes
  refine ⟨⟨l ++ l', by rw [hl', hl, append_assoc], ?_, fun k d => ?_⟩, fun k hk => ?_,
    fun k hk hpos => ?_⟩
  · rw [map_append, nodup_append']
    refine ⟨hnd, hnd', fun k hk hk' => ?_⟩
    obtain ⟨⟨i, d⟩, hd, rfl⟩ := mem_map.mp hk
    obtain ⟨⟨j, d'⟩, hd', rfl : j = i⟩ := mem_map.mp hk'
    obtain ⟨-, -, hz, -⟩ := (hm j d).mp hd
    obtain ⟨-, hpos, -⟩ := (hm' j d').mp hd'
    omega
  · rw [mem_append, hm, hm']
    constructor
    · rintro (⟨hk, hpos, hz, hd⟩ | ⟨hk, hpos, hz, hd⟩)
      · have := h'.le k hk
        exact ⟨hk, hpos, by omega, hd⟩
      · have := h.le k hk
        exact ⟨hk, by omega, hz, (h.dev k hk hpos).symm.trans hd⟩
    · rintro ⟨hk, hpos, hz, hd⟩
      by_cases ht : slots t k = 0
      · exact .inl ⟨hk, hpos, ht, hd⟩
      · exact .inr ⟨hk, by omega, hz, (h.dev k hk (by omega)).trans hd⟩
  · exact (h'.le k hk).trans (h.le k hk)
  · have := h'.le k hk
    exact (h'.dev k hk hpos).trans (h.dev k hk (by omega))

lemma Released.closes_grow (h : Released s t) (h' : Grows t s')
    (hz : ∀ k, k < fdnum → slots t k = 0 → slots s' k = 0) : Closes s s' := by
  obtain ⟨l, hl, hnd, hm⟩ := h.closes
  refine ⟨l, by rw [h'.closed, hl], hnd, fun k d => ?_⟩
  rw [hm]
  constructor
  · rintro ⟨hk, hpos, ht, hd⟩
    exact ⟨hk, hpos, hz k hk ht, hd⟩
  · rintro ⟨hk, hpos, ht, hd⟩
    have := h'.le k hk
    exact ⟨hk, hpos, by omega, hd⟩

def Kernel.withProcs (s : Kernel) (ps : Fin nproc → Option ThreadFs) : Kernel := { s with procs := ps }

lemma freeFd_withProcs (s : Kernel) (ps : Fin nproc → Option ThreadFs) (hk : k < fdnum) :
    freeFd (s.withProcs ps) k = (freeFd s k).map (·.withProcs ps) := by
  rw [freeFd_eq _ hk, freeFd_eq _ hk, map_some, apply_ite (Kernel.withProcs · ps)]
  congr 1
  have hd : devClose (s.withProcs ps) k = (devClose s k).withProcs ps := by
    unfold devClose
    simp only [Kernel.withProcs]
    split <;> rfl
  rw [hd]
  rfl

lemma freeFd_procs (hk : k < fdnum) (h : freeFd s k = some s') : s'.procs = s.procs := by
  rw [freeFd_eq s hk, some_inj] at h
  rw [← h]
  split
  · rw [procs_clearBit, procs_setFd, procs_devClose]
  · rfl

lemma withProcs_setSlot (h : s'.procs = s.procs) (v : ℤ) :
    s'.withProcs (s.setSlot p u v).procs = s'.setSlot p u v := by
  simp only [Kernel.withProcs, Kernel.setSlot, h]

lemma cloneAddCite_setSlot (s : Kernel) (v : ℤ) (hk : k < fdnum) : cloneAddCite (s.setSlot p u v) k =
      some ((s.setFd k { s.fds k with refcnt := (s.fds k).refcnt + 1 }).setSlot p u v) := by
  rw [cloneAddCite_eq _ hk]
  rfl

lemma Freed.released (h : Freed (s.setSlot p u v) k (slots (s.setSlot p u v) k = 0) s')
    (hc : ∀ j, j < fdnum → slots (s.setSlot p u v) j + (if j = k then 1 else 0) = slots s j)
    (hk : k < fdnum) (hd : (s.fds k).fdDev.isSome = true) : Released s s' := by
  obtain ⟨d, hd⟩ := isSome_iff_exists.mp hd
  have hs := slots_of_procs h.procs
  refine ⟨?_, fun j hj => ?_, fun j hj hpos => ?_⟩
  · by_cases hz : slots (s.setSlot p u v) k = 0
    · refine ⟨[(k, d)], by simpa [hd] using h.gone hz, by simp, fun j e => ?_⟩
      rw [mem_singleton, Prod.mk.injEq, hs]
      constructor
      · rintro ⟨rfl, rfl⟩
        have := hc j hk
        rw [if_pos rfl] at this
        exact ⟨hk, by omega, hz, hd⟩
      · rintro ⟨hj, hpos, hz', he⟩
        have := hc j hj
        split at this
        · next hjk =>
          subst hjk
          exact ⟨rfl, some_inj.mp (he.symm.trans hd)⟩
        · omega
    · refine ⟨[], by simpa using (h.kept hz).2, by simp, fun j e => ?_⟩
      simp only [not_mem_nil, false_iff]
      rintro ⟨hj, hpos, hz', -⟩
      have := hc j hj
      rw [hs] at hz'
      split at this
      · next hjk => exact hz (hjk ▸ hz')
      · omega
  · have := hc j hj
    rw [hs]
    omega
  · by_cases hjk : j = k
    · subst hjk
      rw [hs] at hpos
      exact (h.kept (by omega)).1
    · rw [h.other j hjk]
      rfl

lemma Balanced.release (h : Balanced s [] res) (hp : Alive s p) (hu : u < maxFdCount)
    (hs : s.slot p u = k) (hk : k < fdnum) :
    ∃ s', freeFd s k = some s' ∧ s'.procs = s.procs ∧ Balanced (s'.setSlot p u (-1)) [] res ∧
      Released s (s'.setSlot p u (-1)) := by
  have hcount : ∀ j, j < fdnum →
      slots (s.setSlot p u (-1)) j + (if j = k then 1 else 0) = slots s j := by
    intro j hj
    have hc := slots_setSlot s p u (-1) j hp hu
    rw [if_neg (show (-1 : ℤ) ≠ j by omega), hs] at hc
    simpa [eq_comm] using hc
  have hpos : 0 < slots s k := by
    have := hcount k hk
    rw [if_pos rfl] at this
    omega
  obtain ⟨t, ht, hbal, hfr⟩ := (h.take hp hu hs hk (by simp)).free (mem_singleton_self k)
  rw [erase_cons_head] at hbal hfr
  rw [count_nil, Nat.add_zero] at hfr
  have hrel := hfr.released hcount hk (h.dev k hk hpos)
  rw [show s.setSlot p u (-1) = s.withProcs (s.setSlot p u (-1)).procs from rfl,
    freeFd_withProcs _ _ hk, map_eq_some_iff] at ht
  obtain ⟨s', hs', rfl⟩ := ht
  have hpr := freeFd_procs hk hs'
  rw [withProcs_setSlot hpr] at hbal hrel
  exact ⟨s', hs', hpr, hbal, hrel⟩

def Kept (s : Kernel) (o : Option (ℤ × Kernel)) : Prop :=
  ∃ r s', o = some (r, s') ∧ Balanced s' [] ∅ ∧ Closes s s'

lemma Kept.same (h : Balanced s [] ∅) (r : ℤ) : Kept s (some (r, s)) :=
  ⟨r, s, rfl, h, (Grows.refl s).closes⟩

lemma Balanced.isKernFd_of_ne (h : Balanced s hand ∅) (hu : u < maxFdCount)
    (hs : s.slot p u ≠ -1) : isKernFd (s.slot p u) := by
  rcases h.range p u hu with he | hk | ⟨-, hm⟩
  · exact absurd he hs
  · exact hk
  · exact hm.elim

lemma inRange.lt {fd : ℤ} (h : inRange s p fd) : fd.toNat < maxFdCount := by
  have := limit_le s p
  have := h.1
  have := h.2
  omega

lemma isKernFd.exists_nat (h : isKernFd v) : ∃ k : ℕ, v = k ∧ k < fdnum :=
  ⟨v.toNat, by have := h.1; omega, by have := h.1; have := h.2; omega⟩

lemma slots_pos (hu : u < maxFdCount) (hs : s.slot p u = k) : 0 < slots s k :=
  Lib.occ_pos.mpr ⟨(p, u), mem_places.mpr hu, hs⟩

lemma closeFd_kept (h : Balanced s [] ∅) (hp : Alive s p) (fd : ℤ) : Kept s (closeFd s p fd) := by
  unfold closeFd
  split
  · exact .same h _
  · next hr =>
    rw [not_not] at hr
    split
    · exact .same h _
    · next hk =>
      obtain ⟨k, hs, hk⟩ := (not_not.mp hk).exists_nat
      obtain ⟨s', hf, -, hbal, hrel⟩ := h.release hp hr.lt hs hk
      rw [hs, hf]
      exact ⟨_, _, rfl, hbal, hrel.closes⟩

lemma allocUfd_cases (s : Kernel) (p : Fin nproc) :
    (∃ u : ℕ, u < maxFdCount ∧ s.slot p u = -1 ∧ allocUfd s p = ((u : ℤ), s.setSlot p u (fdnum + 1)))
      ∨ allocUfd s p = (-emfile, s) := by
  unfold allocUfd
  split
  · next i hi =>
    have hs := find?_some hi
    have hlt := mem_range.mp (mem_of_find?_eq_some hi)
    exact .inl ⟨i, hlt.trans_le (limit_le s p), by simpa using hs, rfl⟩
  · exact .inr rfl

lemma setSlot_setSlot (s : Kernel) (p : Fin nproc) (u : ℕ) (v w : ℤ) :
    (s.setSlot p u v).setSlot p u w = s.setSlot p u w := by
  simp only [Kernel.setSlot, Function.update_self, Function.update_idem, Option.map_map]
  cases s.procs p <;> simp [ThreadFs.set]

lemma Balanced.cite_place (h : Balanced s [] res) (hp : Alive s p) (hu : u < maxFdCount)
    (hs : s.slot p u = -1 ∨ s.slot p u = fdnum + 1) (hk : k < fdnum) (hpos : 0 < slots s k) :
    ∃ s', cloneAddCite (s.setSlot p u k) k = some s' ∧ Balanced s' [] (res \ {(p, u)}) ∧
      s'.procs = (s.setSlot p u k).procs ∧ Grows s s' := by
  refine ⟨_, cloneAddCite_setSlot s k hk, ?_, rfl, ?_⟩
  · have hb := (h.cite (by simp) hk hpos).place hp hu hs (mem_singleton_self k) ?_
    · rwa [erase_cons_head] at hb
    · rw [fds_setFd_self]
      exact h.dev k hk hpos
  · exact (Grows.setFd s k _).trans (.setSlot hp hu hs)

lemma dup_kept (h : Balanced s [] ∅) (hp : Alive s p) (fd : ℤ) : Kept s (dup s p fd) := by
  unfold dup
  split
  · exact .same h _
  · next hr =>
    split
    · exact .same h _
    · next hk =>
      obtain ⟨k, hs, hk⟩ := (not_not.mp hk).exists_nat
      rcases allocUfd_cases s p with ⟨u, hu, hfree, ha⟩ | ha
      · have hne : u ≠ fd.toNat := by
          rintro rfl
          omega
        have hp' : Alive (s.setSlot p u (fdnum + 1)) p := (alive_setSlot ..).mpr hp
        have hpos : 0 < slots (s.setSlot p u (fdnum + 1)) k :=
          slots_pos (not_not.mp hr).lt ((slot_setSlot_ne s p p u _ _ (.inr hne.symm)).trans hs)
        obtain ⟨s', hc, hbal, -, hg⟩ := (h.reserve hp hu hfree).cite_place hp' hu
          (.inr (slot_setSlot_self s p u _ hp)) hk hpos
        rw [ha, hs]
        simp only [show ¬ ((u : ℤ) < 0) by omega, if_false, Int.toNat_natCast, hc]
        refine ⟨_, _, rfl, by simpa using hbal, ((Grows.setSlot hp hu (.inl hfree)).trans hg).closes⟩
      · rw [ha]
        exact .same h _

def DupSource (s : Kernel) (p : Fin nproc) (old new : ℤ) : Prop :=
  old ≠ new → inRange s p old → inRange s p new → isKernFd (s.slot p new.toNat) →
    isKernFd (s.slot p old.toNat)

lemma slot_setSlot_neg_one (hp : Alive s p) (hs : s.slot p u = -1) (q : Fin nproc) (w : ℕ) :
    (s.setSlot p u (-1)).slot q w = s.slot q w := by
  by_cases he : q = p ∧ w = u
  · obtain ⟨rfl, rfl⟩ := he
    rw [slot_setSlot_self s q w _ hp, hs]
  · exact slot_setSlot_ne s p q u w _ (by tauto)

lemma Balanced.setSlot_neg_one (h : Balanced s hand res) (hp : Alive s p) (hs : s.slot p u = -1) :
    Balanced (s.setSlot p u (-1)) hand res :=
  h.congr rfl rfl fun q w _ => slot_setSlot_neg_one hp hs q w

lemma Released.setSlot_neg_one (hp : Alive s p) (hs : s.slot p u = -1) : Released s (s.setSlot p u (-1)) := by
  have he := slots_congr fun q w _ => slot_setSlot_neg_one hp hs q w
  refine ⟨Grows.closes ⟨rfl, fun k _ => (he k).ge, fun q => (alive_setSlot ..).mpr⟩,
    fun k _ => (he k).le, fun _ _ _ => rfl⟩

def dupOnto (p : Fin nproc) (old new : ℤ) (s : Kernel) : Option (ℤ × Kernel) :=
  if ¬ isKernFd (s.slot p old.toNat) then some (-ebadf, s)
  else do
    let s' ← cloneAddCite (s.setSlot p new.toNat (s.slot p old.toNat)) (s.slot p old.toNat)
    some (new, s')

structure DupChecked (s : Kernel) (p : Fin nproc) (old new : ℤ) : Prop where
  ne : old ≠ new
  old_inRange : inRange s p old
  new_inRange : inRange s p new
  lt : s.slot p new.toNat < fdnum

lemma dup3_of_checked (h : DupChecked s p old new) : dup3 s p old new =
    (if isKernFd (s.slot p new.toNat) then freeFd s (s.slot p new.toNat) else some s).bind
      (dupOnto p old new) := by
  rw [dup3, if_neg h.ne, if_neg (not_not.mpr h.old_inRange), if_neg (not_not.mpr h.new_inRange),
    if_neg (not_le.mpr h.lt)]
  by_cases hk : isKernFd (s.slot p new.toNat)
  · rw [if_pos hk, if_pos hk]
    rfl
  · rw [if_neg hk, if_neg hk]
    rfl

lemma dup3_of_not_checked (h : ¬ DupChecked s p old new) : ∃ r, dup3 s p old new = some (r, s) := by
  unfold dup3
  split
  · exact ⟨_, rfl⟩
  · next hne =>
    split
    · exact ⟨_, rfl⟩
    · next ho =>
      split
      · exact ⟨_, rfl⟩
      · next hn =>
        split
        · exact ⟨_, rfl⟩
        · next hge => exact absurd ⟨hne, not_not.mp ho, not_not.mp hn, not_le.mp hge⟩ h

lemma slot_of_procs (h : s'.procs = s.procs) (p : Fin nproc) (u : ℕ) : s'.slot p u = s.slot p u := by
  simp only [Kernel.slot, h]

lemma DupChecked.of_procs (h : DupChecked s p old new) (hpr : s'.procs = s.procs) : DupChecked s' p old new := by
  have hl : s'.limit p = s.limit p := by simp only [Kernel.limit, hpr]
  refine ⟨h.ne, ?_, ?_, ?_⟩
  · rw [inRange, hl]
    exact h.old_inRange
  · rw [inRange, hl]
    exact h.new_inRange
  · rw [slot_of_procs hpr]
    exact h.lt

lemma DupChecked.toNat_ne (h : DupChecked s p old new) : old.toNat ≠ new.toNat := by
  have := h.ne
  have := h.old_inRange.1
  have := h.new_inRange.1
  omega

lemma Balanced.dupOnto (h : Balanced (s.setSlot p new.toNat (-1)) [] ∅) (hp : Alive s p)
    (hc : DupChecked s p old new) (hk : isKernFd (s.slot p old.toNat)) :
    ∃ s', dupOnto p old new s = some (new, s') ∧ Balanced s' [] ∅ ∧
      Grows (s.setSlot p new.toNat (-1)) s' ∧
      ∀ k, k < fdnum → slots (s.setSlot p new.toNat (-1)) k = 0 → slots s' k = 0 := by
  obtain ⟨c, hs, hlt⟩ := hk.exists_nat
  have hu := hc.new_inRange.lt
  have hp' : Alive (s.setSlot p new.toNat (-1)) p := (alive_setSlot ..).mpr hp
  have hself := slot_setSlot_self s p new.toNat (-1) hp
  have hpos : 0 < slots (s.setSlot p new.toNat (-1)) c := by
    apply slots_pos hc.old_inRange.lt
    rw [slot_setSlot_ne s p p _ _ _ (.inr hc.toNat_ne), hs]
  obtain ⟨s', hcl, hb, hpr, hg⟩ := h.cite_place hp' hu (.inl hself) hlt hpos
  rw [setSlot_setSlot] at hcl
  refine ⟨s', ?_, by simpa using hb, hg, fun k hk hz => ?_⟩
  · rw [FdTable.dupOnto, if_neg (not_not.mpr hk), hs, hcl]
    rfl
  · have hcnt := slots_setSlot (s.setSlot p new.toNat (-1)) p new.toNat c k hp' hu
    have hck : (c : ℤ) ≠ k := by
      rw [Ne, Nat.cast_inj]
      rintro rfl
      omega
    rw [if_neg hck, hz] at hcnt
    rw [slots_of_procs hpr]
    omega

lemma dup3_kept (h : Balanced s [] ∅) (hp : Alive s p) (hsrc : DupSource s p old new) :
    Kept s (dup3 s p old new) := by
  by_cases hc : DupChecked s p old new
  · rw [dup3_of_checked hc]
    have hu := hc.new_inRange.lt
    by_cases hk : isKernFd (s.slot p new.toNat)
    · have hko := hsrc hc.ne hc.old_inRange hc.new_inRange hk
      obtain ⟨k, hs, hlt⟩ := hk.exists_nat
      obtain ⟨t, hf, hpr, hbal, hrel⟩ := h.release hp hu hs hlt
      have hpt : Alive t p := by
        rw [Alive, hpr]
        exact hp
      rw [← slot_of_procs hpr] at hko
      obtain ⟨s', hd, hb, hg, hz⟩ := hbal.dupOnto hpt (hc.of_procs hpr) hko
      rw [if_pos hk, hs, hf, bind_some, hd]
      exact ⟨_, _, rfl, hb, hrel.closes_grow hg hz⟩
    · rw [if_neg hk, bind_some]
      by_cases hko : isKernFd (s.slot p old.toNat)
      · have hfree : s.slot p new.toNat = -1 := by
          by_contra hn1
          exact hk (h.isKernFd_of_ne hu hn1)
        obtain ⟨s', hd, hb, hg, -⟩ := (h.setSlot_neg_one hp hfree).dupOnto hp hc hko
        rw [hd]
        exact ⟨_, _, rfl, hb, ((Grows.setSlot hp hu (.inl hfree)).trans hg).closes⟩
      · rw [dupOnto, if_pos hko]
        exact .same h _
  · obtain ⟨r, he⟩ := dup3_of_not_checked hc
    rw [he]
    exact .same h r

end FarmOS.Fs.FdTable

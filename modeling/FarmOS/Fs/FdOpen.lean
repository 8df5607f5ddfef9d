import FarmOS.Fs.FdOps

/-! The calls that create descriptors: `openat`, `pipe` and `socket`, with their error paths. -/

namespace FarmOS.Fs.FdTable

open List

variable {s t : Kernel} {hand : List ℕ} {res : Set (Fin nproc × ℕ)} {p : Fin nproc} {u v k : ℕ}

structure Pending (s t : Kernel) (p : Fin nproc) (hand : List ℕ) (res : Set (Fin nproc × ℕ)) :
    Prop where
  balanced : Balanced t hand res
  grows : Grows s t
  alive : Alive t p

lemma Pending.start (h : Balanced s [] ∅) (hp : Alive s p) : Pending s s p [] ∅ :=
  ⟨h, .refl s, hp⟩

lemma Pending.kept (h : Pending s t p [] ∅) (r : ℤ) : Kept s (some (r, t)) :=
  ⟨r, t, rfl, h.balanced, h.grows.closes⟩

lemma Pending.reserve (h : Pending s t p hand res) (hu : u < maxFdCount) (hs : t.slot p u = -1) :
    Pending s (t.setSlot p u (fdnum + 1)) p hand (insert (p, u) res) :=
  ⟨h.balanced.reserve h.alive hu hs, h.grows.trans (.setSlot h.alive hu (.inl hs)),
    (alive_setSlot ..).mpr h.alive⟩

lemma Pending.unreserve (h : Pending s t p hand (insert (p, u) res)) (hu : u < maxFdCount)
    (hs : t.slot p u = fdnum + 1) (hn : (p, u) ∉ res) : Pending s (t.setSlot p u (-1)) p hand res := by
  have hb := h.balanced.unreserve h.alive hu hs
  rw [Set.insert_sdiff_self_of_notMem hn] at hb
  exact ⟨hb, h.grows.trans (.setSlot h.alive hu (.inr hs)), (alive_setSlot ..).mpr h.alive⟩

lemma Pending.alloc (h : Pending s t p hand res) (hle : hand.length ≤ 1) (hk : k < fdnum)
    (hb : t.bit k = false) : Pending s ((t.setBit k).setFd k { refcnt := 1 }) p (k :: hand) res :=
  ⟨h.balanced.fdAlloc_some hle hk hb,
    h.grows.trans ((Grows.setBit t k).trans (.setFd _ k _)), h.alive⟩

lemma Pending.drop (h : Pending s t p (k :: hand) res) (hd : (t.fds k).fdDev = none) :
    ∃ t', freeFd t k = some t' ∧ Pending s t' p hand res := by
  obtain ⟨t', hf, hb, hfr⟩ := h.balanced.free mem_cons_self
  rw [erase_cons_head] at hb
  have hg := hfr.grows hd
  exact ⟨t', hf, hb, h.grows.trans hg, hg.alive p h.alive⟩

lemma Pending.setFd (h : Pending s t p hand res) {f : Fd} (hr : f.refcnt = (t.fds k).refcnt)
    (hd : f.fdDev.isSome = true) : Pending s (t.setFd k f) p hand res :=
  ⟨h.balanced.setFd hr hd, h.grows.trans (.setFd t k f), h.alive⟩

lemma Pending.place (h : Pending s t p hand res) (hu : u < maxFdCount)
    (hs : t.slot p u = -1 ∨ t.slot p u = fdnum + 1) (hk : k ∈ hand)
    (hd : (t.fds k).fdDev.isSome = true) :
    Pending s (t.setSlot p u k) p (hand.erase k) (res \ {(p, u)}) :=
  ⟨h.balanced.place h.alive hu hs hk hd, h.grows.trans (.setSlot h.alive hu hs),
    (alive_setSlot ..).mpr h.alive⟩

lemma freeUfd_eq (h : t.slot p u = fdnum + 1) : freeUfd t p u = some (t.setSlot p u (-1)) := by
  rw [freeUfd, Int.toNat_natCast, if_neg (by omega)]

lemma natCast_not_neg (n : ℕ) : ¬ ((n : ℤ) < 0) := by omega

lemma openat_kept (h : Balanced s [] ∅) (hp : Alive s p) (a : OpenArgs) : Kept s (openat s p a) := by
  unfold openat
  split
  · exact .same h _
  · split
    · exact .same h _
    · rcases allocUfd_cases s p with ⟨u, hu, hfree, ha⟩ | ha
      · have hres := (Pending.start h hp).reserve hu hfree
        have hself := slot_setSlot_self s p u (fdnum + 1) hp
        generalize s.setSlot p u (fdnum + 1) = t at *
        rw [ha]
        simp only [natCast_not_neg, if_false]
        rcases fdAlloc_cases t with ⟨k, hk, hb, hf⟩ | hf
        · have hal := hres.alloc (by simp) hk hb
          rw [hf]
          simp only [natCast_not_neg, if_false, Int.toNat_natCast]
          cases a.resolve with
          | error r =>
            have hun := hal.unreserve hu hself (by simp)
            obtain ⟨t', hfr, hdone⟩ := hun.drop (by simp)
            have hself' : ((t.setBit k).setFd k { refcnt := 1 }).slot p u = fdnum + 1 := hself
            simp only [freeUfd_eq hself', Option.bind_eq_bind, Option.bind_some, hfr]
            exact hdone.kept r
          | ok d =>
            have hset := hal.setFd (k := k) (f := a.opened d _) rfl rfl
            have hdone := hset.place hu (.inr hself) mem_cons_self (by rw [fds_setFd_self]; rfl)
            rw [erase_cons_head, insert_empty_eq, Set.sdiff_self] at hdone
            exact hdone.kept u
        · rw [hf]
          simp only [show -enfile < 0 by decide, if_true, freeUfd_eq hself]
          exact (hres.unreserve hu hself (by simp)).kept _
      · rw [ha]
        exact .same h _

lemma socket_kept (h : Balanced s [] ∅) (hp : Alive s p) (flags : UInt32) (n : Option ℕ) :
    Kept s (socket s p flags n) := by
  unfold socket
  split
  · exact .same h _
  · next u hfind =>
    have hfree : s.slot p u = -1 := by simpa using find?_some hfind
    have hu := mem_range.mp (mem_of_find?_eq_some hfind)
    cases n with
    | none => exact .same h _
    | some sock =>
      rcases fdAlloc_cases s with ⟨k, hk, hb, hf⟩ | hf
      · have hal := (Pending.start h hp).alloc (by simp) hk hb
        have hset := hal.setFd (k := k) (f := socketEnd sock flags _) rfl rfl
        have hdone := hset.place hu (.inl hfree) mem_cons_self (by rw [fds_setFd_self]; rfl)
        rw [erase_cons_head, Set.empty_sdiff] at hdone
        simp only [hf, natCast_not_neg, if_false, Int.toNat_natCast]
        exact hdone.kept u
      · simp only [hf, show -enfile < 0 by decide, if_true]
        exact .same h _

lemma freeBothUfd_left (h : t.slot p u = fdnum + 1) {r : ℤ} (hr : r < 0) :
    freeBothUfd t p u r = some (t.setSlot p u (-1)) := by
  simp [freeBothUfd, freeUfd_eq h, not_le.mpr hr]

lemma freeBothUfd_both (hu : t.slot p u = fdnum + 1) (hv : t.slot p v = fdnum + 1) (hne : v ≠ u) :
    freeBothUfd t p u v = some ((t.setSlot p u (-1)).setSlot p v (-1)) := by
  have hv' := (slot_setSlot_ne t p p u v (-1) (.inr hne)).trans hv
  simp [freeBothUfd, freeUfd_eq hu, freeUfd_eq hv']

lemma Pending.unreserve_both (h : Pending s t p hand {(p, v), (p, u)}) (hu : u < maxFdCount)
    (hv : v < maxFdCount) (hsu : t.slot p u = fdnum + 1) (hsv : t.slot p v = fdnum + 1) (hne : v ≠ u) :
    Pending s ((t.setSlot p u (-1)).setSlot p v (-1)) p hand ∅ := by
  rw [Set.pair_comm] at h
  refine Pending.unreserve ?_ hv ((slot_setSlot_ne _ _ _ _ _ _ (.inr hne)).trans hsv) (by simp)
  rw [insert_empty_eq]
  exact h.unreserve hu hsu (by simp [hne.symm])

lemma pair_erase (j k : ℕ) : [j, k].erase k = [j] := by
  by_cases h : j = k
  · simp [h]
  · simp [h]

lemma Pending.pipe_ends {addr j : ℕ} (h : Pending s t p [j, k] {(p, v), (p, u)}) (hu : u < maxFdCount)
    (hv : v < maxFdCount) (hsu : t.slot p u = fdnum + 1) (hsv : t.slot p v = fdnum + 1) (hne : v ≠ u) :
    let t1 := (t.setFd k (pipeEnd addr 0 (t.fds k))).setSlot p u k
    Kept s (some (0, (t1.setFd j (pipeEnd addr 1 (t1.fds j))).setSlot p v j)) := by
  intro t1
  have h1 := (h.setFd (k := k) (f := pipeEnd addr 0 (t.fds k)) rfl rfl).place hu (.inr hsu)
    (by simp : k ∈ [j, k]) (by rw [fds_setFd_self]; rfl)
  have hslot : t1.slot p v = fdnum + 1 :=
    (slot_setSlot_ne (t.setFd k (pipeEnd addr 0 (t.fds k))) p p u v k (.inr hne)).trans hsv
  rw [pair_erase] at h1
  have h2 := (h1.setFd (k := j) (f := pipeEnd addr 1 (t1.fds j)) rfl rfl).place hv (.inr hslot)
    mem_cons_self (by rw [fds_setFd_self]; rfl)
  rw [erase_cons_head, Set.sdiff_sdiff, Set.union_comm, Set.singleton_union,
    Set.sdiff_self] at h2
  exact h2.kept 0

lemma pipe_kept (h : Balanced s [] ∅) (hp : Alive s p) (addr : ℕ) : Kept s (pipe s p addr) := by
  unfold pipe
  have hneg : (-emfile : ℤ) < 0 := by decide
  rcases allocUfd_cases s p with ⟨u, hu, hfree, ha⟩ | ha
  · have hres := (Pending.start h hp).reserve hu hfree
    have hself := slot_setSlot_self s p u (fdnum + 1) hp
    generalize s.setSlot p u (fdnum + 1) = t at *
    simp only [ha]
    rcases allocUfd_cases t p with ⟨v, hv, hfree', ha'⟩ | ha'
    · have hne : v ≠ u := by
        rintro rfl
        omega
      have hres' := hres.reserve hv hfree'
      have hv' := slot_setSlot_self t p v (fdnum + 1) hres.alive
      have hu' := (slot_setSlot_ne t p p v u (fdnum + 1) (.inr hne.symm)).trans hself
      rw [insert_empty_eq] at hres'
      generalize t.setSlot p v (fdnum + 1) = t' at *
      simp only [ha', natCast_not_neg, or_self, if_false]
      rcases fdAlloc_cases t' with ⟨k, hk, hb, hf⟩ | hf
      · have hal := hres'.alloc (by simp) hk hb
        have hu'' : ((t'.setBit k).setFd k { refcnt := 1 }).slot p u = fdnum + 1 := hu'
        have hv'' : ((t'.setBit k).setFd k { refcnt := 1 }).slot p v = fdnum + 1 := hv'
        have hdev : (((t'.setBit k).setFd k { refcnt := 1 }).fds k).fdDev = none := by simp
        generalize (t'.setBit k).setFd k { refcnt := 1 } = t'' at *
        simp only [hf, natCast_not_neg, if_false]
        rcases fdAlloc_cases t'' with ⟨j, hj, hb', hf'⟩ | hf'
        · simp only [hf', natCast_not_neg, if_false, Int.toNat_natCast]
          exact (hal.alloc (by simp) hj hb').pipe_ends hu hv hu'' hv'' hne
        · have hun := hal.unreserve_both hu hv hu'' hv'' hne
          obtain ⟨_, hfr, hdone⟩ := hun.drop (by simpa using hdev)
          simp only [hf', show -enfile < 0 by decide, if_true, freeBothUfd_both hu'' hv'' hne,
            Option.bind_eq_bind, Option.bind_some, hfr]
          exact hdone.kept _
      · simp only [hf, show -enfile < 0 by decide, if_true, freeBothUfd_both hu' hv' hne]
        exact (hres'.unreserve_both hu hv hu' hv' hne).kept _
    · simp only [ha', hneg, or_true, if_true, freeBothUfd_left hself hneg]
      exact (hres.unreserve hu hself (by simp)).kept _
  · simp only [ha]
    simp only [hneg, true_or, if_true]
    exact .same h _

end FarmOS.Fs.FdTable

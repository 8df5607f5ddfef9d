import FarmOS.Fs.Buf

/-! The block cache refines a flat map of blocks, whatever is cached, evicted or referenced. -/

namespace FarmOS.Fs.Buf

open Lib List Option

variable {n : ℕ} {dev : UInt32} {blockno : UInt64} {w : World n} {m : Disk}

section Access

variable (s : Cache n) (p q : Ptr n) (b : Buffer) (g : UInt64) (l : List (Fin n))

@[simp] lemma at_setBuf_self : (s.setBuf p b).at p = b := by simp [Cache.at, Cache.setBuf]

lemma at_setBuf_ne (h : q ≠ p) : (s.setBuf p b).at q = s.at q := by
  obtain ⟨gq, i⟩ := q
  obtain ⟨gp, j⟩ := p
  by_cases hg : gq = gp
  · subst hg
    have hi : i ≠ j := by rintro rfl; exact h rfl
    simp [Cache.at, Cache.setBuf, hi]
  · simp [Cache.at, Cache.setBuf, hg]

@[simp] lemma list_setBuf : ((s.setBuf p b).groups g).list = (s.groups g).list := by
  by_cases hg : g = p.group
  · subst hg; simp [Cache.setBuf]
  · simp [Cache.setBuf, hg]

@[simp] lemma disk_setBuf : (s.setBuf p b).disk = s.disk := rfl

@[simp] lemma setBuf_setBuf (c : Buffer) : (s.setBuf p b).setBuf p c = s.setBuf p c := by
  simp [Cache.setBuf]

@[simp] lemma at_setList : (s.setList g l).at p = s.at p := by
  by_cases hg : p.group = g
  · subst hg; simp [Cache.at, Cache.setList]
  · simp [Cache.at, Cache.setList, hg]

@[simp] lemma disk_setList : (s.setList g l).disk = s.disk := rfl

lemma list_setList_self : ((s.setList g l).groups g).list = l := by simp [Cache.setList]

lemma list_setList_ne (h : UInt64) (hne : h ≠ g) :
    ((s.setList g l).groups h).list = (s.groups h).list := by simp [Cache.setList, hne]

lemma lookup_eq (dev : UInt32) (blockno : UInt64) : (s.groups g).lookup dev blockno =
    (s.groups g).list.find? fun i => matchesBlock dev blockno (s.at ⟨g, i⟩) := rfl

end Access

def flush (s : Cache n) (p : Ptr n) : Cache n :=
  if (s.at p).valid && (s.at p).dirty then diskRw s p true else s

@[simp] lemma at_flush (s : Cache n) (p q : Ptr n) : (flush s p).at q = s.at q := by
  unfold flush
  split <;> rfl

@[simp] lemma groups_flush (s : Cache n) (p : Ptr n) : (flush s p).groups = s.groups := by
  unfold flush
  split <;> rfl

lemma matchesBlock_iff (dev : UInt32) (blockno : UInt64) (b : Buffer) :
    matchesBlock dev blockno b = true ↔ b.dev = dev ∧ b.blockno = blockno := by
  simp [matchesBlock]

lemma find_of_imp {α : Type*} {l : List α} {P Q : α → Bool} {j : α} (h : l.find? P = some j)
    (hq : ∀ i ∈ l, Q i = true → P i = true) (hj : Q j = true) : l.find? Q = some j := by
  rw [find?_eq_some_iff_append] at h ⊢
  obtain ⟨_, as, bs, rfl, hn⟩ := h
  refine ⟨hj, as, bs, rfl, fun a ha => ?_⟩
  have := hn a ha
  have hi := hq a (by simp [ha])
  cases hqa : Q a <;> simp_all

inductive Acquired (s : Cache n) (dev : UInt32) (blockno : UInt64) (isRead : Bool)
    (p : Ptr n) : Cache n → Prop
  | hit : (s.groups p.group).lookup dev blockno = some p.index → (s.at p).valid = true →
      Acquired s dev blockno isRead p (s.setBuf p { s.at p with refcnt := (s.at p).refcnt + 1 })
  | load : (s.groups p.group).lookup dev blockno = some p.index → (s.at p).valid = false →
      Acquired s dev blockno isRead p (s.setBuf p { s.at p with
        refcnt := (s.at p).refcnt + 1, valid := true,
        data := if isRead then s.disk (s.at p).dev (s.at p).blockno else (s.at p).data })
  | miss : (s.groups p.group).lookup dev blockno = none → (s.at p).refcnt = 0 →
      Acquired s dev blockno isRead p ((flush s p).setBuf p
        ⟨blockno, dev, true, false, 1,
          if isRead then (flush s p).disk dev blockno else (s.at p).data⟩)

lemma bufRead_acquired {s s' : Cache n} {isRead : Bool}
    {p : Ptr n} (h : bufRead s dev blockno isRead = some (p, s')) :
    p.group = groupOf blockno ∧ Acquired s dev blockno isRead p s' := by
  simp only [bufRead, bufAlloc] at h
  cases hl : (s.groups (groupOf blockno)).lookup dev blockno with
  | some i =>
    simp only [hl, map_some, some.injEq, Prod.mk.injEq] at h
    obtain ⟨rfl, rfl⟩ := h
    refine ⟨rfl, ?_⟩
    by_cases hv : (s.at ⟨groupOf blockno, i⟩).valid = true
    · rw [fill, if_pos (by simpa using hv)]
      exact .hit hl hv
    · rw [fill, if_neg (by simpa using hv)]
      rw [Bool.not_eq_true] at hv
      cases isRead <;> simp only [at_setBuf_self, diskRw, setBuf_setBuf, disk_setBuf,
        if_true, Bool.false_eq_true, if_false] <;> exact .load hl hv
  | none =>
    simp only [hl] at h
    cases hk : (s.groups (groupOf blockno)).victim with
    | none => simp [hk] at h
    | some i =>
      simp only [hk, map_some, some.injEq, Prod.mk.injEq] at h
      obtain ⟨rfl, rfl⟩ := h
      refine ⟨rfl, ?_⟩
      have hz : (s.at ⟨groupOf blockno, i⟩).refcnt = 0 := by
        simpa [Cache.at] using find?_some hk
      have he : evict s ⟨groupOf blockno, i⟩ dev blockno = (flush s ⟨groupOf blockno, i⟩).setBuf
          ⟨groupOf blockno, i⟩ ⟨blockno, dev, false, false, 1, (s.at ⟨groupOf blockno, i⟩).data⟩ := by
        rw [← at_flush s ⟨groupOf blockno, i⟩]
        rfl
      rw [he]
      cases isRead <;> simp only [fill, at_setBuf_self, diskRw, setBuf_setBuf, disk_setBuf,
        if_true, Bool.false_eq_true, if_false] <;> exact .miss hl hz

structure Inv (w : World n) (m : Disk) : Prop where
  order (g : UInt64) : (w.cache.groups g).list.Perm (finRange n)
  home (p : Ptr n) : (w.cache.at p).valid = true → p.group = groupOf (w.cache.at p).blockno
  found (p : Ptr n) : (w.cache.at p).valid = true →
    (w.cache.groups p.group).lookup (w.cache.at p).dev (w.cache.at p).blockno = some p.index
  count (p : Ptr n) : (w.cache.at p).refcnt.toNat = w.held.countP (·.ptr = p)
  refs (r : Ref n) : r ∈ w.held → (w.cache.at r.ptr).valid = true ∧
    (w.cache.at r.ptr).dev = r.dev ∧ (w.cache.at r.ptr).blockno = r.blockno
  bound : w.held.length < 65536
  cached (p : Ptr n) : (w.cache.at p).valid = true →
    (w.cache.at p).data = m (w.cache.at p).dev (w.cache.at p).blockno
  clean (p : Ptr n) : (w.cache.at p).valid = true → (w.cache.at p).dirty = false →
    w.cache.disk (w.cache.at p).dev (w.cache.at p).blockno = (w.cache.at p).data
  missing (dev : UInt32) (blockno : UInt64) :
    (∀ p : Ptr n, (w.cache.at p).valid = true → (w.cache.at p).dev = dev →
      (w.cache.at p).blockno ≠ blockno) → w.cache.disk dev blockno = m dev blockno

lemma Inv.unique (h : Inv w m) {p : Ptr n} {o : Option (Fin n)} (hp : (w.cache.at p).valid = true)
    (hd : (w.cache.at p).dev = dev) (hb : (w.cache.at p).blockno = blockno)
    (hl : (w.cache.groups (groupOf blockno)).lookup dev blockno = o) :
    p.group = groupOf blockno ∧ o = some p.index := by
  subst hd hb hl
  refine ⟨h.home p hp, ?_⟩
  rw [← h.home p hp]
  exact h.found p hp

lemma lookup_matches {s : Cache n} {g : UInt64} {i : Fin n} (h : (s.groups g).lookup dev blockno = some i) :
    (s.at ⟨g, i⟩).dev = dev ∧ (s.at ⟨g, i⟩).blockno = blockno := by
  have hm := find?_some h
  exact (matchesBlock_iff _ _ _).mp hm

lemma lookup_setBuf_same (s : Cache n) (p : Ptr n) (b : Buffer) (g : UInt64) (dev : UInt32)
    (blockno : UInt64) (hd : b.dev = (s.at p).dev) (hb : b.blockno = (s.at p).blockno) :
    ((s.setBuf p b).groups g).lookup dev blockno = (s.groups g).lookup dev blockno := by
  rw [lookup_eq, lookup_eq, list_setBuf]
  congr 1
  funext i
  by_cases he : (⟨g, i⟩ : Ptr n) = p
  · simp [he, matchesBlock, hd, hb]
  · rw [at_setBuf_ne _ _ _ _ he]

structure Reuse (w : World n) (m : Disk) (p : Ptr n) (dev : UInt32) (blockno : UInt64) : Prop where
  group : p.group = groupOf blockno
  source : (w.cache.groups p.group).lookup dev blockno = some p.index ∨
    (w.cache.groups p.group).lookup dev blockno = none ∧ (w.cache.at p).refcnt = 0 ∧
      ((w.cache.at p).valid = true → w.cache.disk (w.cache.at p).dev (w.cache.at p).blockno =
        m (w.cache.at p).dev (w.cache.at p).blockno)

lemma Inv.no_refs (h : Inv w m) {p : Ptr n}
    (hz : (w.cache.at p).refcnt = 0) {r : Ref n} (hr : r ∈ w.held) : r.ptr ≠ p := by
  intro he
  have hc := h.count p
  rw [hz] at hc
  exact absurd (countP_eq_zero.mp hc.symm r hr) (by simp [he])

lemma Reuse.other {p q : Ptr n} (hr : Reuse w m p dev blockno) (h : Inv w m) (hq : q ≠ p)
    (hv : (w.cache.at q).valid = true) (hd : (w.cache.at q).dev = dev) :
    (w.cache.at q).blockno ≠ blockno := by
  intro hb
  obtain ⟨hg, hs⟩ := hr
  rw [hg] at hs
  obtain ⟨hgq, hs'⟩ | ⟨hgq, hs'⟩ := hs.imp (h.unique hv hd hb) (fun h' => h.unique hv hd hb h'.1)
  · obtain ⟨gq, i⟩ := q
    obtain ⟨gp, j⟩ := p
    simp only [some.injEq] at hs' hgq hg
    exact hq (by rw [hgq, hg, hs'])
  · cases hs'

lemma Inv.found_setBuf (h : Inv w m) {p : Ptr n} (hr : Reuse w m p dev blockno) {b : Buffer} (hd : b.dev = dev)
    (hb : b.blockno = blockno) {q : Ptr n} (hv : ((w.cache.setBuf p b).at q).valid = true) :
    ((w.cache.setBuf p b).groups q.group).lookup ((w.cache.setBuf p b).at q).dev
      ((w.cache.setBuf p b).at q).blockno = some q.index := by
  rcases hr.source with hs | ⟨hs, -, -⟩
  · obtain ⟨hpd, hpb⟩ := lookup_matches hs
    rw [lookup_setBuf_same _ _ _ _ _ _ (by simp [hd, hpd]) (by simp [hb, hpb])]
    by_cases hq : q = p
    · subst hq
      simpa [hd, hb] using hs
    · rw [at_setBuf_ne _ _ _ _ hq] at hv ⊢
      exact h.found q hv
  · by_cases hq : q = p
    · subst hq
      subst hd hb
      rw [at_setBuf_self, lookup_eq, list_setBuf]
      rw [lookup_eq, find?_eq_none] at hs
      have hm : q.index ∈ (w.cache.groups q.group).list :=
        (h.order q.group).mem_iff.mpr (mem_finRange _)
      cases hf : (w.cache.groups q.group).list.find? fun i =>
          matchesBlock b.dev b.blockno ((w.cache.setBuf q b).at ⟨q.group, i⟩) with
      | none => exact absurd (find?_eq_none.mp hf _ hm) (by simp [matchesBlock])
      | some i =>
        by_cases hi : (⟨q.group, i⟩ : Ptr n) = q
        · rw [← hi]
        · have hx := find?_some hf
          rw [at_setBuf_ne _ _ _ _ hi] at hx
          exact absurd hx (hs i (mem_of_find?_eq_some hf))
    · rw [at_setBuf_ne _ _ _ _ hq] at hv ⊢
      rw [lookup_eq, list_setBuf]
      have hf := h.found q hv
      rw [lookup_eq] at hf
      refine find_of_imp hf (fun i _ hi => ?_) ?_
      · by_cases he : (⟨q.group, i⟩ : Ptr n) = p
        · rw [he, at_setBuf_self, matchesBlock_iff, hd, hb] at hi
          exact absurd hi.2.symm (hr.other h hq hv hi.1.symm)
        · rwa [at_setBuf_ne _ _ _ _ he] at hi
      · rw [at_setBuf_ne _ _ _ _ hq]
        simp [matchesBlock]

end FarmOS.Fs.Buf

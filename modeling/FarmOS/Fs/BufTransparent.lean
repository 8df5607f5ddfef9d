import FarmOS.Fs.BufCache

/-! Every run of cache accesses is a run of the flat map. -/

namespace FarmOS.Fs.Buf

open Lib Function List Option

variable {n : ℕ} {w w' : World n} {m : Disk} {p : Ptr n} {dev : UInt32} {blockno : UInt64} {b : Buffer}
  {pre post : List (Ref n)} {s : Cache n} {isRead : Bool} {r : Ref n} {e : Event}

lemma Inv.setBuf {m' : Disk} (h : Inv w m) (hr : Reuse w m p dev blockno) {held : List (Ref n)}
    (hd : b.dev = dev) (hb : b.blockno = blockno) (hv : b.valid = true)
    (hcount : ∀ q, q ≠ p → held.countP (·.ptr = q) = w.held.countP (·.ptr = q))
    (hself : b.refcnt.toNat = held.countP (·.ptr = p))
    (hheld : ∀ r ∈ held, r ∈ w.held ∨ r = ⟨p, dev, blockno⟩) (hlen : held.length < 65536)
    (hdata : b.data = m' dev blockno) (hclean : b.dirty = false → w.cache.disk dev blockno = b.data)
    (hm : ∀ d c, d = dev → c ≠ blockno → m' d c = m d c) (hm' : ∀ d c, d ≠ dev → m' d c = m d c) :
    Inv ⟨w.cache.setBuf p b, held⟩ m' := by
  have hother : ∀ q, q ≠ p → (w.cache.at q).valid = true →
      m' (w.cache.at q).dev (w.cache.at q).blockno = m (w.cache.at q).dev (w.cache.at q).blockno := by
    intro q hq hqv
    by_cases he : (w.cache.at q).dev = dev
    · exact hm _ _ he (hr.other h hq hqv he)
    · exact hm' _ _ he
  constructor
  · intro g
    simpa using h.order g
  · intro q hqv
    by_cases hq : q = p
    · subst hq
      simpa [hb] using hr.group
    · simp only [at_setBuf_ne _ _ _ _ hq] at hqv ⊢
      exact h.home q hqv
  · intro q hqv
    exact h.found_setBuf hr hd hb hqv
  · intro q
    by_cases hq : q = p
    · subst hq
      simpa using hself
    · simpa only [at_setBuf_ne _ _ _ _ hq, hcount q hq] using h.count q
  · intro r hrm
    by_cases hq : r.ptr = p
    · rw [hq]
      simp only [at_setBuf_self, hv, hd, hb, true_and]
      rcases hheld r hrm with hrw | rfl
      · rcases hr.source with hs | ⟨-, hz, -⟩
        · obtain ⟨-, hrd, hrb⟩ := h.refs r hrw
          obtain ⟨hpd, hpb⟩ := lookup_matches hs
          rw [hq] at hrd hrb
          exact ⟨hpd.symm.trans hrd, hpb.symm.trans hrb⟩
        · exact absurd hq (h.no_refs hz hrw)
      · exact ⟨rfl, rfl⟩
    · simp only [at_setBuf_ne _ _ _ _ hq]
      rcases hheld r hrm with hrw | rfl
      · exact h.refs r hrw
      · exact absurd rfl hq
  · exact hlen
  · intro q hqv
    by_cases hq : q = p
    · subst hq
      simpa [hd, hb] using hdata
    · simp only [at_setBuf_ne _ _ _ _ hq] at hqv ⊢
      rw [hother q hq hqv]
      exact h.cached q hqv
  · intro q hqv hqd
    by_cases hq : q = p
    · subst hq
      simp only [at_setBuf_self, disk_setBuf, hd, hb] at hqd ⊢
      exact hclean hqd
    · simp only [at_setBuf_ne _ _ _ _ hq, disk_setBuf] at hqv hqd ⊢
      exact h.clean q hqv hqd
  · intro d c hno
    have hne : d = dev → c ≠ blockno := by
      intro hde hce
      exact hno p (by simp [hv]) (by simp [hd, hde]) (by simp [hb, hce])
    have hmm : m' d c = m d c := by
      by_cases hde : d = dev
      · exact hm d c hde (hne hde)
      · exact hm' d c hde
    rw [disk_setBuf, hmm]
    rcases hr.source with hs | ⟨-, -, hdisk⟩
    · obtain ⟨hpd, hpb⟩ := lookup_matches hs
      refine h.missing d c fun q hqv hqd => ?_
      by_cases hq : q = p
      · subst hq
        rw [hpb]
        exact fun hc => hne (hqd.symm.trans hpd) hc.symm
      · have := hno q (by simpa [at_setBuf_ne _ _ _ _ hq] using hqv)
        simp only [at_setBuf_ne _ _ _ _ hq] at this
        exact this hqd
    · by_cases hp : (w.cache.at p).valid = true ∧ (w.cache.at p).dev = d ∧ (w.cache.at p).blockno = c
      · obtain ⟨hpv, rfl, rfl⟩ := hp
        exact hdisk hpv
      · refine h.missing d c fun q hqv hqd hqc => ?_
        by_cases hq : q = p
        · subst hq
          exact hp ⟨hqv, hqd, hqc⟩
        · have := hno q (by simpa [at_setBuf_ne _ _ _ _ hq] using hqv)
          simp only [at_setBuf_ne _ _ _ _ hq] at this
          exact this hqd hqc

lemma flush_disk (s : Cache n) (p : Ptr n) (dev : UInt32) (blockno : UInt64) : (flush s p).disk dev blockno =
      if (s.at p).valid = true ∧ (s.at p).dirty = true ∧ dev = (s.at p).dev ∧
        blockno = (s.at p).blockno then (s.at p).data else s.disk dev blockno := by
  unfold flush
  by_cases hv : (s.at p).valid = true <;> by_cases hd : (s.at p).dirty = true <;>
    simp only [hv, hd, Bool.and_true, Bool.and_false, if_true, if_false, true_and, false_and,
      Bool.false_eq_true]
  by_cases hdev : dev = (s.at p).dev
  · subst hdev
    by_cases hb : blockno = (s.at p).blockno
    · subst hb
      simp [diskRw]
    · simp [diskRw, hb]
  · simp [diskRw, hdev]

lemma Inv.flush (h : Inv w m) (p : Ptr n) : Inv ⟨flush w.cache p, w.held⟩ m := by
  have hdisk : ∀ q, (w.cache.at q).valid = true → q ≠ p →
      (Buf.flush w.cache p).disk (w.cache.at q).dev (w.cache.at q).blockno =
        w.cache.disk (w.cache.at q).dev (w.cache.at q).blockno := by
    intro q hq hne
    rw [flush_disk, if_neg]
    rintro ⟨hp, -, hd, hb⟩
    have hf := h.found q hq
    rw [h.home q hq] at hf
    obtain ⟨hg, hi⟩ := h.unique hp hd.symm hb.symm hf
    have hgq := h.home q hq
    obtain ⟨gq, i⟩ := q
    obtain ⟨gp, j⟩ := p
    simp only [some.injEq] at hi hg hgq
    exact hne (by rw [hi, hgq, hg])
  constructor
  · simpa using h.order
  · simpa using h.home
  · simpa using h.found
  · simpa using h.count
  · simpa using h.refs
  · exact h.bound
  · simpa using h.cached
  · intro q hq hd
    simp only [at_flush] at hq hd ⊢
    by_cases hne : q = p
    · subst hne
      rw [flush_disk, if_neg (by simp [hd])]
      exact h.clean q hq hd
    · rw [hdisk q hq hne]
      exact h.clean q hq hd
  · intro dev blockno hno
    simp only [at_flush] at hno
    rw [flush_disk, if_neg]
    · exact h.missing dev blockno hno
    · rintro ⟨hp, -, hd, hb⟩
      exact hno p hp hd.symm hb.symm

lemma Inv.flushed (h : Inv w m) (p : Ptr n) (hv : (w.cache.at p).valid = true) :
    (Buf.flush w.cache p).disk (w.cache.at p).dev (w.cache.at p).blockno = (w.cache.at p).data := by
  rw [flush_disk]
  split
  · rfl
  · rename_i hn
    exact h.clean p hv (by simpa [hv] using hn)

lemma Reuse.absent (hr : Reuse w m p dev blockno) (h : Inv w m)
    (hp : (w.cache.at p).valid = false ∨ (w.cache.groups p.group).lookup dev blockno = none) :
    w.cache.disk dev blockno = m dev blockno := by
  refine h.missing dev blockno fun q hqv hqd => ?_
  by_cases hq : q = p
  · subst hq
    rcases hp with hp | hp
    · simp [hp] at hqv
    · intro hqb
      rw [hr.group] at hp
      cases (h.unique hqv hqd hqb hp).2
  · exact hr.other h hq hqv hqd

lemma succ_toNat {a : UInt16} {k : ℕ} (h : a.toNat = k) (hk : k < 65535) : (a + 1).toNat = k + 1 := by
  rw [UInt16.toNat_add]
  subst h
  exact Nat.mod_eq_of_lt (by simpa using Nat.succ_lt_succ hk)

lemma Inv.acquired (h : Inv w m) (hg : p.group = groupOf blockno)
    (hlen : w.held.length < 65535) (ha : Acquired w.cache dev blockno isRead p s) :
    ∃ (c : Cache n) (b : Buffer), Inv ⟨c, w.held⟩ m ∧ Reuse ⟨c, w.held⟩ m p dev blockno ∧
      s = c.setBuf p b ∧ b.dev = dev ∧ b.blockno = blockno ∧ b.valid = true ∧
      b.refcnt.toNat = w.held.countP (·.ptr = p) + 1 ∧
      (isRead = true → b.data = m dev blockno ∧ (b.dirty = false → c.disk dev blockno = b.data)) := by
  have hk : w.held.countP (·.ptr = p) < 65535 := countP_le_length.trans_lt hlen
  cases ha with
  | hit hl hv =>
    obtain ⟨hd, hb⟩ := lookup_matches hl
    refine ⟨_, _, h, ⟨hg, .inl hl⟩, rfl, hd, hb, hv, succ_toNat (h.count p) hk, fun _ => ?_⟩
    subst hd hb
    exact ⟨h.cached p hv, h.clean p hv⟩
  | load hl hv =>
    obtain ⟨hd, hb⟩ := lookup_matches hl
    have hr : Reuse w m p dev blockno := ⟨hg, .inl hl⟩
    refine ⟨_, _, h, hr, rfl, hd, hb, rfl, succ_toNat (h.count p) hk, ?_⟩
    rintro rfl
    have hdisk := hr.absent h (.inl hv)
    rw [← hd, ← hb] at hdisk ⊢
    exact ⟨hdisk, fun _ => rfl⟩
  | miss hl hz =>
    have hf := h.flush p
    have hr : Reuse ⟨Buf.flush w.cache p, w.held⟩ m p dev blockno := by
      refine ⟨hg, .inr ⟨by simpa using hl, by simpa using hz, fun hv => ?_⟩⟩
      simp only [at_flush] at hv ⊢
      rw [h.flushed p hv, h.cached p hv]
    have hc := h.count p
    rw [hz] at hc
    refine ⟨_, _, hf, hr, rfl, rfl, rfl, rfl, ?_, ?_⟩
    · rw [← hc]
      rfl
    · rintro rfl
      exact ⟨hr.absent hf (.inr (by simpa using hl)), fun _ => rfl⟩

lemma countP_cons_other {l : List (Ref n)} {q : Ptr n} (h : q ≠ r.ptr) :
    (r :: l).countP (·.ptr = q) = l.countP (·.ptr = q) := by
  simp [Ne.symm h]

lemma Inv.get (h : Inv w m) (hlen : w.held.length < 65535) (hs : bufRead w.cache dev blockno true = some (p, s)) :
    Inv ⟨s, ⟨p, dev, blockno⟩ :: w.held⟩ m ∧ (s.at p).data = m dev blockno := by
  obtain ⟨hg, ha⟩ := bufRead_acquired hs
  obtain ⟨c, b, hi, hr, rfl, hd, hb, hv, hc, hread⟩ := h.acquired hg hlen ha
  obtain ⟨hdata, hclean⟩ := hread rfl
  refine ⟨hi.setBuf hr hd hb hv ?_ ?_ ?_ ?_ hdata hclean (fun _ _ _ _ => rfl) fun _ _ _ => rfl, ?_⟩
  · exact fun q hq => countP_cons_other hq
  · simp [hc]
  · simp +contextual [or_comm]
  · simpa using Nat.succ_lt_succ hlen
  · simpa using hdata

lemma update_block (m : Disk) (dev : UInt32) (blockno : UInt64) (d : Block) (x : UInt32)
    (c : UInt64) (hx : x = dev) (hc : c ≠ blockno) :
    update m dev (update (m dev) blockno d) x c = m x c := by
  subst hx
  simp [hc]

lemma update_dev (m : Disk) (dev : UInt32) (blockno : UInt64) (d : Block) (x : UInt32)
    (c : UInt64) (hx : x ≠ dev) :
    update m dev (update (m dev) blockno d) x c = m x c := by
  simp [hx]

lemma store_setBuf (s : Cache n) (p : Ptr n) (d : Block) :
    store s p d = s.setBuf p { s.at p with data := d, dirty := true } := by
  simp [store, bufWrite]

lemma Inv.put (h : Inv w m) (d : Block) (hlen : w.held.length < 65535)
    (hs : bufRead w.cache dev blockno false = some (p, s)) :
    Inv ⟨store s p d, ⟨p, dev, blockno⟩ :: w.held⟩
      (update m dev (update (m dev) blockno d)) := by
  obtain ⟨hg, ha⟩ := bufRead_acquired hs
  obtain ⟨c, b, hi, hr, rfl, hd, hb, hv, hc, -⟩ := h.acquired hg hlen ha
  rw [store_setBuf, setBuf_setBuf, at_setBuf_self]
  refine hi.setBuf hr hd hb hv ?_ ?_ ?_ ?_ ?_ ?_ (update_block m dev blockno d)
    (update_dev m dev blockno d)
  · exact fun q hq => countP_cons_other hq
  · simp [hc]
  · simp +contextual [or_comm]
  · simpa using Nat.succ_lt_succ hlen
  · simp
  · simp

lemma Inv.held_reuse (h : Inv w m) (hr : r ∈ w.held) : Reuse w m r.ptr r.dev r.blockno := by
  obtain ⟨hv, hd, hb⟩ := h.refs r hr
  have hf := h.found r.ptr hv
  have hg := h.home r.ptr hv
  rw [hd, hb] at hf
  rw [hb] at hg
  exact ⟨hg, .inl hf⟩

lemma Inv.change (h : Inv w m) (d : Block) (hr : r ∈ w.held) : Inv ⟨store w.cache r.ptr d, w.held⟩
      (update m r.dev (update (m r.dev) r.blockno d)) := by
  obtain ⟨hv, hd, hb⟩ := h.refs r hr
  rw [store_setBuf]
  refine h.setBuf (h.held_reuse hr) hd hb hv (fun _ _ => rfl) (h.count r.ptr)
    (fun _ hx => .inl hx) h.bound ?_ ?_ (update_block m r.dev r.blockno d)
    (update_dev m r.dev r.blockno d)
  · simp
  · simp

lemma countP_middle (q : Ptr n) : (pre ++ r :: post).countP (·.ptr = q) = (pre ++ post).countP (·.ptr = q) +
      if r.ptr = q then 1 else 0 := by
  simp only [countP_append, countP_cons, decide_eq_true_eq]
  omega

lemma Inv.setList (h : Inv w m) (hv : (w.cache.at p).valid = true) :
    Inv ⟨w.cache.setList p.group (p.index :: (w.cache.groups p.group).list.erase p.index),
      w.held⟩ m := by
  have hlist : ∀ g, ((w.cache.setList p.group
      (p.index :: (w.cache.groups p.group).list.erase p.index)).groups g).list.Perm
        (w.cache.groups g).list := by
    intro g
    by_cases hg : g = p.group
    · subst hg
      rw [list_setList_self]
      exact (perm_cons_erase ((h.order _).mem_iff.mpr (mem_finRange _))).symm
    · rw [list_setList_ne _ _ _ _ hg]
  constructor
  · exact fun g => (hlist g).trans (h.order g)
  · simpa using h.home
  · intro q hq
    simp only [at_setList] at hq ⊢
    have hf := h.found q hq
    by_cases hg : q.group = p.group
    · rw [lookup_eq, hg, list_setList_self]
      rw [lookup_eq, hg] at hf
      simp only [at_setList]
      by_cases hm : matchesBlock (w.cache.at q).dev (w.cache.at q).blockno (w.cache.at p) = true
      · obtain ⟨hd, hb⟩ := (matchesBlock_iff _ _ _).mp hm
        have hp := h.found p hv
        rw [hd, hb, lookup_eq, hf] at hp
        rw [some.inj hp]
        exact find?_cons_of_pos hm
      · have hm' : matchesBlock (w.cache.at q).dev (w.cache.at q).blockno
            (w.cache.at ⟨p.group, p.index⟩) = false := by simpa using hm
        rw [find?_cons, hm']
        obtain ⟨hqm, as, bs, hl, hn⟩ := find?_eq_some_iff_append.mp hf
        have hne : q.index ≠ p.index := by
          intro he
          rw [he] at hqm
          exact hm hqm
        rw [hl, find?_eq_some_iff_append, erase_append]
        by_cases hin : p.index ∈ as
        · exact ⟨hqm, as.erase p.index, bs, by rw [if_pos hin],
            fun a ha => hn a (mem_of_mem_erase ha)⟩
        · refine ⟨hqm, as, bs.erase p.index, ?_, hn⟩
          rw [if_neg hin, erase_cons_tail (by simpa using hne)]
    · rw [lookup_eq, list_setList_ne _ _ _ _ hg]
      simpa only [at_setList, lookup_eq] using hf
  · simpa using h.count
  · simpa using h.refs
  · exact h.bound
  · simpa using h.cached
  · simpa using h.clean
  · simpa using h.missing

lemma Inv.release (h : Inv w m)
    (hw : w.held = pre ++ r :: post) : Inv ⟨bufRelease w.cache r.ptr, pre ++ post⟩ m := by
  have hr : r ∈ w.held := by simp [hw]
  obtain ⟨hv, hd, hb⟩ := h.refs r hr
  have hcount := h.count r.ptr
  rw [hw, countP_middle, if_pos rfl] at hcount
  have hsub : ((w.cache.at r.ptr).refcnt - 1).toNat = (pre ++ post).countP (·.ptr = r.ptr) := by
    rw [UInt16.toNat_sub_of_le _ _ (by rw [UInt16.le_iff_toNat_le, hcount]; simp), hcount]
    simp
  have hlen := h.bound
  rw [hw] at hlen
  have hi : Inv ⟨w.cache.setBuf r.ptr { w.cache.at r.ptr with
      refcnt := (w.cache.at r.ptr).refcnt - 1 }, pre ++ post⟩ m := by
    refine h.setBuf (h.held_reuse hr) hd hb hv ?_ hsub ?_ ?_ ?_ ?_ (fun _ _ _ _ => rfl)
      fun _ _ _ => rfl
    · intro q hq
      rw [hw, countP_middle, if_neg (Ne.symm hq), Nat.add_zero]
    · intro x hx
      rw [hw]
      simp only [mem_append, mem_cons] at hx ⊢
      tauto
    · simp only [length_append, length_cons] at hlen ⊢
      omega
    · rw [← hd, ← hb]
      exact h.cached r.ptr hv
    · rw [← hd, ← hb]
      exact h.clean r.ptr hv
  unfold bufRelease
  simp only [at_setBuf_self]
  split
  · have hg := h.home r.ptr hv
    have hs := hi.setList (p := r.ptr) (by simpa using hv)
    rwa [← hg]
  · exact hi

lemma Step.simulates (h : Inv w m) (hs : Step w e w') : ∃ m', FlatStep m e m' ∧ Inv w' m' := by
  cases hs with
  | get hlen hs =>
    obtain ⟨hi, hd⟩ := h.get hlen hs
    exact ⟨m, hd ▸ .get m _ _, hi⟩
  | put d hlen hs => exact ⟨_, .put m _ _ d, h.put d hlen hs⟩
  | @look r hr =>
    obtain ⟨hv, hd, hb⟩ := h.refs r hr
    refine ⟨m, ?_, h⟩
    rw [h.cached r.ptr hv, hd, hb]
    exact .look m _ _
  | change d hr => exact ⟨_, .change m _ _ d, h.change d hr⟩
  | release hw => exact ⟨m, .release m _ _, h.release hw⟩

lemma init_inv (d : Disk) (data : UInt64 → Fin n → Block) : Inv ⟨bufInit n d data, []⟩ d where
  order _ := .refl _
  home _ h := by simp [bufInit, Cache.at] at h
  found _ h := by simp [bufInit, Cache.at] at h
  count _ := rfl
  refs _ h := by simp at h
  bound := by simp
  cached _ h := by simp [bufInit, Cache.at] at h
  clean _ h := by simp [bufInit, Cache.at] at h
  missing _ _ _ := rfl

def Cache.content (s : Cache n) (dev : UInt32) (blockno : UInt64) : Block :=
  match (s.groups (groupOf blockno)).lookup dev blockno with
  | some i => if (s.at ⟨groupOf blockno, i⟩).valid then (s.at ⟨groupOf blockno, i⟩).data
    else s.disk dev blockno
  | none => s.disk dev blockno

lemma Inv.content (h : Inv w m) : w.cache.content = m := by
  funext dev blockno
  unfold Cache.content
  have hmiss : ∀ o, (w.cache.groups (groupOf blockno)).lookup dev blockno = o →
      (∀ i, o = some i → (w.cache.at ⟨groupOf blockno, i⟩).valid = false) →
      w.cache.disk dev blockno = m dev blockno := by
    intro o hl ho
    refine h.missing dev blockno fun q hq hd hb => ?_
    obtain ⟨hg, hi⟩ := h.unique hq hd hb hl
    have := ho q.index hi
    rw [← hg] at this
    exact absurd hq (by simp [this])
  cases hl : (w.cache.groups (groupOf blockno)).lookup dev blockno with
  | none => exact hmiss none hl (by simp)
  | some i =>
    obtain ⟨hd, hb⟩ := lookup_matches hl
    by_cases hv : (w.cache.at ⟨groupOf blockno, i⟩).valid = true
    · simp only [hv, if_true]
      rw [h.cached _ hv, hd, hb]
    · rw [Bool.not_eq_true] at hv
      simp only [hv, Bool.false_eq_true, if_false]
      refine hmiss _ hl fun j hj => ?_
      rwa [← some.inj hj]

def Buffer.Names (b : Buffer) (dev : UInt32) (blockno : UInt64) : Prop :=
  b.dev = dev ∧ b.blockno = blockno

lemma setBuf_names (q : Ptr n) (hb : b.Names (s.at p).dev (s.at p).blockno) :
    ((s.setBuf p b).at q).Names (s.at q).dev (s.at q).blockno := by
  by_cases hq : q = p
  · subst hq
    simpa using hb
  · rw [at_setBuf_ne _ _ _ _ hq]
    exact ⟨rfl, rfl⟩

lemma Acquired.names {s' : Cache n} (h : Acquired s dev blockno isRead p s') (q : Ptr n) :
    (s'.at q).Names (s.at q).dev (s.at q).blockno ∨
      (s.at q).refcnt = 0 ∧ s'.disk = (flush s q).disk := by
  cases h with
  | hit _ _ => exact .inl (setBuf_names q ⟨rfl, rfl⟩)
  | load _ _ => exact .inl (setBuf_names q ⟨rfl, rfl⟩)
  | miss _ hz =>
    by_cases hq : q = p
    · subst hq
      exact .inr ⟨hz, rfl⟩
    · rw [at_setBuf_ne _ _ _ _ hq, at_flush]
      exact .inl ⟨rfl, rfl⟩

lemma bufRelease_names (s : Cache n) (p q : Ptr n) :
    ((bufRelease s p).at q).Names (s.at q).dev (s.at q).blockno := by
  have h := setBuf_names (s := s) (p := p) (b := { s.at p with refcnt := (s.at p).refcnt - 1 }) q
    ⟨rfl, rfl⟩
  unfold bufRelease
  simp only
  split
  · simpa using h
  · exact h

lemma Step.names (h : Step w e w') (q : Ptr n) : (w'.cache.at q).Names (w.cache.at q).dev (w.cache.at q).blockno ∨
      (w.cache.at q).refcnt = 0 ∧ w'.cache.disk = (flush w.cache q).disk := by
  cases h with
  | get _ hs => exact (bufRead_acquired hs).2.names q
  | @put _ _ p s d _ hs =>
    rw [store_setBuf]
    refine ((bufRead_acquired hs).2.names q).imp_left fun h => ?_
    have hn := setBuf_names (s := s) (p := p) (b := { s.at p with data := d, dirty := true }) q
      ⟨rfl, rfl⟩
    exact ⟨hn.1.trans h.1, hn.2.trans h.2⟩
  | look _ => exact .inl ⟨rfl, rfl⟩
  | change d _ =>
    rw [store_setBuf]
    exact .inl (setBuf_names q ⟨rfl, rfl⟩)
  | release _ => exact .inl (bufRelease_names _ _ q)

lemma bufRead_isSome (s : Cache n) (dev : UInt32) (blockno : UInt64) (isRead : Bool) {i : Fin n}
    (hi : i ∈ (s.groups (groupOf blockno)).list) (hz : (s.at ⟨groupOf blockno, i⟩).refcnt = 0) :
    (bufRead s dev blockno isRead).isSome = true := by
  have hv : (s.groups (groupOf blockno)).victim.isSome = true := by
    rw [BufferGroup.victim, find?_isSome]
    exact ⟨i, mem_reverse.mpr hi, by simpa [Cache.at] using hz⟩
  simp only [bufRead, bufAlloc, isSome_map]
  split
  · rfl
  · obtain ⟨j, hj⟩ := isSome_iff_exists.mp hv
    simp [hj]

theorem cache_transparent {d : Disk} {data : UInt64 → Fin n → Block} {es : List Event}
    {w : World n} (h : Run Step ⟨bufInit n d data, []⟩ es w) :
    (∃ m, Run FlatStep d es m ∧ w.cache.content = m) ∧
    (∀ p q : Ptr n, p.group = q.group → (w.cache.at p).valid = true → (w.cache.at q).valid = true →
      (w.cache.at p).Names (w.cache.at q).dev (w.cache.at q).blockno → p = q) ∧
    (∀ r ∈ w.held, (w.cache.at r.ptr).Names r.dev r.blockno) ∧
    (∀ e w', Step w e w' → ∀ p : Ptr n,
      ((w.cache.at p).refcnt ≠ 0 →
        (w'.cache.at p).Names (w.cache.at p).dev (w.cache.at p).blockno) ∧
      ((w.cache.at p).valid = true → (w.cache.at p).dirty = true →
        ¬ (w'.cache.at p).Names (w.cache.at p).dev (w.cache.at p).blockno →
        w'.cache.disk (w.cache.at p).dev (w.cache.at p).blockno = (w.cache.at p).data)) ∧
    (∀ dev blockno isRead, (∃ i, (w.cache.at ⟨groupOf blockno, i⟩).refcnt = 0) →
      (bufRead w.cache dev blockno isRead).isSome = true) := by
  obtain ⟨m, hm, hi⟩ := h.simulate (init_inv d data) fun _ _ _ _ ha hs => Step.simulates ha hs
  refine ⟨⟨m, hm, hi.content⟩, ?_, fun r hr => (hi.refs r hr).2, ?_, ?_⟩
  · rintro ⟨g, i⟩ ⟨g', j⟩ hg hp hq ⟨hd, hb⟩
    simp only at hg
    subst hg
    have hf := hi.found _ hp
    rw [hd, hb, hi.found _ hq] at hf
    exact congrArg (Ptr.mk g) (some.inj hf).symm
  · intro e w' hs p
    refine ⟨fun hne => (hs.names p).resolve_right fun hz => hne hz.1, fun hv _ hn => ?_⟩
    obtain ⟨-, hdisk⟩ := (hs.names p).resolve_left hn
    rw [hdisk]
    exact hi.flushed p hv
  · rintro dev blockno isRead ⟨i, hz⟩
    exact bufRead_isSome _ _ _ _ ((hi.order _).mem_iff.mpr (mem_finRange i)) hz

def rewritten : List Event :=
  [.put 0 5 (fun _ => 7), .release 0 5, .put 0 5 (fun _ => 8), .release 0 5, .put 0 16389 (fun _ => 6)]

theorem cache_transparent_put : ∃ w : World 1,
    Run Step ⟨bufInit 1 (fun _ _ _ => 0) (fun _ _ _ => 9), []⟩ rewritten w ∧
    (∃ m, Run FlatStep (fun _ _ _ => 0) rewritten m ∧ w.cache.content = m) ∧ w.cache.content 0 5 = (fun _ => 8) ∧
    w.cache.disk 0 5 = fun _ => 8 := by
  have h₁ : Step (n := 1) ⟨bufInit 1 (fun _ _ _ => 0) (fun _ _ _ => 9), []⟩
      (.put 0 5 (fun _ => 7)) _ := .put _ (by simp) rfl
  have h₂ := Run.snoc (.single h₁) (.release (show _ = [] ++ _ :: [] from rfl))
  -- a hit, and then another block of the group, which takes the dirty buffer
  have h₃ := h₂.snoc (show Step _ (.put 0 5 fun _ => 8) _ from .put _ (by simp) rfl)
  have h₄ := h₃.snoc (.release (show _ = [] ++ _ :: [] from rfl))
  have h₅ := h₄.snoc (show Step _ (.put 0 16389 fun _ => 6) _ from .put _ (by simp) rfl)
  exact ⟨_, h₅, (cache_transparent h₅).1, rfl, rfl⟩

end FarmOS.Fs.Buf

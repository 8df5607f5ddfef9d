import FarmOS.Fs.FdProc

/-! Reference counts of kernel descriptors are exact in every run in which the source of each `dup3`
onto an open descriptor is itself open. -/

namespace FarmOS.Fs.FdTable

open Lib List Option Kernel

variable {s s' t : Kernel} {p q : Fin nproc} {u k : ℕ} {c : Fin 3} {op : Op}

structure Booting (s : Kernel) : Prop where
  balanced : Balanced s [] ∅
  console (c : Fin 3) : s.console c = -1 ∨ ∃ k : ℕ, k < fdnum ∧ s.console c = k ∧ 0 < slots s k
  bits (k : ℕ) : k < fdnum → s.bit k = true → ∃ c, s.console c = k

lemma Booting.exists_free (h : Booting s) (hc : s.console c = -1) : ∃ k, k < fdnum ∧ s.bit k = false := by
  by_contra! hall
  have hb : ∀ k : ℕ, k < 3 → ∃ c', s.console c' = k := fun k hk =>
    h.bits k (hk.trans (by decide)) (by simpa using hall k (hk.trans (by decide)))
  obtain ⟨c0, h0⟩ := hb 0 (by decide)
  obtain ⟨c1, h1⟩ := hb 1 (by decide)
  obtain ⟨c2, h2⟩ := hb 2 (by decide)
  have hne : ∀ c', s.console c' ≠ -1 → c' ≠ c := fun c' hv he => hv (he ▸ hc)
  have d0 := hne c0 (by omega)
  have d1 := hne c1 (by omega)
  have d2 := hne c2 (by omega)
  have e01 : c0 ≠ c1 := by rintro rfl; omega
  have e02 : c0 ≠ c2 := by rintro rfl; omega
  have e12 : c1 ≠ c2 := by rintro rfl; omega
  omega

lemma fdAlloc_of_free (h : ∃ k, k < fdnum ∧ s.bit k = false) : ∃ k : ℕ, k < fdnum ∧ s.bit k = false ∧
      fdAlloc s = ((k : ℤ), (s.setBit k).setFd k { refcnt := 1 }) := by
  rcases fdAlloc_cases s with hk | hn
  · exact hk
  · obtain ⟨k, hk, hb⟩ := h
    unfold fdAlloc at hn
    split at hn
    · simp [enfile, Prod.ext_iff] at hn
    · next hf =>
      have := find?_eq_none.mp hf k (mem_range.mpr hk)
      simp [hb] at this

structure Cited (s t : Kernel) (c : Fin 3) (k : ℕ) : Prop where
  balanced : Balanced t [k] ∅
  procs : t.procs = s.procs
  here : t.console c = k
  other (c' : Fin 3) : c' ≠ c ∨ s.console c' ≠ -1 → t.console c' = s.console c'
  bits (j : ℕ) : t.bit j = true → j = k ∨ s.bit j = true
  dev : (t.fds k).fdDev.isSome = true

lemma Booting.cited (h : Booting s) (c : Fin 3) (f : UInt32) :
    ∃ t k, consoleAlloc s c f = some t ∧ Cited s t c k := by
  by_cases hc : s.console c = -1
  · obtain ⟨k, hk, hb, hf⟩ := fdAlloc_of_free (h.exists_free hc)
    rw [consoleAlloc, if_pos hc, hf]
    refine ⟨_, k, rfl, ?_, rfl, by simp, fun c' hne => ?_, fun j hj => ?_, ?_⟩
    · refine Balanced.congr ((h.balanced.fdAlloc_some (by simp) hk hb).setFd ?_ ?_) rfl rfl
        fun _ _ _ => rfl
      · rfl
      · rfl
    · have hne : c' ≠ c := hne.elim id fun h1 he => h1 (he ▸ hc)
      exact (Function.update_of_ne hne (k : ℤ) s.console)
    · change (s.setBit k).bit j = true at hj
      simpa [bit_setBit] using hj
    · simp
  · obtain ⟨k, hk, hck, hpos⟩ := (h.console c).resolve_left hc
    rw [consoleAlloc, if_neg hc, hck, cloneAddCite_eq s hk]
    refine ⟨_, k, rfl, h.balanced.cite (by simp) hk hpos, rfl, hck, fun _ _ => rfl, fun j hj => .inr hj,
      ?_⟩
    rw [fds_setFd_self]
    exact h.balanced.dev k hk hpos

structure Installed (s s' : Kernel) (p : Fin nproc) (u : ℕ) : Prop where
  booting : Booting s'
  alive (q : Fin nproc) : Alive s' q ↔ Alive s q
  slot (w : ℕ) : w ≠ u → s'.slot p w = s.slot p w

lemma Booting.install (h : Booting s) (hc : Cited s t c k) (hp : Alive s p)
    (hu : u < maxFdCount) (hs : s.slot p u = -1) : Installed s (t.setSlot p u (t.console c)) p u := by
  have hpt : Alive t p := by
    rw [Alive, hc.procs]
    exact hp
  have hst : t.slot p u = -1 := (slot_of_procs hc.procs p u).trans hs
  have hbal := hc.balanced.place hpt hu (.inl hst) (mem_singleton_self k) hc.dev
  have hg := Grows.setSlot (v := k) hpt hu (.inl hst)
  rw [erase_cons_head, Set.empty_sdiff] at hbal
  rw [hc.here]
  refine ⟨⟨hbal, fun c' => ?_, fun j hj hb => ?_⟩, fun q => ?_, fun w hw => ?_⟩
  · by_cases he : c' = c
    · subst he
      exact .inr ⟨k, hc.balanced.hand_lt k (mem_singleton_self k), hc.here,
        slots_pos hu (slot_setSlot_self t p u k hpt)⟩
    · refine (h.console c').imp (hc.other c' (.inl he)).trans ?_
      rintro ⟨j, hj, hcj, hpos⟩
      refine ⟨j, hj, (hc.other c' (.inl he)).trans hcj, ?_⟩
      rw [← slots_of_procs hc.procs] at hpos
      exact hpos.trans_le (hg.le j hj)
  · rcases hc.bits j hb with rfl | hb
    · exact ⟨c, hc.here⟩
    · obtain ⟨c', hc'⟩ := h.bits j hj hb
      exact ⟨c', (hc.other c' (.inr (by omega))).trans hc'⟩
  · rw [alive_setSlot, Alive, hc.procs]
    rfl
  · rw [slot_setSlot_ne t p p u w k (.inr hw), slot_of_procs hc.procs]

lemma Booting.init (h : Booting s) (hp : ¬ Alive s p) :
    ∃ s', initThreadFs s p = some s' ∧ Booting s' ∧ ∀ q, Alive s' q ↔ q = p ∨ Alive s q := by
  set s0 : Kernel :=
    { s with procs := Function.update s.procs p (some ⟨fun _ => -1, maxFdCount, le_rfl⟩) } with hs0
  have hslot : ∀ q w, s0.slot q w = s.slot q w := by
    intro q w
    by_cases hq : q = p
    · subst hq
      rw [slot_of_dead hp]
      simp [hs0, slot]
    · simp [hs0, slot, hq]
  have hbit : ∀ k, s0.bit k = s.bit k := fun _ => rfl
  have hb0 : Booting s0 := by
    refine ⟨h.balanced.congr rfl rfl fun q w _ => hslot q w, fun c => ?_, h.bits⟩
    simp only [slots_congr fun q w _ => hslot q w]
    exact h.console c
  have ha0 : ∀ q, Alive s0 q ↔ q = p ∨ Alive s q := by
    intro q
    by_cases hq : q = p
    · simp [hs0, Alive, hq]
    · simp [hs0, Alive, hq]
  have hp0 := (ha0 p).mpr (.inl rfl)
  have hf0 : ∀ w, s0.slot p w = -1 := fun w => (hslot p w).trans (slot_of_dead hp w)
  obtain ⟨t1, k1, he1, hc1⟩ := hb0.cited 0 0
  have h1 := hb0.install hc1 hp0 (by decide : 0 < maxFdCount) (hf0 0)
  obtain ⟨t2, k2, he2, hc2⟩ := h1.booting.cited 1 1
  have hp1 := (h1.alive p).mpr hp0
  have h2 := h1.booting.install hc2 hp1 (by decide : 1 < maxFdCount)
    ((h1.slot 1 (by decide)).trans (hf0 1))
  obtain ⟨t3, k3, he3, hc3⟩ := h2.booting.cited 2 2
  have h3 := h2.booting.install hc3 ((h2.alive p).mpr hp1) (by decide : 2 < maxFdCount)
    ((h2.slot 2 (by decide)).trans ((h1.slot 2 (by decide)).trans (hf0 2)))
  refine ⟨_, ?_, h3.booting, fun q => ?_⟩
  · rw [initThreadFs, he1, bind_eq_bind, bind_some]
    simp only [he2, bind_some, he3]
  · rw [h3.alive, h2.alive, h1.alive, ha0]

lemma booting_empty : Booting empty := by
  have hs : ∀ k : ℕ, slots empty k = 0 := by
    intro k
    apply occ_eq_zero.mpr
    rintro ⟨q, w⟩ -
    simp [empty, slot]
  have hb : ∀ k, empty.bit k = false := by
    intro k
    rw [bit_eq]
    simp [empty]
  refine ⟨⟨fun k _ => ?_, fun k _ => ?_, fun q w _ => .inl rfl, fun k _ hk => ?_, by simp, by simp⟩,
    fun c => .inl rfl, fun k _ hk => ?_⟩
  · rw [hs]
    rfl
  · simp [hs, hb]
  · simp [hs] at hk
  · simp [hb] at hk

lemma Booting.boot (ps : List (Fin nproc)) (hnd : ps.Nodup) (h : Booting s) (hdead : ∀ q ∈ ps, ¬ Alive s q) :
    ∃ s', ps.foldlM initThreadFs s = some s' ∧ Booting s' ∧ ∀ q, Alive s' q ↔ q ∈ ps ∨ Alive s q := by
  induction ps generalizing s with
  | nil => exact ⟨s, rfl, h, by simp⟩
  | cons p ps ih =>
    obtain ⟨hp, hnd⟩ := nodup_cons.mp hnd
    obtain ⟨t, ht, hbt, hat⟩ := h.init (hdead p mem_cons_self)
    have hdead' : ∀ q ∈ ps, ¬ Alive t q := by
      intro q hq ha
      rcases (hat q).mp ha with rfl | ha
      · exact hp hq
      · exact hdead q (mem_cons_of_mem p hq) ha
    obtain ⟨s', hs', hb', ha'⟩ := ih hnd hbt hdead'
    refine ⟨s', by rw [foldlM_cons, ht]; exact hs', hb', fun q => ?_⟩
    rw [ha', hat, mem_cons]
    tauto

lemma boot_eq (ps : List (Fin nproc)) (hnd : ps.Nodup) :
    ∃ s, boot ps = some s ∧ Balanced s [] ∅ ∧ ∀ q, Alive s q ↔ q ∈ ps := by
  obtain ⟨s, hs, hb, ha⟩ := booting_empty.boot ps hnd (fun q _ => by simp [Alive, empty])
  exact ⟨s, hs, hb.balanced, fun q => by rw [ha]; simp [Alive, empty]⟩

structure Exact (s : Kernel) : Prop where
  count (k : ℕ) : k < fdnum → (s.fds k).refcnt.toNat = slots s k
  bits (k : ℕ) : k < fdnum → (s.bit k = true ↔ 0 < slots s k)
  live (p : Fin nproc) (u : ℕ) : u < maxFdCount →
    s.slot p u = -1 ∨ ∃ k : ℕ, k < fdnum ∧ s.slot p u = k ∧ s.bit k = true

section

variable (h : Balanced s [] ∅)
include h

lemma Balanced.exact : Exact s := by
  refine ⟨fun k hk => by simpa using h.count k hk, fun k hk => by simpa using h.bits k hk,
    fun p u hu => ?_⟩
  by_cases hs : s.slot p u = -1
  · exact .inl hs
  · obtain ⟨k, hk, hlt⟩ := (h.isKernFd_of_ne hu hs).exists_nat
    exact .inr ⟨k, hlt, hk, (h.bits k hlt).mpr (Nat.add_pos_left (slots_pos hu hk) _)⟩

def Op.Allowed (s : Kernel) : Op → Prop
  | .fork p c => Alive s p ∧ ¬ Alive s c
  | op => Alive s op.proc

def Op.SourceOpen (s : Kernel) : Op → Prop
  | .dup3 p old new => DupSource s p old new
  | _ => True

def Step (s : Kernel) (op : Op) (s' : Kernel) : Prop :=
  op.Allowed s ∧ op.SourceOpen s ∧ ∃ r, exec s op = some (r, s')

lemma exec_kept (ha : op.Allowed s) (ho : op.SourceOpen s) : Kept s (exec s op) := by
  cases op with
  | openat p a => exact openat_kept h ha a
  | pipe p addr => exact pipe_kept h ha addr
  | socket p flags n => exact socket_kept h ha flags n
  | dup p fd => exact dup_kept h ha fd
  | dup3 p old new => exact dup3_kept h ha ho
  | close p fd => exact closeFd_kept h ha fd
  | fork p c => exact fork_kept h ha.1 ha.2
  | exit p => exact exit_kept h ha

lemma Step.balanced (hst : Step s op s') : Balanced s' [] ∅ := by
  obtain ⟨ha, ho, r, he⟩ := hst
  obtain ⟨r', t, ht, hb, -⟩ := exec_kept h ha ho
  obtain ⟨-, rfl⟩ := Prod.mk.inj (some_inj.mp (he.symm.trans ht))
  exact hb

lemma dup3_not_exact {old new : ℤ} (hsrc : ¬ DupSource s p old new) :
    ∃ r s', dup3 s p old new = some (r, s') ∧ ¬ Exact s' := by
  simp only [DupSource, not_forall] at hsrc
  obtain ⟨hne, ho, hn, hk, hko⟩ := hsrc
  obtain ⟨k, hs, hlt⟩ := hk.exists_nat
  have hc : DupChecked s p old new := ⟨hne, ho, hn, by omega⟩
  have hpos := slots_pos hn.lt hs
  have hcount := h.count k hlt
  rw [count_nil, Nat.add_zero] at hcount
  rw [dup3_of_checked hc, if_pos hk, hs, freeFd_eq s hlt, bind_some]
  set t := if (s.fds k).refcnt - 1 = 0 then _ else _ with ht
  have hpr : t.procs = s.procs := freeFd_procs hlt (freeFd_eq s hlt)
  refine ⟨-ebadf, t, ?_, fun hex => ?_⟩
  · rw [dupOnto, if_pos (by rwa [slot_of_procs hpr])]
  · have hbad := hex.count k hlt
    rw [slots_of_procs hpr, ← hcount, ht] at hbad
    split at hbad
    · rw [fds_clearBit, fds_setFd_self] at hbad
      change 0 = _ at hbad
      omega
    · have h1 : (1 : UInt32).toNat = 1 := rfl
      have hlt := (s.fds k).refcnt.toNat_lt
      rw [fds_setFd_self, UInt32.toNat_sub, h1] at hbad
      omega

lemma exact_iff_sourceOpen (ha : op.Allowed s) : ∃ r s', exec s op = some (r, s') ∧ (Exact s' ↔ op.SourceOpen s) ∧
      (op.SourceOpen s → Closes s s') := by
  by_cases ho : op.SourceOpen s
  · obtain ⟨r, s', he, hb, hc⟩ := exec_kept h ha ho
    exact ⟨r, s', he, iff_of_true hb.exact ho, fun _ => hc⟩
  · cases op with
    | dup3 p old new =>
      obtain ⟨r, s', he, hn⟩ := dup3_not_exact h ho
      exact ⟨r, s', he, iff_of_false hn ho, fun h' => absurd h' ho⟩
    | _ => exact absurd trivial ho

end

def firstProc : Fin nproc := ⟨0, by unfold nproc; decide⟩

theorem refcnt_exact (ps : List (Fin nproc)) (hnd : ps.Nodup) :
    ∃ s₀, boot ps = some s₀ ∧ ∀ ops s, Run Step s₀ ops s → Exact s ∧
      ∀ op : Op, op.Allowed s → ∃ r s', exec s op = some (r, s') ∧
        (Exact s' ↔ op.SourceOpen s) ∧ (op.SourceOpen s → Closes s s') := by
  obtain ⟨s₀, hs₀, hb₀, -⟩ := boot_eq ps hnd
  refine ⟨s₀, hs₀, fun ops s hr => ?_⟩
  have hb : Balanced s [] ∅ := hr.invariant hb₀ fun _ _ _ h hst => Step.balanced h hst
  exact ⟨hb.exact, fun op ha => exact_iff_sourceOpen hb ha⟩

theorem refcnt_exact_dup : [firstProc].Nodup ∧ ∃ s₀ s, boot [firstProc] = some s₀ ∧
    Run Step s₀ [.dup firstProc 0] s ∧ Exact s := by
  refine ⟨by simp, ?_⟩
  obtain ⟨s₀, hs₀, h⟩ := refcnt_exact [firstProc] (by simp)
  obtain ⟨s₁, hs₁, -, ha⟩ := boot_eq [firstProc] (by simp)
  obtain rfl := some_inj.mp (hs₁.symm.trans hs₀)
  have hp : (Op.dup firstProc 0).Allowed s₁ := (ha firstProc).mpr (by simp)
  obtain ⟨r, s, he, -⟩ := (h [] s₁ .nil).2 _ hp
  have hrun : Run Step s₁ [.dup firstProc 0] s := .single ⟨hp, trivial, r, he⟩
  exact ⟨s₁, s, hs₁, hrun, (h _ s hrun).1⟩

theorem descriptors_have_devices (ps : List (Fin nproc)) (hnd : ps.Nodup) :
    ∃ s₀, boot ps = some s₀ ∧ ∀ ops s, Run Step s₀ ops s → ∀ p u, u < maxFdCount → s.slot p u ≠ -1 →
      ∃ k : ℕ, k < fdnum ∧ s.slot p u = k ∧ (s.fds k).fdDev.isSome = true := by
  obtain ⟨s₀, hs₀, hb₀, -⟩ := boot_eq ps hnd
  refine ⟨s₀, hs₀, fun ops s hr p u hu hne => ?_⟩
  have hb : Balanced s [] ∅ := hr.invariant hb₀ fun _ _ _ h hst => Step.balanced h hst
  obtain ⟨k, hk, hs, -⟩ := (hb.exact.live p u hu).resolve_left hne
  exact ⟨k, hk, hs, hb.dev k hk (slots_pos hu hs)⟩

lemma dup3_close_eval : ((boot [firstProc]).bind fun s => (exec s (.dup3 firstProc 1 5)).bind fun x =>
    (exec x.2 (.close firstProc 1)).map fun y =>
      (s.slot firstProc 1, (x.2.procs firstProc).isSome, y.2.slot firstProc 5)) = some (1, true, 1) := by
  decide +kernel

theorem first_descriptors_have_devices : ∃ s₀ s, boot [firstProc] = some s₀ ∧
    Run Step s₀ [.dup3 firstProc 1 5, .close firstProc 1] s ∧ s.slot firstProc 5 = 1 ∧ ∀ u < maxFdCount,
      s.slot firstProc u ≠ -1 → ∃ k : ℕ, k < fdnum ∧ s.slot firstProc u = k ∧ (s.fds k).fdDev.isSome = true := by
  obtain ⟨s₀, hs₀, h⟩ := descriptors_have_devices [firstProc] (by simp)
  obtain ⟨s₁, hs₁, -, ha⟩ := boot_eq [firstProc] (by simp)
  obtain rfl := some_inj.mp (hs₁.symm.trans hs₀)
  have he := dup3_close_eval
  rw [hs₁, bind_some, bind_eq_some_iff] at he
  obtain ⟨⟨r, t⟩, ht, he⟩ := he
  obtain ⟨⟨r', s⟩, hs, hv⟩ := map_eq_some_iff.mp he
  simp only [Prod.mk.injEq] at hv
  have hsrc : (Op.dup3 firstProc 1 5).SourceOpen s₁ := fun _ _ _ _ => by
    change isKernFd (s₁.slot firstProc 1)
    rw [hv.1]
    decide
  have hrun : Run Step s₁ [.dup3 firstProc 1 5, .close firstProc 1] s :=
    .cons ⟨(ha firstProc).mpr (by simp), hsrc, r, ht⟩ (.single ⟨hv.2.1, trivial, r', hs⟩)
  exact ⟨s₁, s, hs₁, hrun, hv.2.2, h _ s hrun firstProc⟩

lemma dup3_closed_source_eval : ((boot [firstProc]).bind fun s => exec s (.dup3 firstProc 5 1)).map (fun x =>
      (x.1, x.2.slot firstProc 1, x.2.bit 1, (x.2.fds 1).refcnt)) = some (-ebadf, 1, false, 0) := by
  decide +kernel

theorem dup3_closed_source : ∃ s₀ s r, boot [firstProc] = some s₀ ∧ (Op.dup3 firstProc 5 1).Allowed s₀ ∧
    exec s₀ (.dup3 firstProc 5 1) = some (r, s) ∧ s.slot firstProc 1 = 1 ∧ s.bit 1 = false ∧
    ¬ Exact s := by
  obtain ⟨s₀, hs₀, -, ha⟩ := boot_eq [firstProc] (by simp)
  have he := dup3_closed_source_eval
  rw [hs₀, bind_some, map_eq_some_iff] at he
  obtain ⟨⟨r, s⟩, he, hv⟩ := he
  simp only [Prod.mk.injEq] at hv
  refine ⟨s₀, s, r, hs₀, (ha firstProc).mpr (by simp), he, hv.2.1, hv.2.2.1, fun hex => ?_⟩
  have hpos : 0 < slots s 1 := slots_pos (by decide : 1 < maxFdCount) hv.2.1
  have := (hex.bits 1 (by decide)).mpr hpos
  simp [hv.2.2.1] at this

end FarmOS.Fs.FdTable

import FarmOS.Signal.Records

/-! Threads that come and go, and the signals sent to them: the `sigevents` are on the free queue or on the queue of a
live thread as long as no signal is sent straight to a slot without a thread. -/

set_option linter.unusedSectionVars false

namespace FarmOS.Signal.Conserve

open Lib Function

def nSigEvents : ℕ := 512

variable {P : Type} [DecidableEq P]

-- `threads` is `p_threads`, `listed` says which slots are on such a list, `live` which are not `UNUSED`.
structure Sys (P : Type) where
  sig : State ℕ P
  live : ℕ → Bool
  listed : ℕ → Bool
  proc : ℕ → P
  threads : P → List ℕ
  zombie : P → Bool

def Sys.init (proc : ℕ → P) (mem : P → ℕ → BitVec 8) : Sys P where
  sig := ⟨fun _ => .zero, List.range nSigEvents, fun _ => ⟨none, fun _ => 0, false, 0, 0, []⟩,
    fun _ _ => ⟨0, 0, 0, 0⟩, mem⟩
  live := fun _ => false
  listed := fun _ => false
  proc := proc
  threads := fun _ => []
  zombie := fun _ => false

abbrev Exec (P : Type) := Prog (Sys P) Fault

section

variable {α : Type}

def onSig (c : Sig ℕ P α) : Exec P α := do
  let s ← get
  match c.run s.sig with
  | .ok (a, g) =>
    set { s with sig := g }
    pure a
  | .error e => throw e

lemma wp_onSig {c : Sig ℕ P α} {Q : α → Sys P → Prop} {E : Fault → Prop} {s : Sys P}
    (h : wp c (fun a g => Q a { s with sig := g }) E s.sig) : wp (onSig c) Q E s := by
  rw [onSig, wp_bind, wp_get]
  cases hc : c.run s.sig with
  | ok r =>
    change wp (set _ >>= fun _ => pure r.1) _ _ _
    rw [wp_bind, wp_set, wp_pure]
    have hr := wp_of_ok h hc
    exact hr
  | error e => exact wp_throw.mpr (wp_of_error h hc)

end

-- thread.c
def tdAlloc (slot : ℕ) : Exec P Unit :=
  modify fun s => { s with
    live := update s.live slot true
    sig := s.sig.setThread slot ⟨none, fun _ => 0, false, 0, 0, (s.sig.thread slot).sigqueue⟩ }

def tdFree (slot : ℕ) : Exec P Unit := do
  modify fun s => { s with live := update s.live slot false }
  let s ← get
  onSig (sigeventFreetd slot (s.sig.thread slot).sigqueue)

-- sigsend.c
def pickThread (signo : ℕ) : List ℕ → Sig ℕ P (Option ℕ)
  | [] => pure none
  | t :: l => do
    if ← sigTdCanhandle t signo then pure (some t) else pickThread signo l

def sigSendProc (p : P) (signo : ℕ) : Exec P Unit := do
  let s ← get
  if s.zombie p then pure ()
  else
    match ← onSig (pickThread signo (s.threads p)) with
    | some t => onSig (sigSendTd t signo)
    | none =>
      match s.threads p with
      | [] => throw .panic
      | t :: _ => onSig (sigSendTd t signo)

-- Each step holds the lock of the thread or of the process it is about. `tkill` and `itimer_check` send straight to a
-- slot, `kill` and the signals of the kernel go through the list of a process.
inductive Event (P : Type)
  | create (slot : ℕ)
  | enlist (slot : ℕ) (p : P)
  | unlist (slot : ℕ)
  | free (slot : ℕ)
  | status (p : P) (zombie : Bool)
  | send (slot signo : ℕ)
  | kill (p : P) (signo : ℕ)
  | check (slot : ℕ)
  | sigreturn (slot : ℕ)
  | timedwait (slot : ℕ)
  | mask (slot : ℕ) (set : SigSet)
  | action (p : P) (signo : ℕ) (sa : SigAction)
  | user (slot : ℕ) (tf : Trapframe) (mem : ℕ → BitVec 8)

namespace Event

def Enabled (s : Sys P) : Event P → Prop
  | .create slot => s.live slot = false
  | .enlist slot _ => s.live slot = true ∧ s.listed slot = false
  | .unlist slot => s.listed slot = true
  | .free slot => s.live slot = true ∧ s.listed slot = false
  | .check slot | .sigreturn slot | .timedwait slot | .mask slot _ | .user slot _ _ => s.live slot = true
  | .status _ _ | .send _ _ | .kill _ _ | .action _ _ _ => True

instance (s : Sys P) : (e : Event P) → Decidable (e.Enabled s)
  | .create slot => inferInstanceAs (Decidable (s.live slot = false))
  | .enlist slot _ | .free slot => inferInstanceAs (Decidable (s.live slot = true ∧ s.listed slot = false))
  | .unlist slot => inferInstanceAs (Decidable (s.listed slot = true))
  | .check slot | .sigreturn slot | .timedwait slot | .mask slot _ | .user slot _ _ =>
    inferInstanceAs (Decidable (s.live slot = true))
  | .status _ _ | .send _ _ | .kill _ _ | .action _ _ _ => .isTrue trivial

def onStep (op : Op ℕ P) : Exec P Unit := do
  let s ← get
  let _ ← onSig (step s.proc op)
  pure ()

def exec : Event P → Exec P Unit
  | .create slot => tdAlloc slot
  | .enlist slot p => modify fun s => { s with
      listed := update s.listed slot true
      proc := update s.proc slot p
      threads := update s.threads p (s.threads p ++ [slot]) }
  | .unlist slot => modify fun s => { s with
      listed := update s.listed slot false
      threads := update s.threads (s.proc slot) ((s.threads (s.proc slot)).erase slot) }
  | .free slot => tdFree slot
  | .status p zombie => modify fun s => { s with zombie := update s.zombie p zombie }
  | .send slot signo => onSig (sigSendTd slot signo)
  | .kill p signo => sigSendProc p signo
  | .check slot => onStep (.check slot)
  | .sigreturn slot => do
    let s ← get
    let _ ← onSig (sysSigreturn s.proc slot)
    pure ()
  | .timedwait slot => do
    let _ ← onSig (sigGetse slot)
    pure ()
  | .mask slot set => onStep (.mask slot set)
  | .action p signo sa => onStep (.action p signo sa)
  | .user slot tf mem => onStep (.user slot tf mem)

def Step (s : Sys P) (e : Event P) (s' : Sys P) : Prop := e.Enabled s ∧ e.exec.run s = .ok ((), s')

def Careful (s : Sys P) : Event P → Prop
  | .send slot _ => s.live slot = true
  | _ => True

def CarefulStep (s : Sys P) (e : Event P) (s' : Sys P) : Prop := e.Careful s ∧ e.Step s s'

end Event

structure Pooled (n : ℕ) (live : ℕ → Bool) (r : Records) : Prop where
  pool : ∃ loc, Pool n r.free r.queue (fun _ : Unit => none) loc
  dead : ∀ t, live t = false → r.queue t = []

namespace Pooled

variable {n : ℕ} {live : ℕ → Bool} {r r' : Records} {t : ℕ}

lemma init (n : ℕ) (live : ℕ → Bool) : Pooled n live ⟨List.range n, fun _ => []⟩ :=
  ⟨⟨fun _ => .free, Pool.init n⟩, fun _ _ => rfl⟩

lemma push (h : Pooled n live r) (ht : live t = true) {m : ℕ} {rest : List ℕ} (hf : r.free = m :: rest) :
    Pooled n live ⟨rest, update r.queue t (m :: r.queue t)⟩ := by
  obtain ⟨loc, hloc⟩ := h.pool
  refine ⟨(hf ▸ hloc).push (t := ()) rfl, fun u hu => ?_⟩
  have hne : u ≠ t := by
    rintro rfl
    rw [ht] at hu
    cases hu
  exact (update_of_ne hne _ _).trans (h.dead u hu)

lemma drops (h : Pooled n live r) (hd : Drops t r r') : Pooled n live r' := by
  induction hd with
  | refl => exact h
  | @drop r r' m hm _ ih =>
    obtain ⟨loc, hloc⟩ := h.pool
    refine ih ⟨hloc.pull (t := ()) rfl hm, fun u hu => ?_⟩
    obtain rfl | hne := eq_or_ne u t
    · rw [h.dead u hu] at hm
      cases hm
    · exact (update_of_ne hne _ _).trans (h.dead u hu)

end Pooled

structure Kept (s : Sys P) : Prop where
  pooled : Pooled nSigEvents s.live s.sig.records
  listed : ∀ t, s.listed t = true → s.live t = true
  threads : ∀ p t, t ∈ s.threads p → s.listed t = true ∧ s.proc t = p
  nodup : ∀ p, (s.threads p).Nodup

namespace Kept

variable {s : Sys P} {slot : ℕ} {p : P} {signo : ℕ}

lemma init (proc : ℕ → P) (mem : P → ℕ → BitVec 8) : Kept (Sys.init proc mem) where
  pooled := by
    have hr : (Sys.init proc mem).sig.records = ⟨List.range nSigEvents, fun _ => []⟩ := by
      simp only [State.records, Sys.init]
    rw [hr]
    exact .init _ _
  listed t h := by cases h
  threads p t h := by cases h
  nodup _ := List.nodup_nil

section

variable (h : Kept s)
include h

lemma onSig {α : Type} {c : Sig ℕ P α}
    (hc : wp c (fun _ g => Pooled nSigEvents s.live g.records) (fun _ => True) s.sig) :
    wp (onSig c) (fun _ s' => Kept s') (fun _ => True) s :=
  wp_onSig (wp_mono hc fun _ _ hg => ⟨hg, h.listed, h.threads, h.nodup⟩)

lemma drops {α : Type} {c : Sig ℕ P α} {t : ℕ}
    (hc : wp c (fun _ g => Drops t s.sig.records g.records) (fun _ => True) s.sig) :
    wp (Conserve.onSig c) (fun _ s' => Kept s') (fun _ => True) s :=
  h.onSig (wp_mono hc fun _ _ hd => h.pooled.drops hd)

lemma send (ht : s.live slot = true) :
    wp (Conserve.onSig (sigSendTd slot signo)) (fun _ s' => Kept s') (fun _ => True) s := by
  refine h.onSig (wp_mono (wp_sigSendTd_records trivial) fun _ g ⟨m, rest, hf, hg⟩ => ?_)
  rw [hg]
  exact h.pooled.push ht hf

lemma create : wp (tdAlloc slot) (fun _ s' => Kept s') (fun _ => True) s := by
  rw [tdAlloc, wp_modify]
  have hr : (s.sig.setThread slot ⟨none, fun _ => 0, false, 0, 0, (s.sig.thread slot).sigqueue⟩).records =
    s.sig.records := records_setThread rfl
  refine ⟨⟨hr ▸ h.pooled.pool, fun t ht => ?_⟩, fun t ht => ?_, h.threads, h.nodup⟩
  · obtain rfl | hne := eq_or_ne t slot
    · simp at ht
    · rw [hr]
      exact h.pooled.dead t (by simpa [hne] using ht)
  · obtain rfl | hne := eq_or_ne t slot
    · simp
    · simpa [hne] using h.listed t ht

lemma enlist (hlive : s.live slot = true) (hno : s.listed slot = false) :
    wp (Event.enlist slot p).exec (fun _ s' => Kept s') (fun _ => True) s := by
  have hout : ∀ q, slot ∉ s.threads q := fun q hq => by
    rw [(h.threads q slot hq).1] at hno
    cases hno
  refine wp_modify.mpr ⟨h.pooled, fun t ht => ?_, fun q t ht => ?_, fun q => ?_⟩
  · obtain rfl | hne := eq_or_ne t slot
    · exact hlive
    · exact h.listed t (by simpa [hne] using ht)
  · have hcase : t = slot ∧ q = p ∨ t ∈ s.threads q := by
      obtain rfl | hq := eq_or_ne q p
      · simpa [or_comm] using ht
      · exact .inr (by simpa [hq] using ht)
    obtain ⟨rfl, rfl⟩ | hold := hcase
    · simp
    · have hne : t ≠ slot := by
        rintro rfl
        exact hout q hold
      simpa [hne] using h.threads q t hold
  · obtain rfl | hq := eq_or_ne q p
    · simpa [List.nodup_append] using ⟨h.nodup q, fun a ha hs => hout q (hs ▸ ha)⟩
    · simpa [hq] using h.nodup q

lemma unlist : wp (Event.unlist slot).exec (fun _ s' => Kept s') (fun _ => True) s := by
  refine wp_modify.mpr ⟨h.pooled, fun t ht => ?_, fun q t ht => ?_, fun q => ?_⟩
  · obtain rfl | hne := eq_or_ne t slot
    · simp at ht
    · exact h.listed t (by simpa [hne] using ht)
  · have hold : t ∈ s.threads q ∧ (t = slot → False) := by
      obtain hq | hq := eq_or_ne q (s.proc slot)
      · have hm : t ∈ (s.threads q).erase slot := by simpa [hq] using ht
        rw [(h.nodup q).mem_erase_iff] at hm
        exact ⟨hm.2, hm.1⟩
      · have hm : t ∈ s.threads q := by simpa [hq] using ht
        exact ⟨hm, fun he => hq (he ▸ (h.threads q t hm).2.symm)⟩
    have hne : t ≠ slot := hold.2
    simpa [hne] using h.threads q t hold.1
  · obtain rfl | hq := eq_or_ne q (s.proc slot)
    · simpa using (h.nodup _).erase slot
    · simpa [hq] using h.nodup q

lemma free (hno : s.listed slot = false) : wp (tdFree slot) (fun _ s' => Kept s') (fun _ => True) s := by
  rw [tdFree, wp_bind, wp_modify, wp_bind, wp_get]
  refine wp_onSig (wp_mono (wp_sigeventFreetd_records _ rfl) fun _ g ⟨hd, he⟩ => ?_)
  have hpool := h.pooled.drops hd
  refine ⟨⟨hpool.pool, fun t ht => ?_⟩, fun t ht => ?_, h.threads, h.nodup⟩
  · obtain rfl | hne := eq_or_ne t slot
    · exact he
    · exact hpool.dead t (by simpa [hne] using ht)
  · have hne : t ≠ slot := by
      rintro rfl
      rw [hno] at ht
      cases ht
    simpa [hne] using h.listed t ht

omit h in
lemma wp_pickThread {g : State ℕ P} (l : List ℕ) :
    wp (pickThread signo l) (fun r g' => g' = g ∧ ∀ t, r = some t → t ∈ l) (fun _ => True) g := by
  induction l with
  | nil => exact wp_pure.mpr ⟨rfl, nofun⟩
  | cons t l ih =>
    rw [pickThread, wp_bind]
    refine wp_sigTdCanhandle (fun _ => trivial) ?_
    rw [wp_ite]
    refine ⟨fun _ => ?_, fun _ => ?_⟩
    · refine wp_pure.mpr ⟨rfl, fun u hu => ?_⟩
      cases hu
      exact List.mem_cons_self
    · exact wp_mono ih fun r g' hr => ⟨hr.1, fun u hu => List.mem_cons_of_mem t (hr.2 u hu)⟩

lemma kill : wp (sigSendProc p signo) (fun _ s' => Kept s') (fun _ => True) s := by
  have hlive : ∀ t ∈ s.threads p, s.live t = true := fun t ht => h.listed t (h.threads p t ht).1
  rw [sigSendProc, wp_bind, wp_get, wp_ite]
  refine ⟨fun _ => wp_pure.mpr h, fun _ => ?_⟩
  rw [wp_bind]
  refine wp_onSig (wp_mono (wp_pickThread _) fun r g ⟨hg, hr⟩ => ?_)
  subst hg
  cases r with
  | some t => exact h.send (hlive t (hr t rfl))
  | none =>
    cases ht : s.threads p with
    | nil => exact wp_throw.mpr trivial
    | cons t l => exact h.send (hlive t (ht ▸ List.mem_cons_self))

lemma same {α : Type} {c : Sig ℕ P α} (hc : wp c (fun _ g => g.records = s.sig.records) (fun _ => True) s.sig) :
    wp (Conserve.onSig c >>= fun _ => pure ()) (fun _ s' => Kept s') (fun _ => True) s := by
  rw [wp_bind]
  exact wp_mono (h.onSig (wp_mono hc fun _ _ hg => hg ▸ h.pooled)) fun _ _ hs => wp_pure.mpr hs

lemma step {e : Event P} (he : e.Enabled s) (hc : e.Careful s) :
    wp e.exec (fun _ s' => Kept s') (fun _ => True) s := by
  cases e with
  | create slot => exact h.create
  | enlist slot p => exact h.enlist he.1 he.2
  | unlist slot => exact h.unlist
  | free slot => exact h.free he.2
  | status p zombie => exact wp_modify.mpr ⟨h.pooled, h.listed, h.threads, h.nodup⟩
  | send slot signo => exact h.send hc
  | kill p signo => exact h.kill
  | check slot =>
    rw [Event.exec, Event.onStep, wp_bind, wp_get, wp_bind]
    exact wp_mono (h.drops (wp_mono (wp_mono_error wp_sigCheck fun _ _ => trivial) fun _ _ hd => hd.records))
      fun _ _ hs => wp_pure.mpr hs
  | sigreturn slot =>
    rw [Event.exec, wp_bind, wp_get, wp_bind]
    refine wp_mono (h.drops (wp_mono (wp_sysSigreturn_returned ?_) fun _ _ hr => hr.records)) fun _ _ hs =>
      wp_pure.mpr hs
    trivial
  | timedwait slot => exact h.same (wp_mono (wp_mono_error wp_sigGetse fun _ _ => trivial) fun _ _ hg => hg.1 ▸ rfl)
  | mask slot set =>
    rw [Event.exec, Event.onStep, wp_bind, wp_get]
    refine h.same ?_
    rw [Signal.step, wp_bind, wp_modify, wp_pure]
    exact records_setThread rfl
  | action p signo sa =>
    rw [Event.exec, Event.onStep, wp_bind, wp_get]
    refine h.same ?_
    rw [Signal.step, wp_bind]
    refine wp_sigactionGet (fun _ => trivial) fun _ => ?_
    rw [wp_bind, wp_modify, wp_pure]
    rfl
  | user slot tf mem =>
    rw [Event.exec, Event.onStep, wp_bind, wp_get]
    refine h.same ?_
    rw [Signal.step, wp_bind, wp_modify, wp_pure]
    change (s.sig.setThread slot { s.sig.thread slot with trapframe := tf }).records = _
    exact records_setThread rfl

end

end Kept

theorem sigevents_conserved (proc : ℕ → P) (mem : P → ℕ → BitVec 8) {es : List (Event P)} {s : Sys P}
    (hrun : Run Event.CarefulStep (.init proc mem) es s) (m : ℕ) (hm : m < nSigEvents) :
    (s.sig.freeq.count m = 1 ∧ ∀ t, m ∉ (s.sig.thread t).sigqueue) ∨
    (m ∉ s.sig.freeq ∧ ∃ t, s.live t = true ∧ (s.sig.thread t).sigqueue.count m = 1 ∧
      ∀ u, u ≠ t → m ∉ (s.sig.thread u).sigqueue) := by
  have h : Kept s := hrun.invariant (Kept.init proc mem) fun a e b ha ⟨hc, he, hstep⟩ => by
    have hb := wp_of_ok (ha.step he hc) hstep
    exact hb
  obtain ⟨loc, hloc⟩ := h.pooled.pool
  have hqueue := hloc.queue_iff
  cases hl : loc m with
  | free =>
    have hmem : m ∈ s.sig.freeq := (hloc.free_iff m).mpr ⟨hm, hl⟩
    refine .inl ⟨List.count_eq_one_of_mem hloc.free_nodup hmem, fun t ht => ?_⟩
    cases hl.symm.trans ((hqueue t m).mp ht).2
  | queue t =>
    have hmem : m ∈ (s.sig.thread t).sigqueue := (hqueue t m).mpr ⟨hm, hl⟩
    refine .inr ⟨fun hf => ?_, t, ?_, List.count_eq_one_of_mem (hloc.queue_nodup t) hmem, fun u hu hmu => hu ?_⟩
    · cases hl.symm.trans ((hloc.free_iff m).mp hf).2
    · by_contra hdead
      have hnil : (s.sig.thread t).sigqueue = [] := h.pooled.dead t (Bool.eq_false_iff.mpr hdead)
      rw [hnil] at hmem
      cases hmem
    · have he := hl.symm.trans ((hqueue u m).mp hmu).2
      injection he with he
      exact he.symm
  | hand u => cases (hloc.hand_iff u m).mpr ⟨hm, hl⟩

section Runs

instance (s : Sys P) : (e : Event P) → Decidable (e.Careful s)
  | .send slot _ => inferInstanceAs (Decidable (s.live slot = true))
  | .create _ | .enlist _ _ | .unlist _ | .free _ | .status _ _ | .kill _ _ | .check _ | .sigreturn _ | .timedwait _
  | .mask _ _ | .action _ _ _ | .user _ _ _ => .isTrue trivial

def Event.next : Sys P → Event P → Option (Sys P) :=
  Run.guarded (fun s e => e.Enabled s) fun s e => Prog.next e.exec s

lemma step_of_next {s s' : Sys P} {e : Event P} (h : Event.next s e = some s') : e.Step s s' := by
  obtain ⟨he, hn⟩ := Run.of_guarded h
  exact ⟨he, run_of_next hn⟩

def Event.carefulNext : Sys P → Event P → Option (Sys P) := Run.guarded (fun s e => e.Careful s) Event.next

lemma careful_of_next {s s' : Sys P} {e : Event P} (h : Event.carefulNext s e = some s') : e.CarefulStep s s' := by
  obtain ⟨hc, hn⟩ := Run.of_guarded h
  exact ⟨hc, step_of_next hn⟩

def start : Sys Unit := .init (fun _ => ()) fun _ _ => 0

def childDied : List (Event Unit) := [.create 0, .enlist 0 (), .send 0 10, .kill () 17]

theorem record_on_live_queue : ∃ s, Run Event.CarefulStep start childDied s ∧ 1 < nSigEvents ∧
    (s.sig.thread 0).sigqueue = [1, 0] ∧
    ((s.sig.freeq.count 1 = 1 ∧ ∀ t, 1 ∉ (s.sig.thread t).sigqueue) ∨
    (1 ∉ s.sig.freeq ∧ ∃ t, s.live t = true ∧ (s.sig.thread t).sigqueue.count 1 = 1 ∧
      ∀ u, u ≠ t → 1 ∉ (s.sig.thread u).sigqueue)) := by
  obtain ⟨s, hrun, hq⟩ := Run.of_eval (fun _ _ _ => careful_of_next)
    (show (childDied.foldlM Event.carefulNext start).map (fun s => (s.sig.thread 0).sigqueue) = some [1, 0] by
      decide +kernel)
  exact ⟨s, hrun, by decide, hq, sigevents_conserved _ _ hrun 1 (by decide)⟩

def lateAlarm : List (Event Unit) := [.create 0, .enlist 0 (), .unlist 0, .free 0, .send 0 14]

theorem record_on_dead_queue : ∃ s, Run Event.Step start lateAlarm s ∧ s.live 0 = false ∧
    (s.sig.thread 0).sigqueue = [0] := by
  obtain ⟨s, hrun, hq⟩ := Run.of_eval (fun _ _ _ => step_of_next)
    (show (lateAlarm.foldlM Event.next start).map (fun s => (s.live 0, (s.sig.thread 0).sigqueue)) =
      some (false, [0]) by decide +kernel)
  rw [Prod.mk.injEq] at hq
  exact ⟨s, hrun, hq⟩

end Runs

end FarmOS.Signal.Conserve

import FarmOS.Signal.Event

/-! What `sig_check` does with the signals of a thread. -/

set_option linter.unusedSectionVars false

namespace FarmOS.Signal

open Lib Function List

variable {T P : Type} [DecidableEq T] [DecidableEq P] {proc : T → P} {s s' : State T P} {t : T} {se : ℕ} {o : Outcome}
  {E : Fault → Prop} {signo : ℕ} {th : Thread}

abbrev State.busy (s : State T P) (se : ℕ) : Bool := (s.events se).processing

abbrev State.signal (s : State T P) (se : ℕ) : Prop := 0 < (s.events se).signo ∧ (s.events se).signo ≤ signalMax

def State.blocked (s : State T P) (t : T) (se : ℕ) : Bool :=
  ((s.thread t).sigmask ||| (s.thread t).cursigmask).getLsbD ((s.events se).signo - 1)

def State.actionFor (s : State T P) (proc : T → P) (t : T) (se : ℕ) : SigAction :=
  s.action (proc t) ((s.events se).signo - 1)

abbrev SigAction.handles (sa : SigAction) : Prop := sa.handler ≠ 0 ∧ sa.handler ≠ sigIgn

abbrev deadly (signo : ℕ) : Prop := signo = sigkill ∨ signo = sigterm ∨ signo = sigsegv

def State.discard (s : State T P) (t : T) (se : ℕ) : State T P :=
  { (s.setThread t { s.thread t with sigqueue := (s.thread t).sigqueue.erase se }).setEvent se .zero with
    freeq := se :: s.freeq }

lemma wp_sigactionGet {p : P} {Q : SigAction → State T P → Prop} (hE : ¬ (0 < signo ∧ signo ≤ signalMax) → E .panic)
    (h : 0 < signo ∧ signo ≤ signalMax → Q (s.action p (signo - 1)) s) : wp (sigactionGet p signo) Q E s := by
  unfold sigactionGet
  rw [wp_ite]
  refine ⟨fun hs => ?_, fun hs => wp_throw.mpr (hE hs)⟩
  rw [wp_bind, wp_get, wp_pure]
  exact h hs

lemma wp_sigTdCanhandle {Q : Bool → State T P → Prop} (hE : ¬ (0 < signo ∧ signo ≤ signalMax) → E .panic)
    (h : Q (!((s.thread t).sigmask ||| (s.thread t).cursigmask).getLsbD (signo - 1)) s) :
    wp (sigTdCanhandle t signo) Q E s := by
  unfold sigTdCanhandle sigsetIsset
  simp only [wp_bind, wp_get]
  rw [wp_ite]
  exact ⟨fun _ => wp_pure.mpr (wp_pure.mpr h), fun hs => wp_throw.mpr (hE hs)⟩

def Found (s : State T P) (t : T) (l : List ℕ) : Option ℕ → Prop
  | none => ∀ x ∈ l, s.busy x = false ∧ s.blocked t x = true
  | some se => ∃ pre post, l = pre ++ se :: post ∧ (∀ x ∈ pre, s.busy x = false ∧ s.blocked t x = true) ∧
      (s.busy se = true ∨ s.blocked t se = false)

lemma wp_sigGetseFrom (l : List ℕ) : wp (sigGetseFrom t l) (fun r s' => s = s' ∧ Found s t l r)
    (fun e => e = .panic ∧ ∃ se ∈ l, ¬ s.signal se) s := by
  induction l with
  | nil => exact wp_pure.mpr ⟨rfl, by simp [Found]⟩
  | cons x rest ih =>
    rw [sigGetseFrom]
    simp only [wp_bind, wp_get]
    rw [wp_ite]
    refine ⟨fun hx => wp_pure.mpr ⟨rfl, [], rest, rfl, by simp, .inl hx⟩, fun hx => ?_⟩
    have hbusy : s.busy x = false := Bool.eq_false_iff.mpr hx
    rw [wp_bind]
    refine wp_sigTdCanhandle (fun hs => ⟨rfl, x, mem_cons_self, hs⟩) ?_
    change wp (if (!s.blocked t x) = true then _ else _) _ _ _
    rw [wp_ite]
    refine ⟨fun hb => wp_pure.mpr ⟨rfl, [], rest, rfl, by simp, .inr (by simpa using hb)⟩, fun hb => ?_⟩
    have hx : s.busy x = false ∧ s.blocked t x = true := ⟨hbusy, by simpa using hb⟩
    refine wp_mono (wp_mono_error ih ?_) ?_
    · rintro e ⟨he, y, hy, hs⟩
      exact ⟨he, y, mem_cons_of_mem x hy, hs⟩
    rintro r s' ⟨hs, hr⟩
    refine ⟨hs, ?_⟩
    cases r with
    | none => exact forall_mem_cons.mpr ⟨hx, hr⟩
    | some se =>
      obtain ⟨pre, post, rfl, hpre, hse⟩ := hr
      exact ⟨x :: pre, post, rfl, forall_mem_cons.mpr ⟨hx, hpre⟩, hse⟩

lemma wp_sigGetse : wp (sigGetse t) (fun r s' => s = s' ∧ Found s t (s.thread t).sigqueue r)
    (fun e => e = .panic ∧ ∃ se ∈ (s.thread t).sigqueue, ¬ s.signal se) s := by
  unfold sigGetse
  rw [wp_bind, wp_get]
  exact wp_sigGetseFrom _

lemma wp_discard {Q : Unit → State T P → Prop} :
    wp (do sigeventqRemove t se; sigeventFree se) Q E s ↔ Q () (s.discard t se) := by
  simp only [sigeventqRemove, sigeventFree, wp_bind, wp_modify]
  rfl

def contextAddr (tf : Trapframe) : BitVec 64 :=
  alignDown (alignDown (tf .sp - 0x1000 - siginfoSize) - ucontextSize)

structure Started (proc : T → P) (t : T) (se : ℕ) (sa : SigAction) (s s' : State T P) : Prop where
  event : ∃ e, s'.events = update s.events se e ∧ e.processing = true ∧ e.restoretf = (s.thread t).trapframe ∧
    e.restoremask = (s.thread t).cursigmask ∧ e.signo = (s.events se).signo ∧
    (sa.siginfo = true → e.uuctx = contextAddr (s.thread t).trapframe)
  freeq : s'.freeq = s.freeq
  thread (u : T) : (s'.thread u).sigqueue = (s.thread u).sigqueue ∧
    (s'.thread u).sig = if u = t then some se else (s.thread u).sig
  context : sa.siginfo = true → s'.mem (proc t) = blit (blit (s.mem (proc t))
    (alignDown ((s.thread t).trapframe .sp - 0x1000 - siginfoSize)).toNat (siginfoBytes (s.events se).signo))
    (contextAddr (s.thread t).trapframe).toNat
    (ucontextBytes (s.thread t).sigmask ((s.thread t).trapframe .epc))

lemma wp_sigBeforestart (sa : SigAction) : wp (sigBeforestart proc t se sa)
    (fun _ s' => Started proc t se sa s s') E s := by
  have hthread : ∀ {th : Thread} (u : T), th.sigqueue = (s.thread t).sigqueue → th.sig = some se →
      (update s.thread t th u).sigqueue = (s.thread u).sigqueue ∧
        (update s.thread t th u).sig = if u = t then some se else (s.thread u).sig := by
    intro th u hq hs
    by_cases hu : u = t
    · subst hu
      rw [update_self, if_pos rfl]
      exact ⟨hq, hs⟩
    · rw [update_of_ne hu, if_neg hu]
      exact ⟨rfl, rfl⟩
  unfold sigBeforestart siginfoSet
  simp only [wp_bind, wp_modify]
  rw [wp_ite]
  refine ⟨fun hi => ?_, fun hi => ?_⟩
  · simp only [wp_bind, wp_modify]
    refine ⟨?_, rfl, fun u => ?_, fun _ => ?_⟩
    · simp only [setThread_events, setMem_events, setEvent_events, update_idem, update_self]
      refine ⟨_, rfl, rfl, rfl, rfl, rfl, fun _ => ?_⟩
      simp [contextAddr]
    · simp only [setThread_thread, setMem_thread, setEvent_thread, update_idem, update_self]
      exact hthread u rfl rfl
    · simp [contextAddr]
  · simp only [wp_modify]
    refine ⟨?_, rfl, fun u => ?_, fun h => absurd h hi⟩
    · exact ⟨_, rfl, rfl, rfl, rfl, rfl, fun h => absurd h hi⟩
    · simp only [setThread_thread, setEvent_thread, update_idem, update_self]
      exact hthread u rfl rfl

structure Pending (s : State T P) (t : T) (se : ℕ) : Prop where
  alive : (s.thread t).killed = false
  found : Found s t (s.thread t).sigqueue (some se)
  idle : s.busy se = false
  signal : s.signal se

inductive Delivers (proc : T → P) (t : T) : State T P → Outcome → State T P → Prop
  | dead {s : State T P} : (s.thread t).killed = true → Delivers proc t s .exit s
  | rest {s : State T P} {r : Option ℕ} : (s.thread t).killed = false → Found s t (s.thread t).sigqueue r →
      (∀ se, r = some se → s.busy se = true) → Delivers proc t s .none s
  | kill {s : State T P} {se : ℕ} : Pending s t se → ¬ (s.actionFor proc t se).handles → deadly (s.events se).signo →
      Delivers proc t s .exit (s.setThread t { s.thread t with killed := true })
  | discard {s s' : State T P} {se : ℕ} {o : Outcome} : Pending s t se → ¬ (s.actionFor proc t se).handles →
      ¬ deadly (s.events se).signo → Delivers proc t (s.discard t se) o s' → Delivers proc t s o s'
  | start {s s' : State T P} {se : ℕ} : Pending s t se → (s.actionFor proc t se).handles →
      Started proc t se (s.actionFor proc t se) s s' → Delivers proc t s (.started se (s.actionFor proc t se)) s'

lemma Pending.mem (h : Pending s t se) : se ∈ (s.thread t).sigqueue := by
  obtain ⟨pre, post, hq, -⟩ := h.found
  rw [hq]
  exact mem_append_right _ mem_cons_self

lemma Pending.unblocked (h : Pending s t se) : s.blocked t se = false := by
  obtain ⟨pre, post, -, -, hse⟩ := h.found
  exact hse.resolve_left (by simp [h.idle])

lemma proj_setThread {β : Type} (g : Thread → β) (h : g th = g (s.thread t)) (u : T) :
    g ((s.setThread t th).thread u) = g (s.thread u) := by
  obtain rfl | hu := eq_or_ne u t
  · rw [setThread_thread, update_self, h]
  · rw [setThread_thread, update_of_ne hu]

section Discard

variable (s t se)

@[simp] lemma queue_discard : ((s.discard t se).thread t).sigqueue = (s.thread t).sigqueue.erase se := by
  simp [State.discard]

@[simp] lemma thread_discard : (s.discard t se).thread t =
    { s.thread t with sigqueue := (s.thread t).sigqueue.erase se } := by
  simp [State.discard]

end Discard

lemma events_discard {x : ℕ} (h : x ≠ se) : (s.discard t se).events x = s.events x := by
  simp [State.discard, h]

lemma wp_sigCheckFrom (n : ℕ) (hn : (s.thread t).sigqueue.length + 2 ≤ n) :
    wp (sigCheckFrom proc t n) (Delivers proc t s)
      (fun e => e = .panic ∧ ((s.thread t).sigqueue.Nodup → ∃ se ∈ (s.thread t).sigqueue, ¬ s.signal se)) s := by
  induction n generalizing s with
  | zero => omega
  | succ n ih =>
    rw [sigCheckFrom]
    simp only [wp_bind, wp_get]
    rw [wp_ite]
    refine ⟨fun hk => wp_pure.mpr (.dead hk), fun hk => ?_⟩
    have hk : (s.thread t).killed = false := Bool.eq_false_iff.mpr hk
    refine wp_seq (wp_mono_error wp_sigGetse fun e he => ⟨he.1, fun _ => he.2⟩) ?_
    rintro r _ ⟨rfl, hr⟩
    cases r with
    | none => exact wp_pure.mpr (.rest hk hr (by simp))
    | some se =>
      simp only [wp_bind, wp_get]
      rw [wp_ite]
      refine ⟨fun hb => wp_pure.mpr (.rest hk hr fun _ he => Option.some.inj he ▸ hb), fun hb => ?_⟩
      have hmem : se ∈ (s.thread t).sigqueue := by
        obtain ⟨pre, post, hq, -⟩ := hr
        rw [hq]
        exact mem_append_right _ mem_cons_self
      rw [wp_bind]
      refine wp_sigactionGet (fun hs => ⟨rfl, fun _ => ⟨se, hmem, hs⟩⟩) fun hs => ?_
      have hp : Pending s t se := ⟨hk, hr, Bool.eq_false_iff.mpr hb, hs⟩
      rw [wp_ite]
      refine ⟨fun hh => ?_, fun hh => ?_⟩
      · have hh : ¬ (s.actionFor proc t se).handles := fun h => hh.elim h.1 h.2
        rw [wp_ite]
        refine ⟨fun hd => ?_, fun hd => ?_⟩
        · rw [wp_bind, wp_modify]
          obtain ⟨m, rfl⟩ : ∃ m, n = m + 1 := ⟨n - 1, by omega⟩
          rw [sigCheckFrom, wp_bind, wp_get, if_pos (by simp), wp_pure]
          exact .kill hp hh hd
        · rw [← bind_assoc, wp_bind, wp_discard]
          refine wp_mono (wp_mono_error (ih ?_) fun e he => ⟨he.1, fun hnd => ?_⟩) fun o s' h => .discard hp hh hd h
          · rw [queue_discard, length_erase_of_mem hmem]
            have := length_pos_of_mem hmem
            omega
          · obtain ⟨x, hx, hbad⟩ := he.2 (by rw [queue_discard]; exact hnd.erase se)
            rw [queue_discard] at hx
            obtain ⟨hne, hx⟩ := hnd.mem_erase_iff.mp hx
            exact ⟨x, hx, by rwa [State.signal, events_discard hne] at hbad⟩
      · rw [wp_bind]
        refine wp_mono (wp_sigBeforestart _) fun _ s' h => wp_pure.mpr (.start hp (not_or.mp hh) h)

lemma wp_sigCheck : wp (sigCheck proc t) (Delivers proc t s)
    (fun e => e = .panic ∧ ((s.thread t).sigqueue.Nodup → ∃ se ∈ (s.thread t).sigqueue, ¬ s.signal se)) s := by
  rw [sigCheck, wp_bind, wp_get]
  exact wp_sigCheckFrom _ (Nat.le_refl _)

structure Alike (s s' : State T P) : Prop where
  freeq : s'.freeq = s.freeq
  queue (u : T) : (s'.thread u).sigqueue = (s.thread u).sigqueue
  sig (u : T) : (s'.thread u).sig = (s.thread u).sig

lemma Alike.setThread (h : Alike s s') (hq : th.sigqueue = (s'.thread t).sigqueue)
    (hs : th.sig = (s'.thread t).sig) : Alike s (s'.setThread t th) where
  freeq := h.freeq
  queue u := (proj_setThread Thread.sigqueue hq u).trans (h.queue u)
  sig u := (proj_setThread Thread.sig hs u).trans (h.sig u)

def Returned (t : T) (s s' : State T P) : Prop :=
  ∃ s1 se, Alike s s1 ∧ se ∈ (s.thread t).sigqueue ∧ s' = s1.discard t se

lemma wp_sigReturn_returned (hE : E .panic) : wp (sigReturn proc t) (fun _ s' => Returned t s s') E s := by
  rw [sigReturn, wp_bind, wp_get]
  cases hc : s.current t with
  | none => exact wp_throw.mpr hE
  | some se =>
    simp only [wp_bind, wp_get]
    refine wp_sigactionGet (fun _ => hE) fun _ => ?_
    rw [sigAfterret, wp_modify, ← wp_bind, wp_discard]
    refine ⟨_, se, ?_, mem_of_find?_eq_some hc, rfl⟩
    exact Alike.setThread ⟨rfl, fun _ => rfl, fun _ => rfl⟩ rfl rfl

lemma wp_sysSigreturn_returned (hE : E .panic) : wp (sysSigreturn proc t) (fun _ s' => Returned t s s') E s := by
  have hret {g : State T P} (hg : Alike s g) : wp (sigReturn proc t) (fun _ s' => Returned t s s') E g := by
    refine wp_mono (wp_sigReturn_returned hE) fun _ _ ⟨s1, x, h, hx, he⟩ => ⟨s1, x, ?_, hg.queue t ▸ hx, he⟩
    exact ⟨h.freeq.trans hg.freeq, fun u => (h.queue u).trans (hg.queue u), fun u => (h.sig u).trans (hg.sig u)⟩
  rw [sysSigreturn, wp_bind, wp_get]
  cases (s.thread t).sig with
  | none => exact wp_throw.mpr hE
  | some se =>
    simp only [wp_bind, wp_get]
    refine wp_sigactionGet (fun _ => hE) fun _ => ?_
    rw [wp_ite]
    refine ⟨fun _ => ?_, fun _ => ?_⟩
    · simp only [siginfoReturn, wp_bind, wp_modify, wp_get, wp_pure]
      refine hret (Alike.setThread ⟨rfl, fun _ => rfl, fun _ => rfl⟩ ?_ ?_)
      all_goals rfl
    · simp only [wp_bind, wp_get, wp_pure]
      exact hret ⟨rfl, fun _ => rfl, fun _ => rfl⟩

section Delivery

def State.fatal (s : State T P) (proc : T → P) (t : T) (se : ℕ) : Prop :=
  (s.events se).signo = sigkill ∨
    ((s.events se).signo = sigterm ∨ (s.events se).signo = sigsegv) ∧ (s.actionFor proc t se).handler = 0

structure Quiescent (s : State T P) (t : T) : Prop where
  nodup : (s.thread t).sigqueue.Nodup
  idle {se : ℕ} : se ∈ (s.thread t).sigqueue → s.busy se = false ∧ s.signal se

/-- The condition on the unblocked signals, in the order of the queue: those in front that neither have a handler nor
are deadly are discarded, and the next one decides. -/
def Deliverable (proc : T → P) (s : State T P) (t : T) : List ℕ → Prop
  | [] => True
  | se :: l =>
    if (s.actionFor proc t se).handles then
      ∀ x ∈ se :: l, (s.actionFor proc t x).handles ∧ (s.events x).signo ≠ sigkill
    else if deadly (s.events se).signo then ∃ x ∈ se :: l, s.fatal proc t x
    else Deliverable proc s t l

def State.unblocked (s : State T P) (t : T) : List ℕ := (s.thread t).sigqueue.filter fun se => !s.blocked t se

structure Delivered (proc : T → P) (t : T) (s : State T P) (o : Outcome) (s' : State T P) : Prop where
  exit : o = .exit ↔ (s.thread t).killed = true ∨
    ∃ se ∈ (s.thread t).sigqueue, s.blocked t se = false ∧ s.fatal proc t se
  started {se : ℕ} {sa : SigAction} : o = .started se sa → se ∈ (s.thread t).sigqueue ∧ s.blocked t se = false ∧
    sa = s.actionFor proc t se ∧ sa.handles
  queue : o ≠ .exit → (s'.thread t).sigqueue =
    (s.thread t).sigqueue.filter fun se => s.blocked t se || decide (s.actionFor proc t se).handles
  blocked : ((s.thread t).sigqueue.filter (s.blocked t)).Sublist (s'.thread t).sigqueue
  quiet : o = .none → s'.thread t = { s.thread t with sigqueue := (s'.thread t).sigqueue }

lemma mem_of_discard (proc : T → P) (se : ℕ) (hnd : (s.thread t).sigqueue.Nodup) (x : ℕ)
    (hx : x ∈ (s.thread t).sigqueue.erase se) :
    x ∈ (s.thread t).sigqueue ∧ (s.discard t se).events x = s.events x ∧
      (s.discard t se).blocked t x = s.blocked t x ∧ (s.discard t se).actionFor proc t x = s.actionFor proc t x := by
  obtain ⟨hne, hm⟩ := hnd.mem_erase_iff.mp hx
  have he := events_discard (s := s) (t := t) hne
  refine ⟨hm, he, ?_, ?_⟩
  · rw [State.blocked, State.blocked, he, thread_discard]
  · rw [State.actionFor, State.actionFor, he]
    rfl

lemma Quiescent.discard (h : Quiescent s t) : Quiescent (s.discard t se) t := by
  refine ⟨?_, fun {x} hx => ?_⟩
  all_goals rw [queue_discard] at *
  · exact h.nodup.erase se
  · obtain ⟨hne, hm⟩ := h.nodup.mem_erase_iff.mp hx
    rw [State.busy, State.signal, events_discard hne]
    exact h.idle hm

lemma mem_unblocked {x : ℕ} : x ∈ s.unblocked t ↔ x ∈ (s.thread t).sigqueue ∧ s.blocked t x = false := by
  simp [State.unblocked]

lemma Pending.queue (h : Pending s t se) : ∃ l, s.unblocked t = se :: l := by
  obtain ⟨pre, post, hq, hpre, -⟩ := h.found
  have h0 : pre.filter (fun x => !s.blocked t x) = [] := by
    refine filter_eq_nil_iff.mpr fun x hx => ?_
    simp [(hpre x hx).2]
  refine ⟨post.filter fun x => !s.blocked t x, ?_⟩
  rw [State.unblocked, hq, filter_append, h0, nil_append, filter_cons_of_pos (by simp [h.unblocked])]

section Discarded

variable (hq : Quiescent s t)
include hq

lemma filter_discard {p q : ℕ → Bool} (hse : q se = false)
    (hpq : ∀ x ∈ (s.thread t).sigqueue.erase se, p x = q x) :
    ((s.discard t se).thread t).sigqueue.filter p = (s.thread t).sigqueue.filter q := by
  rw [queue_discard, filter_congr hpq, hq.nodup.erase_eq_filter, filter_filter]
  refine filter_congr fun x _ => ?_
  by_cases hx : x = se
  · simp [hx, hse]
  · simp [hx]

lemma unblocked_discard (hp : Pending s t se) : s.unblocked t = se :: (s.discard t se).unblocked t := by
  obtain ⟨l, hl⟩ := hp.queue
  have hnd : (se :: l).Nodup := hl ▸ hq.nodup.filter _
  have h : (s.discard t se).unblocked t = (s.unblocked t).filter (· ≠ se) := by
    rw [State.unblocked, State.unblocked, filter_filter]
    refine filter_discard hq (by simp) fun x hx => ?_
    have hne := (hq.nodup.mem_erase_iff.mp hx).1
    simp [State.blocked, events_discard hne, hne]
  have hl' : l.filter (· ≠ se) = l :=
    filter_eq_self.mpr fun x hx => decide_eq_true (ne_of_mem_of_not_mem hx (nodup_cons.mp hnd).1)
  rw [h, hl, filter_cons_of_neg (by simp), hl']

lemma deliverable_discard {l : List ℕ} (hl : ∀ x ∈ l, x ∈ (s.thread t).sigqueue.erase se) :
    Deliverable proc (s.discard t se) t l ↔ Deliverable proc s t l := by
  induction l with
  | nil => rfl
  | cons a l ih =>
    have hkeep x (hx : x ∈ a :: l) := mem_of_discard proc se hq.nodup x (hl x hx)
    obtain ⟨-, he, -, ha⟩ := hkeep a mem_cons_self
    rw [Deliverable, Deliverable, he, ha, ih fun x hx => hl x (mem_cons_of_mem _ hx)]
    refine iff_of_eq (ite_congr rfl (fun _ => propext ?_) fun _ => ite_congr rfl (fun _ => propext ?_) fun _ => rfl)
    · refine forall₂_congr fun x hx => ?_
      rw [(hkeep x hx).2.1, (hkeep x hx).2.2.2]
    · refine exists_congr fun x => and_congr_right fun hx => ?_
      rw [State.fatal, State.fatal, (hkeep x hx).2.1, (hkeep x hx).2.2.2]

lemma delivered_discard (hp : Pending s t se) (hh : ¬ (s.actionFor proc t se).handles)
    (hdead : ¬ deadly (s.events se).signo) :
    Delivered proc t (s.discard t se) o s' ↔ Delivered proc t s o s' := by
  have hkeep := mem_of_discard proc se hq.nodup
  have hkill : ((s.discard t se).thread t).killed = (s.thread t).killed := by rw [thread_discard]
  have hexit : (∃ x ∈ ((s.discard t se).thread t).sigqueue, (s.discard t se).blocked t x = false ∧
      (s.discard t se).fatal proc t x) ↔ ∃ x ∈ (s.thread t).sigqueue, s.blocked t x = false ∧ s.fatal proc t x := by
    rw [queue_discard]
    refine ⟨fun ⟨x, hx, hb, hf⟩ => ?_, fun ⟨x, hx, hb, hf⟩ => ?_⟩
    · obtain ⟨hm, he, hb', ha⟩ := hkeep x hx
      rw [State.fatal, he, ha] at hf
      exact ⟨x, hm, hb' ▸ hb, hf⟩
    · have hne : x ≠ se := by
        rintro rfl
        exact hdead (hf.imp_right And.left)
      have hx' := (mem_erase_of_ne hne).mpr hx
      obtain ⟨-, he, hb', ha⟩ := hkeep x hx'
      refine ⟨x, hx', hb'.trans hb, ?_⟩
      rw [State.fatal, he, ha]
      exact hf
  have hstart {x : ℕ} {sa : SigAction} : (x ∈ ((s.discard t se).thread t).sigqueue ∧
      (s.discard t se).blocked t x = false ∧ sa = (s.discard t se).actionFor proc t x ∧ sa.handles) ↔
      x ∈ (s.thread t).sigqueue ∧ s.blocked t x = false ∧ sa = s.actionFor proc t x ∧ sa.handles := by
    rw [queue_discard]
    refine ⟨fun ⟨hx, hb, hsa, hh'⟩ => ?_, fun ⟨hx, hb, hsa, hh'⟩ => ?_⟩
    · obtain ⟨hm, -, hb', ha⟩ := hkeep x hx
      exact ⟨hm, hb' ▸ hb, ha ▸ hsa, hh'⟩
    · have hne : x ≠ se := by
        rintro rfl
        exact hh (hsa ▸ hh')
      have hx' := (mem_erase_of_ne hne).mpr hx
      obtain ⟨-, -, hb', ha⟩ := hkeep x hx'
      exact ⟨hx', hb'.trans hb, hsa.trans ha.symm, hh'⟩
  have hqueue := filter_discard hq (q := fun x => s.blocked t x || decide (s.actionFor proc t x).handles)
    (p := fun x => (s.discard t se).blocked t x || decide ((s.discard t se).actionFor proc t x).handles)
    (by simp [hp.unblocked, hh]) fun x (hx : x ∈ (s.thread t).sigqueue.erase se) => by
      simp only [(hkeep x hx).2.2.1, (hkeep x hx).2.2.2]
  have hblocked := filter_discard hq hp.unblocked fun x hx => (hkeep x hx).2.2.1
  refine ⟨fun ⟨h1, h2, h3, h4, h5⟩ => ?_, fun ⟨h1, h2, h3, h4, h5⟩ => ?_⟩
  · rw [hkill, hexit] at h1
    rw [hblocked] at h4
    rw [thread_discard] at h5
    exact ⟨h1, fun he => hstart.mp (h2 he), fun he => (h3 he).trans hqueue, h4, h5⟩
  · refine ⟨?_, fun he => hstart.mpr (h2 he), fun he => (h3 he).trans hqueue.symm, ?_, ?_⟩
    · rwa [hkill, hexit]
    · rwa [hblocked]
    · rwa [thread_discard]

end Discarded

lemma Delivers.delivered_iff (h : Delivers proc t s o s') (hq : Quiescent s t) :
    Delivered proc t s o s' ↔ (s.thread t).killed = true ∨ Deliverable proc s t (s.unblocked t) := by
  induction h with
  | dead hk =>
    exact iff_of_true ⟨⟨fun _ => .inl hk, fun _ => rfl⟩, by rintro _ _ ⟨⟩, fun h => absurd rfl h, filter_sublist,
      by rintro ⟨⟩⟩ (.inl hk)
  | @rest s r hk hf hb =>
    have hall : ∀ x ∈ (s.thread t).sigqueue, s.blocked t x = true := by
      cases r with
      | none => exact fun x hx => (hf x hx).2
      | some se =>
        obtain ⟨pre, post, hq', -⟩ := hf
        have := (@hq.idle se (by rw [hq']; simp)).1
        rw [hb se rfl] at this
        cases this
    have hnil : s.unblocked t = [] := filter_eq_nil_iff.mpr fun x hx => by simp [hall x hx]
    refine iff_of_true ⟨⟨by rintro ⟨⟩, ?_⟩, by rintro _ _ ⟨⟩, fun _ => ?_, filter_sublist, fun _ => rfl⟩
      (.inr (hnil ▸ trivial))
    · rintro (h | ⟨x, hx, h, -⟩)
      · cases hk.symm.trans h
      · cases (hall x hx).symm.trans h
    · exact (filter_eq_self.mpr fun x hx => by simp [hall x hx]).symm
  | @kill s se hp hh hdead =>
    obtain ⟨l, hl⟩ := hp.queue
    rw [hl, Deliverable, if_neg hh, if_pos hdead, ← hl]
    refine ⟨fun hd => (hd.exit.mp rfl).imp_right fun ⟨x, hx, hb, hf⟩ => ⟨x, mem_unblocked.mpr ⟨hx, hb⟩, hf⟩,
      fun hf => ⟨⟨fun _ => ?_, fun _ => rfl⟩, by rintro _ _ ⟨⟩, fun h => absurd rfl h, ?_, by rintro ⟨⟩⟩⟩
    · refine hf.imp_right fun ⟨x, hx, hf⟩ => ?_
      obtain ⟨hx, hb⟩ := mem_unblocked.mp hx
      exact ⟨x, hx, hb, hf⟩
    · simp
  | @discard s s' se o hp hh hdead _ ih =>
    have hkill : ((s.discard t se).thread t).killed = (s.thread t).killed := by rw [thread_discard]
    have hsub : ∀ x ∈ (s.discard t se).unblocked t, x ∈ (s.thread t).sigqueue.erase se := fun x hx =>
      queue_discard s t se ▸ (mem_unblocked.mp hx).1
    rw [← delivered_discard hq hp hh hdead, ih hq.discard, hkill, deliverable_discard hq hsub,
      unblocked_discard hq hp, Deliverable, if_neg hh, if_neg hdead]
  | @start s s' se hp hh hs =>
    obtain ⟨l, hl⟩ := hp.queue
    rw [hl, Deliverable, if_pos hh, ← hl]
    constructor
    · intro hd
      refine .inr fun x hx => ?_
      obtain ⟨hx, hb⟩ := mem_unblocked.mp hx
      have hkeep := hd.queue (by rintro ⟨⟩)
      rw [(hs.thread t).1] at hkeep
      have := filter_eq_self.mp hkeep.symm x hx
      rw [hb, Bool.false_or, decide_eq_true_iff] at this
      refine ⟨this, fun h9 => ?_⟩
      cases hd.exit.mpr (.inr ⟨x, hx, hb, .inl h9⟩)
    · intro hall
      replace hall := hall.resolve_left (by simp [hp.alive])
      refine ⟨⟨by rintro ⟨⟩, ?_⟩, ?_, fun _ => ?_, ?_, by rintro ⟨⟩⟩
      · rintro (h | ⟨x, hx, hb, hf⟩)
        · cases hp.alive.symm.trans h
        · obtain ⟨hx, h9⟩ := hall x (mem_unblocked.mpr ⟨hx, hb⟩)
          exact (hf.elim h9 fun h0 => hx.1 h0.2).elim
      · rintro _ _ ⟨⟩
        exact ⟨hp.mem, hp.unblocked, rfl, hh⟩
      · rw [(hs.thread t).1]
        refine (filter_eq_self.mpr fun x hx => ?_).symm
        cases hb : s.blocked t x with
        | true => rfl
        | false => exact decide_eq_true (hall x (mem_unblocked.mpr ⟨hx, hb⟩)).1
      · rw [(hs.thread t).1]
        exact filter_sublist

theorem signals_delivered (hq : Quiescent s t) :
    (∃ o s', (sigCheck proc t).run s = .ok (o, s') ∧ Delivered proc t s o s') ↔
      (s.thread t).killed = true ∨ Deliverable proc s t (s.unblocked t) := by
  obtain ⟨o, s', hr, hs⟩ := wp_total (wp_mono_error (wp_sigCheck (s := s) (t := t)) fun e h => by
    obtain ⟨se, hm, hs⟩ := h.2 hq.nodup
    exact hs (hq.idle hm).2)
  refine ⟨fun ⟨o', s1, hr', hd⟩ => ?_, fun h => ⟨o, s', hr, (hs.delivered_iff hq).mpr h⟩⟩
  obtain ⟨rfl, rfl⟩ := Prod.mk.inj (Except.ok.inj (hr.symm.trans hr'))
  exact (hs.delivered_iff hq).mp hd

def sent (action : ℕ → SigAction) (signos : List ℕ) : State Unit Unit where
  events se := { SigEvent.zero with signo := signos.getD se 0 }
  freeq := []
  thread _ := ⟨none, fun _ => 0, false, 0, 0, range signos.length⟩
  action _ := action
  mem _ _ := 0

def ignore : SigAction := ⟨sigIgn, 0, 0, 0⟩

def handle : SigAction := ⟨0x1000, 0, 0, 0⟩

theorem signals_delivered_ignored : ∃ o s', (sigCheck id ()).run (sent (fun _ => ignore) [10]) = .ok (o, s') ∧
    Delivered id () (sent (fun _ => ignore) [10]) o s' := by
  refine (signals_delivered ⟨by decide, fun h => ?_⟩).mpr (.inr ?_)
  · obtain rfl := mem_singleton.mp h
    decide
  · change Deliverable _ _ _ [0]
    rw [Deliverable, if_neg (by decide), if_neg (by decide)]
    trivial

theorem signals_misdelivered : (∃ s', (sigCheck id ()).run (sent (fun _ => ignore) [sigterm]) = .ok (.exit, s')) ∧
      (∃ sa s', (sigCheck id ()).run (sent (fun _ => handle) [sigkill]) = .ok (.started 0 sa, s')) ∧
      ∃ sa s', (sigCheck id ()).run (sent (fun n => if n = 9 then handle else ignore) [10, 12]) =
        .ok (.started 0 sa, s') ∧ (s'.thread ()).sigqueue = [0, 1] :=
  ⟨⟨_, rfl⟩, ⟨_, _, rfl⟩, _, _, rfl, rfl⟩

end Delivery

end FarmOS.Signal

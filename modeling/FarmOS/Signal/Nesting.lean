import FarmOS.Signal.Check

/-! The handlers a thread has started and not finished, and the events of its queue that are being processed. -/

set_option linter.unusedSectionVars false

namespace FarmOS.Signal

open Lib Function

inductive Op (T P : Type)
  | send (t : T) (signo : ℕ)
  | mask (t : T) (set : SigSet)
  | action (p : P) (signo : ℕ) (sa : SigAction)
  | user (t : T) (tf : Trapframe) (m : ℕ → BitVec 8)
  | check (t : T)
  | ret (t : T)
  | sigreturn (t : T)
  | free (t : T)

structure Frame where
  event : ℕ
  trapframe : Trapframe
  mask : SigSet
  context : Option (BitVec 64)

variable {T P : Type} [DecidableEq T] [DecidableEq P] {proc : T → P}

def step (proc : T → P) : Op T P → Sig T P Outcome
  | .send t signo => do
    sigSendTd t signo
    pure .none
  | .mask t set => do
    modify fun s => s.setThread t { s.thread t with sigmask := set }
    pure .none
  | .action p signo sa => do
    let _ ← sigactionGet p signo
    modify fun s => { s with action := update s.action p (update (s.action p) (signo - 1) sa) }
    pure .none
  | .user t tf m => do
    modify fun s => (s.setThread t { s.thread t with trapframe := tf }).setMem (proc t) m
    pure .none
  | .check t => sigCheck proc t
  | .ret t => do
    sigReturn proc t
    pure .none
  | .sigreturn t => do
    syscallEntry proc t
    pure .none
  | .free t => do
    sigeventFreetd t ((← get).thread t).sigqueue
    pure .none

def Thread.frame (th : Thread) (se : ℕ) (sa : SigAction) : Frame where
  event := se
  trapframe := th.trapframe
  mask := th.cursigmask
  context := if sa.siginfo then some (contextAddr th.trapframe) else none

def record (s : State T P) (k : T → List Frame) : Op T P → Outcome → T → List Frame
  | .check t, .started se sa => update k t ((s.thread t).frame se sa :: k t)
  | .ret t, _ | .sigreturn t, _ => update k t (k t).tail
  | .free t, _ => update k t []
  | _, _ => k

structure Fresh (s : State T P) : Prop where
  freeq : s.freeq.Nodup
  idle (se : ℕ) : (s.events se).processing = false
  queue (t : T) : (s.thread t).sigqueue = []

inductive Reach (proc : T → P) (allowed : State T P → (T → List Frame) → Op T P → Prop) :
    State T P → (T → List Frame) → Prop
  | start {s : State T P} : Fresh s → Reach proc allowed s fun _ => []
  | step {s s' : State T P} {k : T → List Frame} (op : Op T P) {o : Outcome} : Reach proc allowed s k →
      allowed s k op → (step proc op).run s = .ok (o, s') → Reach proc allowed s' (record s k op o)

structure Inv (s : State T P) (k : T → List Frame) : Prop where
  freeq : s.freeq.Nodup
  nodup (t : T) : (s.thread t).sigqueue.Nodup
  apart {t u : T} {se : ℕ} : se ∈ (s.thread t).sigqueue → se ∈ (s.thread u).sigqueue → t = u
  queued {t : T} {se : ℕ} : se ∈ (s.thread t).sigqueue → se ∉ s.freeq
  idle {se : ℕ} : se ∈ s.freeq → s.busy se = false
  frames (t : T) : (s.thread t).sigqueue.filter s.busy = (k t).map Frame.event
  saved {t : T} {f : Frame} : f ∈ k t → (s.events f.event).restoretf = f.trapframe ∧
    (s.events f.event).restoremask = f.mask ∧ ∀ a, f.context = some a → (s.events f.event).uuctx = a
  signo {t : T} {f : Frame} : f ∈ k t → 0 < (s.events f.event).signo ∧ (s.events f.event).signo ≤ signalMax

variable {s s' : State T P} {k : T → List Frame} {t u : T} {se : ℕ} {f : Frame} {pre post : List ℕ} {rest : List Frame}

lemma Fresh.inv (h : Fresh s) : Inv s fun _ => [] where
  freeq := h.freeq
  nodup t := by rw [h.queue t]; exact List.nodup_nil
  apart {t u se} hm := by rw [h.queue t] at hm; cases hm
  queued {t se} hm := by rw [h.queue t] at hm; cases hm
  idle _ := h.idle _
  frames t := by rw [h.queue t]; rfl
  saved hf := nomatch hf
  signo hf := nomatch hf

namespace Inv

lemma congr (h : Inv s k) (he : s'.events = s.events) (hf : s'.freeq = s.freeq)
    (hq : ∀ u, (s'.thread u).sigqueue = (s.thread u).sigqueue) : Inv s' k where
  freeq := hf ▸ h.freeq
  nodup u := hq u ▸ h.nodup u
  apart {t u se} ht hu := h.apart (hq t ▸ ht) (hq u ▸ hu)
  queued {t se} ht := hf ▸ h.queued (hq t ▸ ht)
  idle hm := by rw [State.busy, he]; exact h.idle (hf ▸ hm)
  frames u := by
    rw [hq, ← h.frames u]
    exact List.filter_congr fun x _ => by rw [State.busy, he]
  saved hm := he ▸ h.saved hm
  signo hm := he ▸ h.signo hm

lemma mem_queue (h : Inv s k) (hf : f ∈ k t) : f.event ∈ (s.thread t).sigqueue ∧ s.busy f.event = true := by
  have hm : f.event ∈ (s.thread t).sigqueue.filter s.busy := h.frames t ▸ List.mem_map_of_mem hf
  exact ⟨List.mem_of_mem_filter hm, List.of_mem_filter hm⟩

lemma setThread_same (h : Inv s k) {th : Thread} (hq : th.sigqueue = (s.thread t).sigqueue) :
    Inv (s.setThread t th) k :=
  h.congr rfl rfl (proj_setThread Thread.sigqueue hq)

lemma idle_of_lt (h : Inv s k) (hq : (s.thread t).sigqueue = pre ++ se :: post)
    (hpre : ∀ x ∈ pre, s.busy x = false) (hse : s.busy se = false) :
    (k t).map Frame.event = post.filter s.busy := by
  rw [← h.frames t, hq, List.filter_append, List.filter_eq_nil_iff.mpr fun x hx => by simp [hpre x hx],
    List.filter_cons_of_neg (by simp [hse]), List.nil_append]

section

variable {e : SigEvent} (he : s'.events = update s.events se e)
  (ho : ∀ u, u ≠ t → (s'.thread u).sigqueue = (s.thread u).sigqueue)
include he

lemma busy_of_ne {x : ℕ} (hx : x ≠ se) : s'.busy x = s.busy x := by
  rw [State.busy, he, update_of_ne hx]

lemma busy_self : s'.busy se = e.processing := by rw [State.busy, he, update_self]

lemma filter_of_not_mem {l : List ℕ} (hl : se ∉ l) : l.filter s'.busy = l.filter s.busy :=
  List.filter_congr fun _ hx => busy_of_ne he fun hx' => hl (hx' ▸ hx)

include ho

lemma push (h : Inv s k) {rest : List ℕ} (hfree : s.freeq = se :: rest) (hf : s'.freeq = rest)
    (hq : (s'.thread t).sigqueue = se :: (s.thread t).sigqueue) (hb : e.processing = false) : Inv s' k := by
  have hfr : se ∉ rest ∧ rest.Nodup := List.nodup_cons.mp (hfree ▸ h.freeq)
  have hnot : ∀ u, se ∉ (s.thread u).sigqueue := fun u hu => h.queued hu (hfree ▸ List.mem_cons_self)
  have hmem : ∀ {u x}, x ∈ (s'.thread u).sigqueue → u = t ∧ x = se ∨ x ∈ (s.thread u).sigqueue := by
    intro u x hx
    by_cases hu : u = t
    · subst hu
      rw [hq] at hx
      exact (List.mem_cons.mp hx).imp_left fun hx => ⟨rfl, hx⟩
    · exact .inr (ho u hu ▸ hx)
  have hnse : ∀ {u g}, g ∈ k u → g.event ≠ se := fun hg hx => hnot _ (hx ▸ (h.mem_queue hg).1)
  refine ⟨hf ▸ hfr.2, fun u => ?_, fun {u v x} hu hv => ?_, fun {u x} hu => ?_, fun {x} hx => ?_, fun u => ?_,
    fun {u g} hg => ?_, fun {u g} hg => ?_⟩
  · by_cases hu : u = t
    · subst hu
      rw [hq]
      exact List.nodup_cons.mpr ⟨hnot u, h.nodup u⟩
    · exact ho u hu ▸ h.nodup u
  · rcases hmem hu with ⟨rfl, rfl⟩ | hu' <;> rcases hmem hv with ⟨rfl, hx⟩ | hv'
    · rfl
    · exact absurd hv' (hnot v)
    · exact absurd (hx ▸ hu') (hnot u)
    · exact h.apart hu' hv'
  · rw [hf]
    rcases hmem hu with ⟨-, rfl⟩ | hu'
    · exact hfr.1
    · exact fun hx => h.queued hu' (hfree ▸ List.mem_cons_of_mem _ hx)
  · rw [hf] at hx
    rw [busy_of_ne he fun hx' => hfr.1 (hx' ▸ hx)]
    exact h.idle (hfree ▸ List.mem_cons_of_mem _ hx)
  · by_cases hu : u = t
    · subst hu
      rw [hq, List.filter_cons_of_neg (by simp [busy_self he, hb]), filter_of_not_mem he (hnot u)]
      exact h.frames u
    · rw [ho u hu, filter_of_not_mem he (hnot u)]
      exact h.frames u
  · rw [he, update_of_ne (hnse hg)]
    exact h.saved hg
  · rw [he, update_of_ne (hnse hg)]
    exact h.signo hg

lemma begin (h : Inv s k) (hpre : ∀ x ∈ pre, s.busy x = false) (hse : s.busy se = false)
    (hqueue : (s.thread t).sigqueue = pre ++ se :: post) (hf : s'.freeq = s.freeq)
    (hq : (s'.thread t).sigqueue = (s.thread t).sigqueue) (hb : e.processing = true) (hfe : f.event = se)
    (hs : e.restoretf = f.trapframe ∧ e.restoremask = f.mask ∧ ∀ a, f.context = some a → e.uuctx = a)
    (hsigno : 0 < e.signo ∧ e.signo ≤ signalMax) : Inv s' (update k t (f :: k t)) := by
  have hmem : se ∈ (s.thread t).sigqueue := hqueue ▸ List.mem_append_right _ List.mem_cons_self
  have hq' : ∀ u, (s'.thread u).sigqueue = (s.thread u).sigqueue := fun u => by
    by_cases hu : u = t
    · rw [hu, hq]
    · exact ho u hu
  have hold : ∀ {u g}, g ∈ k u → g.event ≠ se := fun hg hx => by
    have := (h.mem_queue hg).2
    rw [hx, hse] at this
    cases this
  have hcase : ∀ {u g}, g ∈ update k t (f :: k t) u → g = f ∨ g ∈ k u := by
    intro u g hg
    by_cases hu : u = t
    · subst hu
      rw [update_self] at hg
      exact List.mem_cons.mp hg
    · rw [update_of_ne hu] at hg
      exact .inr hg
  refine ⟨hf ▸ h.freeq, fun u => hq' u ▸ h.nodup u, fun {u v x} hu hv => h.apart (hq' u ▸ hu) (hq' v ▸ hv),
    fun {u x} hu => hf ▸ h.queued (hq' u ▸ hu), fun {x} hx => ?_, fun u => ?_, fun {u g} hg => ?_, fun {u g} hg => ?_⟩
  · rw [hf] at hx
    rw [busy_of_ne he fun hx' => h.queued hmem (hx' ▸ hx)]
    exact h.idle hx
  · rw [hq']
    by_cases hu : u = t
    · subst hu
      have hnd := h.nodup u
      rw [hqueue] at hnd
      obtain ⟨-, hnd2, hdis⟩ := List.nodup_append'.mp hnd
      have hnot : se ∉ pre := fun hx => hdis hx List.mem_cons_self
      have hidle : pre.filter s'.busy = [] := by
        rw [filter_of_not_mem he hnot]
        exact List.filter_eq_nil_iff.mpr fun x hx => by simp [hpre x hx]
      rw [update_self, List.map_cons, hfe, h.idle_of_lt hqueue hpre hse, hqueue, List.filter_append, hidle,
        List.nil_append, List.filter_cons_of_pos (by simp [busy_self he, hb]),
        filter_of_not_mem he (List.nodup_cons.mp hnd2).1]
    · rw [update_of_ne hu, filter_of_not_mem he fun hx => hu (h.apart hx hmem)]
      exact h.frames u
  · rcases hcase hg with rfl | hg'
    · rw [he, hfe, update_self]
      exact hs
    · rw [he, update_of_ne (hold hg')]
      exact h.saved hg'
  · rcases hcase hg with rfl | hg'
    · rw [he, hfe, update_self]
      exact hsigno
    · rw [he, update_of_ne (hold hg')]
      exact h.signo hg'

lemma drop (h : Inv s k) {k' : T → List Frame} (hmem : se ∈ (s.thread t).sigqueue) (hf : s'.freeq = se :: s.freeq)
    (hq : (s'.thread t).sigqueue = (s.thread t).sigqueue.erase se) (hb : e.processing = false)
    (hk : (k' t).map Frame.event = ((k t).map Frame.event).erase se) (hsub : ∀ g ∈ k' t, g ∈ k t)
    (hko : ∀ u, u ≠ t → k' u = k u) : Inv s' k' := by
  have hin : ∀ {u x}, x ∈ (s'.thread u).sigqueue → x ∈ (s.thread u).sigqueue ∧ x ≠ se := by
    intro u x hx
    by_cases hu : u = t
    · subst hu
      rw [hq] at hx
      exact ⟨List.mem_of_mem_erase hx, ((h.nodup u).mem_erase_iff.mp hx).1⟩
    · rw [ho u hu] at hx
      exact ⟨hx, fun hx' => hu (h.apart hx (hx' ▸ hmem))⟩
  have hmap : ∀ {u g}, g ∈ k' u → g ∈ k u ∧ g.event ≠ se := by
    intro u g hg
    by_cases hu : u = t
    · subst hu
      refine ⟨hsub g hg, fun hx => ?_⟩
      have hnd : ((k u).map Frame.event).Nodup := h.frames u ▸ (h.nodup u).filter _
      have := List.mem_map_of_mem (f := Frame.event) hg
      rw [hk, hx] at this
      exact (hnd.mem_erase_iff.mp this).1 rfl
    · rw [hko u hu] at hg
      exact ⟨hg, fun hx => hu (h.apart (h.mem_queue hg).1 (hx ▸ hmem))⟩
  refine ⟨?_, fun u => ?_, fun {u v x} hu hv => h.apart (hin hu).1 (hin hv).1, fun {u x} hu => ?_, fun {x} hx => ?_,
    fun u => ?_, fun {u g} hg => ?_, fun {u g} hg => ?_⟩
  · rw [hf]
    exact List.nodup_cons.mpr ⟨h.queued hmem, h.freeq⟩
  · by_cases hu : u = t
    · subst hu
      exact hq ▸ (h.nodup u).erase se
    · exact ho u hu ▸ h.nodup u
  · rw [hf]
    exact fun hx => (List.mem_cons.mp hx).elim (hin hu).2 (h.queued (hin hu).1)
  · by_cases hx' : x = se
    · rw [hx', busy_self he, hb]
    · rw [busy_of_ne he hx']
      exact h.idle ((List.mem_cons.mp (hf ▸ hx)).resolve_left hx')
  · by_cases hu : u = t
    · subst hu
      have hnd := h.nodup u
      rw [hq, hk, ← h.frames u, filter_of_not_mem he fun hx => (hnd.mem_erase_iff.mp hx).1 rfl, hnd.erase_eq_filter,
        (hnd.filter _).erase_eq_filter, List.filter_filter, List.filter_filter]
      exact List.filter_congr fun _ _ => Bool.and_comm _ _
    · rw [ho u hu, hko u hu, filter_of_not_mem he fun hx => hu (h.apart hx hmem)]
      exact h.frames u
  · rw [he, update_of_ne (hmap hg).2]
    exact h.saved (hmap hg).1
  · rw [he, update_of_ne (hmap hg).2]
    exact h.signo (hmap hg).1

end

lemma current (h : Inv s k) (t : T) : s.current t = (k t).head?.map Frame.event := by
  rw [State.current, ← List.head?_filter, ← List.head?_map]
  exact congrArg List.head? (h.frames t)

lemma nodup_events (h : Inv s k) (t : T) : ((k t).map Frame.event).Nodup := h.frames t ▸ (h.nodup t).filter _

lemma patch (h : Inv s k) (hk : k t = f :: rest) {tf : Trapframe}
    (he : s'.events = update s.events f.event { s.events f.event with restoretf := tf })
    (hf : s'.freeq = s.freeq) (hq : ∀ u, (s'.thread u).sigqueue = (s.thread u).sigqueue) :
    Inv s' (update k t ({ f with trapframe := tf } :: rest)) := by
  have hmemf : f ∈ k t := hk ▸ List.mem_cons_self
  have hbusy : ∀ x, s'.busy x = s.busy x := fun x => by
    by_cases hx : x = f.event
    · rw [hx, busy_self he]
    · exact busy_of_ne he hx
  have hcase : ∀ {u g}, g ∈ update k t ({ f with trapframe := tf } :: rest) u →
      g = { f with trapframe := tf } ∨ g ∈ k u ∧ g.event ≠ f.event := by
    intro u g hg
    by_cases hu : u = t
    · subst hu
      rw [update_self] at hg
      refine (List.mem_cons.mp hg).imp_right fun hg => ⟨hk ▸ List.mem_cons_of_mem _ hg, fun hx => ?_⟩
      have hnd := h.nodup_events u
      rw [hk, List.map_cons] at hnd
      exact (List.nodup_cons.mp hnd).1 (hx ▸ List.mem_map_of_mem hg)
    · rw [update_of_ne hu] at hg
      exact .inr ⟨hg, fun hx => hu (h.apart (h.mem_queue hg).1 (hx ▸ (h.mem_queue hmemf).1))⟩
  refine ⟨hf ▸ h.freeq, fun u => hq u ▸ h.nodup u, fun {u v x} hu hv => h.apart (hq u ▸ hu) (hq v ▸ hv),
    fun {u x} hu => hf ▸ h.queued (hq u ▸ hu), fun {x} hx => (hbusy x).trans (h.idle (hf ▸ hx)), fun u => ?_,
    fun {u g} hg => ?_, fun {u g} hg => ?_⟩
  · rw [hq, List.filter_congr fun x _ => hbusy x, h.frames u]
    by_cases hu : u = t
    · subst hu
      rw [update_self, hk]
      rfl
    · rw [update_of_ne hu]
  · rcases hcase hg with rfl | ⟨hg', hne⟩
    · rw [he, update_self]
      exact ⟨rfl, (h.saved hmemf).2⟩
    · rw [he, update_of_ne hne]
      exact h.saved hg'
  · rcases hcase hg with rfl | ⟨hg', hne⟩
    · rw [he, update_self]
      exact h.signo hmemf
    · rw [he, update_of_ne hne]
      exact h.signo hg'

end Inv

section Rules

variable {E : Fault → Prop} {signo : ℕ} {Q : Unit → State T P → Prop}

lemma Inv.discard (h : Inv s k) (hmem : se ∈ (s.thread t).sigqueue) {k' : T → List Frame}
    (hk : (k' t).map Frame.event = ((k t).map Frame.event).erase se) (hsub : ∀ g ∈ k' t, g ∈ k t)
    (hko : ∀ u, u ≠ t → k' u = k u) : Inv (s.discard t se) k' := by
  refine h.drop (e := .zero) rfl (fun u hu => ?_) hmem rfl (queue_discard ..) rfl hk hsub hko
  simp [State.discard, hu]

structure Checked (proc : T → P) (t : T) (s : State T P) (k : T → List Frame) (o : Outcome)
    (s' : State T P) : Prop where
  inv : Inv s' (record s k (.check t) o)
  context {se : ℕ} {sa : SigAction} : o = .started se sa → sa.siginfo = true →
    ucontextPc (s'.mem (proc t)) (contextAddr (s.thread t).trapframe) = (s.thread t).trapframe .epc ∧
    ucontextMask (s'.mem (proc t)) (contextAddr (s.thread t).trapframe) = (s.thread t).sigmask

lemma Checked.of_same {s1 : State T P} {o : Outcome} (h : Checked proc t s1 k o s')
    (hf : (s1.thread t).trapframe = (s.thread t).trapframe)
    (hc : (s1.thread t).cursigmask = (s.thread t).cursigmask) (hm : (s1.thread t).sigmask = (s.thread t).sigmask) :
    Checked proc t s k o s' := by
  obtain ⟨hi, hctx⟩ := h
  rw [hf, hm] at hctx
  refine ⟨?_, hctx⟩
  cases o with
  | started se sa => simpa only [record, Thread.frame, hf, hc] using hi
  | none | exit => exact hi

lemma Delivers.checked {o : Outcome} (hd : Delivers proc t s o s') (h : Inv s k) : Checked proc t s k o s' := by
  induction hd with
  | dead | rest => exact ⟨h, nofun⟩
  | kill => exact ⟨h.setThread_same rfl, nofun⟩
  | @discard _ _ se _ hp _ _ _ ih =>
    have hnot : se ∉ (k t).map Frame.event := fun hm => by
      rw [← h.frames t] at hm
      simp [hp.idle] at hm
    refine (ih (h.discard hp.mem (List.erase_of_not_mem hnot).symm (fun _ hg => hg) fun _ _ => rfl)).of_same ?_ ?_ ?_
    all_goals rw [thread_discard]
  | start hp _ hs =>
    obtain ⟨pre, post, hq, hpre, -⟩ := hp.found
    obtain ⟨e, he, hb, htf, hmask, hsig, hctx⟩ := hs.event
    refine ⟨h.begin he (fun u _ => (hs.thread u).1) (fun x hx => (hpre x hx).1) hp.idle hq hs.freeq
      (hs.thread t).1 hb rfl
      ⟨htf, hmask, fun a ha => ?_⟩ (hsig ▸ hp.signal), ?_⟩
    · simp only [Thread.frame] at ha
      split at ha
      · next hi => exact (hctx hi).trans (Option.some.inj ha)
      · cases ha
    · rintro _ _ ⟨⟩ hi
      rw [hs.context hi]
      exact ⟨ucontextPc_blit .., ucontextMask_blit ..⟩

lemma wp_sigReturn (h : Inv s k) (hk : k t = f :: rest) (hQ : ∀ s', Inv s' (update k t rest) →
      s'.thread t = { s.thread t with
        trapframe := f.trapframe, cursigmask := f.mask, sigqueue := (s.thread t).sigqueue.erase f.event } → Q () s') :
    wp (sigReturn proc t) Q E s := by
  have hmem : f ∈ k t := hk ▸ List.mem_cons_self
  obtain ⟨htf, hmask, -⟩ := h.saved hmem
  unfold sigReturn sigAfterret
  rw [wp_bind, wp_get, h.current t, hk]
  simp only [List.head?_cons, Option.map_some, wp_bind, wp_get]
  refine wp_sigactionGet (absurd (h.signo hmem)) fun _ => ?_
  rw [wp_modify, ← wp_bind, wp_discard]
  refine hQ _ (Inv.discard (k := k) ?_ ?_ ?_ ?_ fun u hu => update_of_ne hu ..) ?_
  · exact h.setThread_same rfl
  · simpa using (h.mem_queue hmem).1
  · rw [update_self, hk, List.map_cons, List.erase_cons_head]
  · intro g hg
    rw [update_self] at hg
    exact hk ▸ List.mem_cons_of_mem _ hg
  · rw [thread_discard, htf, hmask]
    simp

def resumeFrame (proc : T → P) (s : State T P) (t : T) (f : Frame) : Trapframe :=
  if (s.action (proc t) ((s.events f.event).signo - 1)).siginfo ∧
      ucontextPc (s.mem (proc t)) (s.events f.event).uuctx ≠ 0 then
    update f.trapframe .epc (ucontextPc (s.mem (proc t)) (s.events f.event).uuctx)
  else f.trapframe

def resumeMask (proc : T → P) (s : State T P) (t : T) (f : Frame) : SigSet :=
  if (s.action (proc t) ((s.events f.event).signo - 1)).siginfo then
    ucontextMask (s.mem (proc t)) (s.events f.event).uuctx
  else (s.thread t).sigmask

lemma wp_sysSigreturn (h : Inv s k) (hk : k t = f :: rest) (hsig : (s.thread t).sig = some f.event)
    {Q : BitVec 64 → State T P → Prop}
    (hQ : ∀ s', Inv s' (update k t rest) → (s'.thread t).trapframe = resumeFrame proc s t f →
      (s'.thread t).cursigmask = f.mask → (s'.thread t).sigmask = resumeMask proc s t f →
      Q (((resumeFrame proc s t f .a0).setWidth 32).signExtend 64) s') :
    wp (sysSigreturn proc t) Q E s := by
  have hmem : f ∈ k t := hk ▸ List.mem_cons_self
  have htf := (h.saved hmem).1
  unfold sysSigreturn
  rw [wp_bind, wp_get, hsig]
  simp only [wp_bind, wp_get]
  refine wp_sigactionGet (absurd (h.signo hmem)) fun _ => ?_
  have hret : ∀ {s1 : State T P} {f1 : Frame}, Inv s1 (update k t (f1 :: rest)) → f1.mask = f.mask →
      f1.trapframe = resumeFrame proc s t f → (s1.thread t).sigmask = resumeMask proc s t f → wp (sigReturn proc t)
        (fun _ s' => Q (((s'.thread t).trapframe .a0).setWidth 32 |>.signExtend 64) s') E s1 := by
    intro s1 f1 h1 hm hr hs
    refine wp_sigReturn h1 (update_self ..) fun s' hi hth => ?_
    rw [update_idem] at hi
    have hf : (s'.thread t).trapframe = resumeFrame proc s t f := by rw [hth, ← hr]
    rw [hf]
    exact hQ s' hi hf (by rw [hth, ← hm]) (by rw [hth, ← hs])
  rw [wp_ite]
  refine ⟨fun hi => ?_, fun hi => ?_⟩
  · unfold siginfoReturn
    simp only [wp_modify, wp_bind, wp_get, wp_pure]
    refine hret (h.patch hk rfl rfl fun u => ?_) rfl ?_ ?_
    · by_cases hu : u = t
      · subst hu
        simp
      · simp [hu]
    · simp [resumeFrame, hi, htf]
    · simp [resumeMask, hi]
  · simp only [wp_pure, wp_bind, wp_get]
    refine hret (show Inv s (update k t (f :: rest)) from ?_) rfl ?_ ?_
    · rw [← hk, update_eq_self]
      exact h
    · simp [resumeFrame, hi]
    · simp [resumeMask, hi]

lemma wp_syscallEntry (h : Inv s k) (hk : k t = f :: rest) (hsig : (s.thread t).sig = some f.event)
    (hQ : ∀ s', Inv s' (update k t rest) → (s'.thread t).trapframe = update (resumeFrame proc s t f) .a0
        (((resumeFrame proc s t f .a0).setWidth 32).signExtend 64) →
      (s'.thread t).cursigmask = f.mask → (s'.thread t).sigmask = resumeMask proc s t f → Q () s') :
    wp (syscallEntry proc t) Q E s := by
  unfold syscallEntry setReg
  simp only [wp_bind, wp_get, wp_modify]
  have hframe : ∀ th, resumeFrame proc (s.setThread t th) t f = resumeFrame proc s t f := fun _ => rfl
  refine wp_sysSigreturn (k := k) ?_ hk (by simpa using hsig) fun s' hi htf hm hs =>
    hQ _ (hi.setThread_same rfl) ?_ ?_ ?_
  · exact h.setThread_same rfl
  · simp [htf, hframe]
  · simpa using hm
  · simpa [resumeMask] using hs

lemma wp_sigSendTd (h : Inv s k) (hE : E .panic) : wp (sigSendTd t signo) (fun _ s' => Inv s' k) E s := by
  unfold sigSendTd sigeventAlloc sigeventqInsert
  simp only [wp_bind, wp_get]
  cases hfree : s.freeq with
  | nil => exact wp_throw.mpr hE
  | cons se rest =>
    simp only [wp_bind, wp_modify, wp_pure]
    have hpush : ∀ s' : State T P, s'.events = update s.events se { s.events se with signo := signo } →
        s'.freeq = rest → (∀ u, u ≠ t → (s'.thread u).sigqueue = (s.thread u).sigqueue) →
        (s'.thread t).sigqueue = se :: (s.thread t).sigqueue → Inv s' k := fun s' he hf ho hq =>
      h.push he ho hfree hf hq (h.idle (hfree ▸ List.mem_cons_self))
    rw [wp_ite]
    refine ⟨fun _ => wp_modify.mpr (Inv.setThread_same (hpush _ rfl rfl (fun u hu => ?_) ?_) rfl),
      fun _ => wp_pure.mpr (hpush _ rfl rfl (fun u hu => ?_) ?_)⟩
    all_goals simp [*]

lemma wp_sigeventFreetd (h : Inv s k) (l : List ℕ) (hl : (s.thread t).sigqueue = l) :
    wp (sigeventFreetd t l) (fun _ s' => Inv s' (update k t [])) E s := by
  induction l generalizing s k with
  | nil =>
    have hnil : k t = [] := by
      have := h.frames t
      rw [hl] at this
      exact List.map_eq_nil_iff.mp this.symm
    rw [← hnil, update_eq_self]
    exact wp_pure.mpr h
  | cons se rest ih =>
    have hmem : se ∈ (s.thread t).sigqueue := hl ▸ List.mem_cons_self
    have hframes := h.frames t
    rw [hl] at hframes
    rw [sigeventFreetd, ← bind_assoc, wp_bind, wp_discard]
    cases hb : s.busy se with
    | false =>
      have hnot : se ∉ (k t).map Frame.event := fun hm => by
        rw [← h.frames t] at hm
        exact Bool.eq_false_iff.mp hb (List.mem_filter.mp hm).2
      refine ih (h.discard hmem (List.erase_of_not_mem hnot).symm (fun _ hg => hg) fun _ _ => rfl) ?_
      rw [queue_discard, hl, List.erase_cons_head]
    | true =>
      rw [List.filter_cons_of_pos hb] at hframes
      obtain ⟨f, fs, hk, rfl, -⟩ := List.map_eq_cons_iff.mp hframes.symm
      have hi : Inv (s.discard t f.event) (update k t fs) := by
        refine h.discard hmem ?_ (fun g hg => ?_) fun u hu => update_of_ne hu ..
        · rw [update_self, hk, List.map_cons, List.erase_cons_head]
        · rw [update_self] at hg
          exact hk ▸ List.mem_cons_of_mem _ hg
      refine wp_mono (ih hi ?_) fun _ s'' hs'' => ?_
      · rw [queue_discard, hl, List.erase_cons_head]
      · rwa [update_idem] at hs''

lemma wp_step (h : Inv s k) (op : Op T P) (hop : ∀ t, op = .sigreturn t → (s.thread t).sig = s.current t) :
    wp (step proc op) (fun o s' => Inv s' (record s k op o)) (· ≠ .fuel) s := by
  cases op with
  | send t signo =>
    rw [step, wp_bind]
    exact wp_mono (wp_sigSendTd h nofun) fun _ _ hs => wp_pure.mpr hs
  | mask t set =>
    rw [step, wp_bind, wp_modify, wp_pure]
    exact h.setThread_same rfl
  | action p signo sa =>
    rw [step, wp_bind]
    refine wp_sigactionGet nofun fun _ => ?_
    rw [wp_bind, wp_modify, wp_pure]
    exact h.congr rfl rfl fun _ => rfl
  | user t tf m =>
    rw [step, wp_bind, wp_modify, wp_pure]
    exact Inv.congr (s := s.setThread t { s.thread t with trapframe := tf }) (h.setThread_same rfl) rfl rfl fun _ => rfl
  | check t =>
    rw [step]
    exact wp_mono (wp_mono_error wp_sigCheck fun e he => he.1 ▸ nofun) fun _ _ hs => (hs.checked h).inv
  | ret t =>
    rw [step, wp_bind]
    cases hk : k t with
    | nil =>
      rw [sigReturn, wp_bind, wp_get, h.current t, hk]
      exact wp_throw.mpr nofun
    | cons f rest =>
      refine wp_sigReturn h hk fun s' hi _ => wp_pure.mpr ?_
      rwa [record, hk]
  | sigreturn t =>
    have hsig := hop t rfl
    rw [h.current t] at hsig
    rw [step, wp_bind]
    cases hk : k t with
    | nil =>
      unfold syscallEntry setReg sysSigreturn
      rw [hk] at hsig
      simp only [wp_bind, wp_get, wp_modify, setThread_thread, update_self, hsig]
      exact wp_throw.mpr nofun
    | cons f rest =>
      refine wp_syscallEntry h hk (by rw [hsig, hk]; rfl) fun s' hi _ _ _ => wp_pure.mpr ?_
      rwa [record, hk]
  | free t =>
    rw [step, wp_bind, wp_get]
    refine wp_seq (wp_sigeventFreetd h _ rfl) fun _ _ hs => wp_pure.mpr hs

end Rules

lemma Reach.inv {allowed : State T P → (T → List Frame) → Op T P → Prop} (h : Reach proc allowed s k)
    (hallowed : ∀ s k t, Inv s k → allowed s k (.sigreturn t) → (s.thread t).sig = s.current t) : Inv s k := by
  induction h with
  | start hs => exact hs.inv
  | @step s s' k op o _ hop hrun ih =>
    refine wp_of_ok (Q := fun o s' => Inv s' (record s k op o)) (wp_step ih op fun t ht => hallowed s k t ih ?_) hrun
    rwa [ht] at hop

def Direct (_ : State T P) (_ : T → List Frame) (op : Op T P) : Prop := ∀ t, op ≠ .sigreturn t

theorem handlers_return_in_stack_order (h : Reach proc Direct s k) (t : T) :
    (s.thread t).sigqueue.filter s.busy = (k t).map Frame.event ∧
      (s.thread t).sigqueue.countP s.busy = (k t).length ∧
      ∀ f rest, k t = f :: rest → ∃ s', (sigReturn proc t).run s = .ok ((), s') ∧
        (s'.thread t).trapframe = f.trapframe ∧ (s'.thread t).cursigmask = f.mask ∧
        (s'.thread t).sigqueue = (s.thread t).sigqueue.erase f.event ∧
        (s'.thread t).sigqueue.filter s'.busy = rest.map Frame.event := by
  have hinv : Inv s k := h.inv fun _ _ t _ hd => absurd rfl (hd t)
  refine ⟨hinv.frames t, ?_, fun f rest hk => ?_⟩
  · rw [List.countP_eq_length_filter, hinv.frames t, List.length_map]
  · have hwp : wp (sigReturn proc t) (fun _ s' => Inv s' (update k t rest) ∧ s'.thread t = { s.thread t with
        trapframe := f.trapframe, cursigmask := f.mask, sigqueue := (s.thread t).sigqueue.erase f.event })
        (fun _ => False) s := wp_sigReturn hinv hk fun s' hi hth => ⟨hi, hth⟩
    obtain ⟨_, s', hrun, hi, hth⟩ := wp_total hwp
    refine ⟨s', hrun, by rw [hth], by rw [hth], by rw [hth], ?_⟩
    rw [hi.frames t, update_self]

def idle : State Unit Unit where
  events _ := .zero
  freeq := [0, 1]
  thread _ := ⟨none, fun _ => 0, false, 0, 0, []⟩
  action _ _ := ⟨0x1000, 0, 0, 0⟩
  mem _ _ := 0

theorem idle_handlers_return : ∃ (s : State Unit Unit) (k : Unit → List Frame),
    Reach id Direct s k ∧ (k ()).map Frame.event = [1, 0] ∧ (s.thread ()).sigqueue.filter s.busy = [1, 0] := by
  have h₀ : Reach id Direct idle fun _ => [] := .start ⟨by decide, fun _ => rfl, fun _ => rfl⟩
  have h₁ := Reach.step (.send () 10) h₀ nofun rfl
  have h₂ := Reach.step (.check ()) h₁ nofun rfl
  have h₃ := Reach.step (.send () 12) h₂ nofun rfl
  have h₄ := Reach.step (.check ()) h₃ nofun rfl
  exact ⟨_, _, h₄, rfl, (handlers_return_in_stack_order h₄ ()).1⟩

end FarmOS.Signal

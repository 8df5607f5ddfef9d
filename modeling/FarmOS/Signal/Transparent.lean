import FarmOS.Signal.Nesting

/-! What a handler that returns through `sys_sigreturn` leaves of the program it interrupted. -/

set_option linter.unusedSectionVars false

namespace FarmOS.Signal

open Lib Function

variable {T P : Type} [DecidableEq T] [DecidableEq P] {proc : T → P} {s : State T P} {k : T → List Frame}
  {t : T} {f : Frame}

structure Plain (proc : T → P) (s : State T P) (t : T) (f : Frame) : Prop where
  sig : (s.thread t).sig = some f.event
  int : ((f.trapframe .a0).setWidth 32).signExtend 64 = f.trapframe .a0
  siginfo : (s.action (proc t) ((s.events f.event).signo - 1)).siginfo = f.context.isSome

def Plainly (proc : T → P) (s : State T P) (k : T → List Frame) (op : Op T P) : Prop :=
  ∀ t, op = .sigreturn t → ∃ f rest, k t = f :: rest ∧ Plain proc s t f

def Frame.pc (f : Frame) (m : ℕ → BitVec 8) : BitVec 64 :=
  match f.context with
  | some a => if ucontextPc m a ≠ 0 then ucontextPc m a else f.trapframe .epc
  | none => f.trapframe .epc

def Frame.sigmask (f : Frame) (m : ℕ → BitVec 8) (current : SigSet) : SigSet :=
  match f.context with
  | some a => ucontextMask m a
  | none => current

lemma Plain.resumeFrame (h : Plain proc s t f) (ha : ∀ a, f.context = some a → (s.events f.event).uuctx = a) (r : Reg) :
    resumeFrame proc s t f r = if r = .epc then f.pc (s.mem (proc t)) else f.trapframe r := by
  rw [Signal.resumeFrame, h.siginfo, Frame.pc]
  cases hc : f.context with
  | none =>
    by_cases hr : r = .epc
    · simp [hr]
    · simp [hr]
  | some a =>
    rw [ha a hc]
    dsimp only
    generalize ucontextPc (s.mem (proc t)) a = pc
    by_cases hz : pc ≠ 0
    · rw [if_pos ⟨rfl, hz⟩, update_apply]
      rw [if_pos hz]
    · rw [if_neg fun hx => hz hx.2]
      rw [if_neg hz]
      split
      · next hr => rw [hr]
      · rfl

lemma Plain.resumeMask (h : Plain proc s t f) (ha : ∀ a, f.context = some a → (s.events f.event).uuctx = a) :
    resumeMask proc s t f = f.sigmask (s.mem (proc t)) (s.thread t).sigmask := by
  rw [Signal.resumeMask, h.siginfo, Frame.sigmask]
  cases hc : f.context with
  | none => rfl
  | some a =>
    rw [ha a hc]
    rfl

structure Restores (proc : T → P) (s : State T P) (t : T) (f : Frame) (s' : State T P) : Prop where
  regs (r : Reg) : r ≠ .epc → (s'.thread t).trapframe r = f.trapframe r
  pc : (s'.thread t).trapframe .epc = f.pc (s.mem (proc t))
  cursigmask : (s'.thread t).cursigmask = f.mask
  sigmask : (s'.thread t).sigmask = f.sigmask (s.mem (proc t)) (s.thread t).sigmask

lemma Inv.restores (h : Inv s k) {rest : List Frame} (hk : k t = f :: rest) (hp : Plain proc s t f) :
    wp (syscallEntry proc t) (fun _ s' => Restores proc s t f s') (fun _ => False) s := by
  have ha := (h.saved (hk ▸ List.mem_cons_self : f ∈ k t)).2.2
  refine wp_syscallEntry h hk hp.sig fun s' _ htf hm hs => ⟨fun r hr => ?_, ?_, hm, hs.trans (hp.resumeMask ha)⟩
  · by_cases hr' : r = .a0
    · rw [htf, hr', update_self, hp.resumeFrame ha]
      exact hp.int
    · rw [htf, update_of_ne hr', hp.resumeFrame ha, if_neg hr]
  · rw [htf, update_of_ne (show Reg.epc ≠ .a0 by decide), hp.resumeFrame ha, if_pos rfl]

theorem handlers_transparent (h : Reach proc (Plainly proc) s k) (t : T) :
    (∀ f rest, k t = f :: rest → Plain proc s t f →
      ∃ s', (syscallEntry proc t).run s = .ok ((), s') ∧ Restores proc s t f s') ∧
      ∀ se sa s', (sigCheck proc t).run s = .ok (.started se sa, s') → sa.siginfo = true →
        ucontextPc (s'.mem (proc t)) (contextAddr (s.thread t).trapframe) = (s.thread t).trapframe .epc ∧
        ucontextMask (s'.mem (proc t)) (contextAddr (s.thread t).trapframe) = (s.thread t).sigmask := by
  have hinv : Inv s k := h.inv fun s k t hi hp => by
    obtain ⟨f, rest, hk, hplain⟩ := hp t rfl
    rw [hplain.sig, hi.current t, hk]
    rfl
  refine ⟨fun f rest hk hp => ?_, fun se sa s' hrun hi => ?_⟩
  · obtain ⟨_, s', hrun, hs'⟩ := wp_total (hinv.restores hk hp)
    exact ⟨s', hrun, hs'⟩
  · exact ((wp_of_ok wp_sigCheck hrun).checked hinv).context rfl hi

def big : Trapframe := update (fun _ => 0) .a0 0x100000000

theorem sigreturn_not_transparent :
    (∃ (s : State Unit Unit) (k : Unit → List Frame) (f : Frame) (rest : List Frame) (s' : State Unit Unit),
      Reach id (fun _ _ _ => True) s k ∧ k () = f :: rest ∧ (syscallEntry id ()).run s = .ok ((), s') ∧
        f.trapframe .a0 = 0x100000000 ∧ (s'.thread ()).trapframe .a0 = 0) ∧
      ∃ (s : State Unit Unit) (k : Unit → List Frame) (f : Frame) (rest : List Frame),
        Reach id (fun _ _ _ => True) s k ∧ k () = f :: rest ∧ (syscallEntry id ()).run s = .error .panic := by
  have h₀ : Reach id (fun _ _ _ => True) idle fun _ => [] := .start ⟨by decide, fun _ => rfl, fun _ => rfl⟩
  refine ⟨?_, ?_⟩
  · have h₁ := Reach.step (.user () big fun _ => 0) h₀ trivial rfl
    have h₂ := Reach.step (.send () 10) h₁ trivial rfl
    have h₃ := Reach.step (.check ()) h₂ trivial rfl
    exact ⟨_, _, _, _, _, h₃, rfl, rfl, rfl, rfl⟩
  · have h₁ := Reach.step (.send () 10) h₀ trivial rfl
    have h₂ := Reach.step (.check ()) h₁ trivial rfl
    have h₃ := Reach.step (.send () 12) h₂ trivial rfl
    have h₄ := Reach.step (.check ()) h₃ trivial rfl
    have h₅ := Reach.step (.sigreturn ()) h₄ trivial rfl
    exact ⟨_, _, _, _, h₅, rfl, rfl⟩

theorem idle_handler_transparent : ∃ (s : State Unit Unit) (f : Frame) (s' : State Unit Unit),
    (syscallEntry id ()).run s = .ok ((), s') ∧ Restores id s () f s' := by
  have h₀ : Reach id (Plainly id) idle fun _ => [] := .start ⟨by decide, fun _ => rfl, fun _ => rfl⟩
  have h₁ := Reach.step (.send () 10) h₀ nofun rfl
  have h₂ := Reach.step (.check ()) h₁ nofun rfl
  obtain ⟨s', hrun, hs'⟩ := (handlers_transparent h₂ ()).1 _ _ rfl ⟨rfl, rfl, rfl⟩
  exact ⟨_, _, s', hrun, hs'⟩

section Sig

variable {s' : State T P} {o : Outcome}

def SameSig (s s' : State T P) : Prop := ∀ u, (s'.thread u).sig = (s.thread u).sig

lemma SameSig.refl (s : State T P) : SameSig s s := fun _ => rfl

lemma SameSig.setThread {th : Thread} (h : SameSig s s') (hs : th.sig = (s'.thread t).sig) :
    SameSig s (s'.setThread t th) := fun u => (proj_setThread Thread.sig hs u).trans (h u)

lemma SameSig.discard {se : ℕ} (h : SameSig s s') : SameSig s (s'.discard t se) := h.setThread (t := t) rfl

lemma Delivers.sig (h : Delivers proc t s o s') :
    (∀ se sa, o ≠ .started se sa) ∧ SameSig s s' ∨ ∃ se sa, o = .started se sa ∧
      ∀ u, (s'.thread u).sig = if u = t then some se else (s.thread u).sig := by
  induction h with
  | dead | rest => exact .inl ⟨nofun, .refl _⟩
  | @kill s se => exact .inl ⟨nofun, (SameSig.refl s).setThread rfl⟩
  | @discard s _ se _ _ _ _ _ ih =>
    have hs : SameSig s (s.discard t se) := (SameSig.refl s).discard
    refine ih.imp (fun ⟨ho, h⟩ => ⟨ho, fun u => (h u).trans (hs u)⟩) ?_
    rintro ⟨se, sa, ho, h⟩
    exact ⟨se, sa, ho, fun u => by rw [h u, hs u]⟩
  | start _ _ hs => exact .inr ⟨_, _, rfl, fun u => (hs.thread u).2⟩

lemma Returned.sig (h : Returned t s s') : SameSig s s' := by
  obtain ⟨s1, se, ha, -, rfl⟩ := h
  exact SameSig.discard ha.sig

lemma wp_sigeventFreetd_sig (l : List ℕ) (h : SameSig s s') :
    wp (sigeventFreetd t l) (fun _ s' => SameSig s s') (fun _ => True) s' := by
  induction l generalizing s' with
  | nil => exact wp_pure.mpr h
  | cons se rest ih =>
    rw [sigeventFreetd, ← bind_assoc, wp_bind, wp_discard]
    exact ih h.discard

lemma wp_step_sig (op : Op T P) (hop : ∀ t, op ≠ .check t) :
    wp (step proc op) (fun _ s' => SameSig s s') (fun _ => True) s := by
  have hset {t : T} {th : Thread} (hs : th.sig = (s.thread t).sig) := (SameSig.refl s).setThread hs
  cases op with
  | check t => exact absurd rfl (hop t)
  | send t signo =>
    simp only [step, sigSendTd, sigeventAlloc, sigeventqInsert, wp_bind, wp_get]
    cases s.freeq with
    | nil => exact wp_throw.mpr trivial
    | cons se rest =>
      simp only [wp_bind, wp_modify, wp_pure]
      rw [wp_ite]
      exact ⟨fun _ => wp_modify.mpr (SameSig.setThread (hset rfl) rfl), fun _ => wp_pure.mpr (hset rfl)⟩
  | mask t set | user t tf m =>
    simp only [step, wp_bind, wp_modify, wp_pure]
    exact hset rfl
  | action p signo sa =>
    rw [step, wp_bind]
    refine wp_sigactionGet (fun _ => trivial) fun _ => ?_
    rw [wp_bind, wp_modify, wp_pure]
    exact .refl s
  | ret t =>
    rw [step]
    exact wp_seq (wp_sigReturn_returned trivial) fun _ _ h => wp_pure.mpr h.sig
  | sigreturn t =>
    simp only [step, syscallEntry, setReg, wp_bind, wp_get, wp_modify, wp_pure]
    refine wp_mono (wp_sysSigreturn_returned trivial) fun _ s' h => SameSig.setThread
      (fun u => (h.sig u).trans (hset ?_ u)) rfl
    rfl
  | free t =>
    rw [step, wp_bind, wp_get]
    exact wp_seq (wp_sigeventFreetd_sig _ (.refl s)) fun _ _ h => wp_pure.mpr h

end Sig

def Alone (proc : T → P) (s : State T P) (k : T → List Frame) : Op T P → Prop
  | .check t => k t ≠ [] → ∀ se sa s', (sigCheck proc t).run s ≠ .ok (.started se sa, s')
  | .sigreturn t => k t ≠ []
  | _ => True

def Own (s : State T P) (k : T → List Frame) : Prop :=
  ∀ t f rest, k t = f :: rest → rest = [] ∧ (s.thread t).sig = some f.event

lemma Own.of_same {s' : State T P} {k' : T → List Frame} (h : Own s k) (hs : SameSig s s')
    (hk : ∀ t, k' t = k t ∨ k' t = (k t).tail ∨ k' t = []) : Own s' k' := by
  intro t f rest hf
  rw [hs t]
  rcases hk t with he | he | he
  · exact h t f rest (he ▸ hf)
  · cases hkt : k t with
    | nil =>
      rw [he, hkt] at hf
      cases hf
    | cons g l =>
      rw [he, hkt, (h t g l hkt).1] at hf
      cases hf
  · rw [he] at hf
    cases hf

lemma Reach.own (h : Reach proc (Alone proc) s k) : Inv s k ∧ Own s k := by
  induction h with
  | start hs => exact ⟨hs.inv, nofun⟩
  | @step s s' k op o _ hop hrun ih =>
    obtain ⟨hi, ho⟩ := ih
    refine ⟨wp_of_ok (Q := fun o s' => Inv s' (record s k op o)) (wp_step hi op ?_) hrun, ?_⟩
    · rintro t rfl
      obtain ⟨f, rest, hk⟩ := List.exists_cons_of_ne_nil hop
      rw [hi.current t, hk, (ho t f rest hk).2]
      rfl
    by_cases hc : ∃ t, op = .check t
    · obtain ⟨t, rfl⟩ := hc
      rcases (wp_of_ok wp_sigCheck hrun).sig with ⟨hn, hs⟩ | ⟨se, sa, rfl, hs⟩
      · refine ho.of_same hs fun u => .inl ?_
        cases o with
        | started se sa => exact absurd rfl (hn se sa)
        | none | exit => rfl
      · have hk : k t = [] := of_not_not fun hk => hop hk se sa s' hrun
        intro u f rest hf
        rw [hs u]
        by_cases hu : u = t
        · subst hu
          rw [record, update_self, hk] at hf
          cases hf
          exact ⟨rfl, if_pos rfl⟩
        · rw [record, update_of_ne hu] at hf
          rw [if_neg hu]
          exact ho u f rest hf
    · refine ho.of_same (wp_of_ok (Q := fun _ s' => SameSig s s') (wp_step_sig op fun t ht => hc ⟨t, ht⟩)
        hrun) fun u => ?_
      cases op with
      | check t => exact absurd ⟨t, rfl⟩ hc
      | send | mask | action | user => exact .inl rfl
      | ret t | sigreturn t | free t =>
        simp only [record, update_apply]
        split <;> simp [*]

theorem sigreturn_uses_own_event (h : Reach proc (Alone proc) s k) {rest : List Frame} (hk : k t = f :: rest) :
    (s.thread t).sig = some f.event ∧ f.event ∈ (s.thread t).sigqueue ∧
      (∀ a, f.context = some a → (s.events f.event).uuctx = a) ∧
      ∃ s', (syscallEntry proc t).run s = .ok ((), s') ∧ (s'.thread t).cursigmask = f.mask ∧
        (s'.thread t).sigmask = resumeMask proc s t f := by
  obtain ⟨hi, ho⟩ := h.own
  have hmem : f ∈ k t := hk ▸ List.mem_cons_self
  have hsig := (ho t f rest hk).2
  refine ⟨hsig, (hi.mem_queue hmem).1, (hi.saved hmem).2.2, ?_⟩
  have hw : wp (syscallEntry proc t) (fun _ s' => (s'.thread t).cursigmask = f.mask ∧
      (s'.thread t).sigmask = resumeMask proc s t f) (fun _ => False) s :=
    wp_syscallEntry hi hk hsig fun s' _ _ hm hs => ⟨hm, hs⟩
  obtain ⟨_, s', hrun, hs'⟩ := wp_total hw
  exact ⟨s', hrun, hs'⟩

theorem idle_sigreturn_uses_own_event : ∃ (s : State Unit Unit) (f : Frame),
    (s.thread ()).sig = some f.event ∧ f.event ∈ (s.thread ()).sigqueue := by
  have h₀ : Reach id (Alone id) idle fun _ => [] := .start ⟨by decide, fun _ => rfl, fun _ => rfl⟩
  have h₁ := Reach.step (.send () 10) h₀ trivial rfl
  have h₂ := Reach.step (.check ()) h₁ (fun h => absurd rfl h) rfl
  obtain ⟨hs, hm, -⟩ := sigreturn_uses_own_event (t := ()) h₂ rfl
  exact ⟨_, _, hs, hm⟩

theorem sigreturn_uses_wrong_event :
    (∃ (s : State Unit Unit) (k : Unit → List Frame) (f : Frame), Reach id (fun _ _ _ => True) s k ∧ k () = [f] ∧
      (s.thread ()).sig ≠ some f.event) ∧ (syscallEntry id ()).run idle = .error .panic := by
  have h₀ : Reach id (fun _ _ _ => True) idle fun _ => [] := .start ⟨by decide, fun _ => rfl, fun _ => rfl⟩
  have h₁ := Reach.step (.send () 10) h₀ trivial rfl
  have h₂ := Reach.step (.check ()) h₁ trivial rfl
  have h₃ := Reach.step (.send () 12) h₂ trivial rfl
  have h₄ := Reach.step (.check ()) h₃ trivial rfl
  have h₅ := Reach.step (.sigreturn ()) h₄ trivial rfl
  exact ⟨⟨_, _, _, h₅, rfl, by decide⟩, rfl⟩

end FarmOS.Signal

import FarmOS.Proc.Sched

/-! At every statement it is known which spin locks the CPU holds. -/

set_option linter.unusedSectionVars false

namespace FarmOS.Proc

open Lib Function List

variable {C T X Ch L G E : Type} {x : Lock T X} {hs : List X} {ret : Pos T X Ch L} {P : Pos T X Ch L → Prop}
  {td : T} {Q : Store C T X Ch L G → Prop} {R : Store C T X Ch L G → Pos T X Ch L → Prop}

def mtxs (hs : List X) : List (Lock T X) := hs.map .mtx

def Wakeup.held : Wakeup T Ch → List (Lock T X)
  | ⟨.enter, _, _⟩ => []
  | ⟨.first, _, _⟩ | ⟨.scan _, _, _⟩ => [.sleepq]
  | ⟨.check td _, _, _⟩ | ⟨.unlockTd td _, _, _⟩ => [.td td, .sleepq]
  | ⟨.exitSleepq, _, _⟩ => [.runq, .sleepq]
  | ⟨.concat, _, _⟩ | ⟨.exitRunq, _, _⟩ => [.runq]

def WakeupTdPc.held (td : T) : WakeupTdPc → List (Lock T X)
  | .lockFirst | .enterSleepq | .enterRunq => []
  | .check | .unlockOnly | .unlockFirst => [.td td]
  | .lockTd | .exitSleepq => [.sleepq]
  | .remove | .unlockTd => [.td td, .sleepq]
  | .insert | .exitRunq => [.runq]

def ForkPc.held : ForkPc T → List (Lock T X)
  | .enterFreeq | .noFree => []
  | .first => [.freeq]
  | .remove td | .exitFreeq td => [.td td, .freeq]
  | .init td | .setStatus td | .enterRunq td => [.td td]
  | .insert td | .unlockTd td => [.runq, .td td]
  | .exitRunq => [.runq]

def Ctl.held (t : T) : Ctl T X Ch L → List (Lock T X)
  | .user hs _ | .sleep .enter _ _ hs _ | .yield .lockTd hs _ | .tdDestroy .lockTd hs => mtxs hs
  | .sleep .unlockMtx _ _ hs _ | .sleep .lockTd _ _ hs _ => .sleepq :: mtxs hs
  | .sleep .enqueue _ _ hs _ => .td t :: .sleepq :: mtxs hs
  | .woken .clear _ _ | .woken .unlockTd _ _ | .resumed _ | .destroyed => [.td t]
  | .woken .lockMtx _ _ => []
  | .yield .setStatus hs _ | .tdDestroy .reset hs => .td t :: mtxs hs
  | .wakeup w hs _ => w.held ++ mtxs hs
  | .wakeupTd pc td hs _ => pc.held td ++ mtxs hs
  | .tdFork pc hs _ => pc.held ++ mtxs hs

def Own.held : Own T X Ch → List (Lock T X)
  | .boot | .idle => []
  | .exitSleepq td hs => .td td :: .sleepq :: mtxs hs
  | .enterFreeq td hs | .schedule _ td hs => .td td :: mtxs hs
  | .insertFreeq td hs | .exitFreeq td hs => .freeq :: .td td :: mtxs hs
  | .schedSwitch _ td | .enterRunq _ td | .enter td => [.td td]
  | .requeue _ td | .unlockOld td => [.runq, .td td]
  | .look | .trySleepq | .exitRunqIdle | .lockNext _ => [.runq]
  | .probe | .exitSleepqIdle => [.sleepq, .runq]
  | .removeNext td | .exitRunq td => [.td td, .runq]
  | .wakeup w => w.held

def Pos.held : Pos T X Ch L → List (Lock T X)
  | .thread t k => k.held t
  | .own o => o.held

abbrev State.held (s : State C T X Ch L G) (c : C) : List (Lock T X) := (s.pos c).held

lemma mem_mtxs (h : x ∈ mtxs hs) : ∃ y, x = .mtx y :=
  (mem_map.mp h).imp fun _ hy => hy.2.symm

lemma mem_cons_mtxs {y : Lock T X} (h : x ∈ y :: mtxs hs) (hne : x ≠ y) : ∃ z, x = .mtx z :=
  mem_mtxs (mem_of_ne_of_mem hne h)

lemma Context.held_ctl (k : Context X L) (t : T) : (k.ctl : Ctl T X Ch L).held t = [.td t] := by
  cases k <;> rfl

variable [DecidableEq C] [Fintype C] [DecidableEq T] [DecidableEq X] [DecidableEq Ch]
  {cl : Client T X Ch L G E} {s : State C T X Ch L G} {st : Store C T X Ch L G} {c c' : C} {e : E}
    {n : Pos T X Ch L} {cont : Wakeup T Ch → Pos T X Ch L}

lemma mtxs_erase (hs : List X) (x : X) : mtxs (T := T) (hs.erase x) = (mtxs hs).erase (.mtx x) :=
  map_erase (fun _ _ h => Lock.mtx.inj h) hs

def Stmt.Obeys (hs : List (Lock T X)) : Stmt C T X Ch L G → Prop
  | .acquire x n => n.held = x :: hs ∧ (x ∈ hs → ∃ y, x = .mtx y)
  | .attempt x n o => n.held = x :: hs ∧ o.held = hs ∧ x ∉ hs
  | .release x n => n.held = hs.erase x
  | .write _ n => n.held = hs
  | .stop _ | .rest => True

lemma wakeupStmt_obeys (w : Wakeup T Ch) (hc : ∀ w, (cont w).held = w.held ++ mtxs hs) (hr : ret.held = mtxs hs) :
    (wakeupStmt st cont ret w).Obeys (w.held ++ mtxs hs) := by
  obtain ⟨pc, chan, readyq⟩ := w
  cases pc with
  | enter => exact ⟨hc _, mem_mtxs⟩
  | scan rest =>
    cases rest with
    | nil => exact ⟨hc _, fun hx => mem_cons_mtxs hx nofun⟩
    | cons td rest => exact ⟨hc _, fun hx => mem_cons_mtxs hx nofun⟩
  | check td rest =>
    rw [wakeupStmt]
    split_ifs
    all_goals simp [Stmt.Obeys, hc, Wakeup.held]
  | _ => simp [wakeupStmt, Stmt.Obeys, hc, hr, Wakeup.held]

lemma wakeupTdStmt_obeys (td : T) (pc : WakeupTdPc) {cont : WakeupTdPc → Pos T X Ch L}
    (hc : ∀ pc, (cont pc).held = pc.held td ++ mtxs hs) (hr : ret.held = mtxs hs) :
    (wakeupTdStmt st td cont ret pc).Obeys (pc.held td ++ mtxs hs) := by
  cases pc with
  | check =>
    rw [wakeupTdStmt]
    split_ifs
    all_goals simp [Stmt.Obeys, hc, WakeupTdPc.held]
  | lockFirst | enterSleepq | enterRunq => exact ⟨hc _, mem_mtxs⟩
  | lockTd => exact ⟨hc _, fun hx => mem_cons_mtxs hx nofun⟩
  | _ => simp [wakeupTdStmt, Stmt.Obeys, hc, hr, WakeupTdPc.held]

lemma tdForkStmt_obeys (entry : L) (pc : ForkPc T) {cont : ForkPc T → Pos T X Ch L}
    (hc : ∀ pc, (cont pc).held = pc.held ++ mtxs hs) (hr : ret.held = mtxs hs) :
    (tdForkStmt entry st cont ret pc).Obeys (pc.held ++ mtxs hs) := by
  cases pc with
  | first =>
    rw [tdForkStmt]
    split
    · simp [Stmt.Obeys, hc, ForkPc.held]
    · exact ⟨hc _, fun hx => mem_cons_mtxs hx nofun⟩
  | enterFreeq => exact ⟨hc _, mem_mtxs⟩
  | enterRunq td => exact ⟨hc _, fun hx => mem_cons_mtxs hx nofun⟩
  | _ => simp [tdForkStmt, Stmt.Obeys, hc, hr, ForkPc.held]

lemma userStmt_obeys (t : T) (hs : List X) (d : Do T X Ch L G) : (userStmt st t hs d).Obeys (mtxs hs) := by
  cases d with
  | mtxUnlock x l => exact mtxs_erase hs x
  | mtxLock x l => exact ⟨rfl, mem_mtxs⟩
  | fail | rest => trivial
  | _ => exact rfl

lemma threadStmt_obeys (t : T) (k : Ctl T X Ch L) : (threadStmt cl st t e k).Obeys (k.held t) := by
  cases k with
  | user hs l => exact userStmt_obeys t hs _
  | sleep pc chan mtx hs l =>
    cases pc with
    | unlockMtx => simp [threadStmt, sleepStmt, Stmt.Obeys, Ctl.held, Pos.held, mtxs_erase]
    | lockTd =>
      rw [threadStmt, sleepStmt]
      split_ifs
      · trivial
      · exact ⟨rfl, fun hx => mem_cons_mtxs hx nofun⟩
    | enter => exact ⟨rfl, mem_mtxs⟩
    | enqueue => exact rfl
  | woken pc mtx l =>
    cases pc with
    | clear => exact rfl
    | unlockTd => simp [threadStmt, Stmt.Obeys, Ctl.held, Pos.held]
    | lockMtx => exact ⟨rfl, fun _ => ⟨mtx, rfl⟩⟩
  | yield pc hs l =>
    cases pc with
    | lockTd => exact ⟨rfl, mem_mtxs⟩
    | setStatus => exact rfl
  | resumed l => simp [threadStmt, Stmt.Obeys, Ctl.held, Pos.held, mtxs]
  | wakeup w hs l =>
    rw [threadStmt]
    exact wakeupStmt_obeys w (fun _ => rfl) rfl
  | wakeupTd pc td hs l =>
    rw [threadStmt]
    exact wakeupTdStmt_obeys td pc (fun _ => rfl) rfl
  | tdFork pc hs l =>
    rw [threadStmt]
    exact tdForkStmt_obeys cl.entry pc (fun _ => rfl) rfl
  | tdDestroy pc hs =>
    cases pc with
    | lockTd => exact ⟨rfl, mem_mtxs⟩
    | reset => exact rfl
  | destroyed => trivial

lemma ownStmt_obeys {locks : Locks C (Lock T X)} (o : Own T X Ch) (hn : locks.nesting c = o.held.length) :
    (ownStmt cl locks st c e o).Obeys o.held := by
  cases o with
  | schedule why td hs =>
    rw [ownStmt]
    split_ifs with hif
    · have hlen : (mtxs (T := T) hs).length = 0 := by
        have := hif.2.1.symm.trans hn
        simp only [Own.held, length_cons] at this
        omega
      simp [Stmt.Obeys, Pos.held, Own.held, eq_nil_of_length_eq_zero hlen]
    · trivial
  | requeue why td =>
    rw [ownStmt]
    split_ifs
    all_goals exact rfl
  | look =>
    rw [ownStmt]
    split
    all_goals exact rfl
  | probe =>
    rw [ownStmt]
    split_ifs
    · trivial
    · exact rfl
  | idle =>
    rw [ownStmt]
    split
    · exact rfl
    · exact ⟨rfl, nofun⟩
  | enterFreeq td hs => exact ⟨rfl, fun hx => mem_cons_mtxs hx nofun⟩
  | wakeup w =>
    have hw : ∀ w : Wakeup T Ch, (Pos.own (.wakeup w) : Pos T X Ch L).held = w.held ++ mtxs [] := fun w =>
      (append_nil _).symm
    rw [ownStmt, show (Own.wakeup w : Own T X Ch).held = w.held ++ mtxs [] from hw w]
    exact wakeupStmt_obeys w hw rfl
  | enter td => exact Context.held_ctl _ td
  | _ => simp [ownStmt, Stmt.Obeys, Pos.held, Own.held]

def Locked (s : State C T X Ch L G) : Prop := s.locks.Exact s.held

lemma Locked.obeys (h : Locked s) (cl : Client T X Ch L G E) (c : C) (e : E) : (stmt cl s c e).Obeys (s.held c) := by
  have hn := h.nesting c
  obtain ⟨p, hp⟩ : ∃ p, s.pos c = p := ⟨_, rfl⟩
  rw [State.held, hp] at hn ⊢
  rw [stmt, hp]
  cases p with
  | thread t k => exact threadStmt_obeys t k
  | own o => exact ownStmt_obeys o hn

inductive Effect (cl : Client T X Ch L G E) (s : State C T X Ch L G) (c : C) (e : E) : State C T X Ch L G → Prop
  | stay : Effect cl s c e s
  | stop {w : Stop} : stmt cl s c e = .stop w → Effect cl s c e (s.halt c w)
  | relock {x : X} {n : Pos T X Ch L} : stmt cl s c e = .acquire (.mtx x) n → .mtx x ∈ s.held c →
      Effect cl s c e (s.halt c .panic)
  | unlocked {x : Lock T X} {n : Pos T X Ch L} : stmt cl s c e = .release x n → x ∉ s.held c →
      Effect cl s c e (s.halt c .panic)
  | acquire {x : Lock T X} {n : Pos T X Ch L} : stmt cl s c e = .acquire x n → s.locks.owner x = none →
      Effect cl s c e ({ s with locks := s.locks.take c x }.goto c n)
  | attempt {x : Lock T X} {n o : Pos T X Ch L} : stmt cl s c e = .attempt x n o → s.locks.owner x = none →
      Effect cl s c e ({ s with locks := s.locks.take c x }.goto c n)
  | pass {x : Lock T X} {n o : Pos T X Ch L} : stmt cl s c e = .attempt x n o → Effect cl s c e (s.goto c o)
  | release {x : Lock T X} {n : Pos T X Ch L} : stmt cl s c e = .release x n → x ∈ s.held c →
      Effect cl s c e ({ s with locks := s.locks.drop c x }.goto c n)
  | write {st : Store C T X Ch L G} {n : Pos T X Ch L} : stmt cl s c e = .write st n →
      Effect cl s c e ({ s with store := st }.goto c n)

lemma Locked.effect (h : Locked s) (cl : Client T X Ch L G E) (c : C) (e : E) : Effect cl s c e (step cl s (c, e)) := by
  have hobeys := h.obeys cl c e
  unfold step
  split_ifs
  swap
  · exact .stay
  cases hs : stmt cl s c e with
  | acquire x n =>
    rw [hs] at hobeys
    simp only [exec]
    rcases h.acquire (c := c) (x := x) Lock.recurse with ⟨-, ha, ho⟩ | ⟨-, ha⟩ | hx
    · rw [ha]
      exact .acquire hs ho
    · rw [ha]
      exact .stay
    · obtain ⟨y, rfl⟩ := hobeys.2 hx
      rw [Locks.acquire, (h.owner c _).mpr hx]
      simpa [Lock.recurse] using .relock hs hx
  | attempt x n o =>
    rw [hs] at hobeys
    simp only [exec]
    rcases h.acquire (c := c) (x := x) Lock.recurse with ⟨-, ha, ho⟩ | ⟨-, ha⟩ | hx
    · rw [ha]
      exact .attempt hs ho
    · rw [ha]
      exact .pass hs
    · exact absurd hx hobeys.2.2
  | release x n =>
    simp only [exec]
    by_cases hx : x ∈ s.held c
    · rw [h.release hx]
      exact .release hs hx
    · rw [h.release_error hx]
      exact .unlocked hs hx
  | write st n => exact .write hs
  | stop w => exact .stop hs
  | rest => exact .stay

def Stmt.Next (P : Pos T X Ch L → Prop) : Stmt C T X Ch L G → Prop
  | .acquire _ n | .release _ n | .write _ n => P n
  | .attempt _ n o => P n ∧ P o
  | .stop _ | .rest => True

lemma wakeupStmt_next (w : Wakeup T Ch) (hc : ∀ w', w'.chan = w.chan → P (cont w')) (hr : P ret) :
    (wakeupStmt st cont ret w).Next P := by
  obtain ⟨pc, chan, readyq⟩ := w
  cases pc with
  | scan rest => cases rest <;> exact hc _ rfl
  | check td rest =>
    rw [wakeupStmt]
    split_ifs
    · trivial
    · exact hc _ rfl
    · exact hc _ rfl
  | exitRunq => exact hr
  | _ => exact hc _ rfl

lemma wakeupTdStmt_next {cont : WakeupTdPc → Pos T X Ch L}
    (hc : ∀ pc, P (cont pc)) (hr : P ret) (pc : WakeupTdPc) : (wakeupTdStmt st td cont ret pc).Next P := by
  cases pc with
  | check =>
    rw [wakeupTdStmt]
    split_ifs
    all_goals exact hc _
  | unlockOnly | exitRunq => exact hr
  | _ => exact hc _

lemma tdForkStmt_next {entry : L} {cont : ForkPc T → Pos T X Ch L}
    (hc : ∀ pc, P (cont pc)) (hr : P ret) (pc : ForkPc T) : (tdForkStmt entry st cont ret pc).Next P := by
  cases pc with
  | first =>
    rw [tdForkStmt]
    split
    all_goals exact hc _
  | noFree => trivial
  | exitRunq => exact hr
  | _ => exact hc _

def Stmt.Writes (Q : Store C T X Ch L G → Prop) : Stmt C T X Ch L G → Prop
  | .write st _ => Q st
  | _ => True

lemma wakeupStmt_writes (w : Wakeup T Ch) (hst : Q st)
    (hw : ∀ td, st.wchan td = some w.chan → Q { st.setStatus td .runnable with sleepq := st.sleepq.erase td })
    (hr : ∀ us, Q { st with runq := st.runq ++ us }) : (wakeupStmt st cont ret w).Writes Q := by
  obtain ⟨pc, chan, readyq⟩ := w
  cases pc with
  | first => exact hst
  | scan rest => cases rest <;> trivial
  | check td rest =>
    rw [wakeupStmt]
    split_ifs with _ hchan
    · trivial
    · exact hw td hchan
    · exact hst
  | concat => exact hr readyq
  | _ => trivial

lemma wakeupTdStmt_writes {cont : WakeupTdPc → Pos T X Ch L}
    (hst : Q st) (hw : Q { st.setStatus td .runnable with sleepq := st.sleepq.erase td })
    (hr : Q { st with runq := st.runq ++ [td] }) (pc : WakeupTdPc) : (wakeupTdStmt st td cont ret pc).Writes Q := by
  cases pc with
  | check =>
    rw [wakeupTdStmt]
    split_ifs
    all_goals exact hst
  | remove => exact hw
  | insert => exact hr
  | _ => trivial

lemma Locked.next (h : Locked s) (hP : (stmt cl s c e).Next P) (hs : ∀ c, P (s.pos c))
    (c' : C) : P ((step cl s (c, e)).pos c') := by
  have hgoto : ∀ {s' : State C T X Ch L G} {n}, s'.pos = s.pos → P n → P ((s'.goto c n).pos c') := by
    intro s' n hs' hn
    by_cases hc : c' = c
    · subst hc
      simpa [State.goto] using hn
    · simpa [State.goto, hc, hs'] using hs c'
  have heffect := h.effect cl c e
  generalize step cl s (c, e) = s' at heffect
  cases heffect with
  | stay | stop _ | relock _ _ | unlocked _ _ => exact hs c'
  | acquire hst _ | release hst _ | write hst =>
    rw [hst] at hP
    exact hgoto rfl hP
  | attempt hst _ =>
    rw [hst] at hP
    exact hgoto rfl hP.1
  | pass hst =>
    rw [hst] at hP
    exact hgoto rfl hP.2

lemma Locked.writes (h : Locked s) (hQ : (stmt cl s c e).Writes Q) (hs : Q s.store) :
    Q (step cl s (c, e)).store := by
  have heffect := h.effect cl c e
  generalize step cl s (c, e) = s' at heffect
  cases heffect with
  | write hst =>
    rw [hst] at hQ
    exact hQ
  | _ => exact hs

def Stmt.Moves (R : Store C T X Ch L G → Pos T X Ch L → Prop) (st : Store C T X Ch L G) : Stmt C T X Ch L G → Prop
  | .acquire _ n | .release _ n => R st n
  | .attempt _ n o => R st n ∧ R st o
  | .write st' n => R st' n
  | .stop _ | .rest => True

lemma Stmt.Next.moves {a : Stmt C T X Ch L G} (hP : a.Next P) (hQ : a.Writes Q) (hst : Q st)
    (hR : ∀ st' n, Q st' → P n → R st' n) : a.Moves R st := by
  cases a with
  | attempt x n o => exact ⟨hR _ _ hst hP.1, hR _ _ hst hP.2⟩
  | acquire x n | release x n => exact hR _ _ hst hP
  | write st' n => exact hR _ _ hQ hP
  | stop | rest => trivial

lemma Locked.moves (h : Locked s) (hR : (stmt cl s c e).Moves R s.store) :
    (step cl s (c, e)).pos = s.pos ∧ (step cl s (c, e)).store = s.store ∨
      ∃ n, (step cl s (c, e)).pos = update s.pos c n ∧ R (step cl s (c, e)).store n := by
  have heffect := h.effect cl c e
  generalize step cl s (c, e) = s' at heffect
  cases heffect with
  | stay | stop _ | relock _ _ | unlocked _ _ => exact .inl ⟨rfl, rfl⟩
  | acquire hst _ | release hst _ | write hst =>
    rw [hst] at hR
    exact .inr ⟨_, rfl, hR⟩
  | attempt hst _ =>
    rw [hst] at hR
    exact .inr ⟨_, rfl, hR.1⟩
  | pass hst =>
    rw [hst] at hR
    exact .inr ⟨_, rfl, hR.2⟩

lemma held_goto : (s.goto c n).held = update s.held c n.held := by
  funext c'
  by_cases hc : c' = c
  · subst hc
    simp [State.held, State.goto]
  · simp [State.held, State.goto, hc]

lemma Locked.step (h : Locked s) (cl : Client T X Ch L G E) (c : C) (e : E) : Locked (step cl s (c, e)) := by
  have hobeys := h.obeys cl c e
  have hsame : ∀ {st : Store C T X Ch L G} {n}, n.held = s.held c → Locked ({ s with store := st }.goto c n) := by
    intro st n hn
    rw [Locked, held_goto, hn]
    exact (update_eq_self c s.held).symm ▸ h
  have hheld := h.effect cl c e
  generalize Proc.step cl s (c, e) = s' at hheld
  cases hheld with
  | stay => exact h
  | stop _ => exact h
  | relock _ _ => exact h
  | unlocked _ _ => exact h
  | acquire hs ho | attempt hs ho =>
    rw [hs] at hobeys
    rw [Locked, held_goto, hobeys.1]
    exact h.take ho
  | pass hs =>
    rw [hs] at hobeys
    exact hsame hobeys.2.1
  | release hs hx =>
    rw [hs] at hobeys
    rw [Locked, held_goto, show _ = _ from hobeys]
    exact h.drop hx
  | write hs =>
    rw [hs] at hobeys
    exact hsame hobeys

lemma Locked.start (cl : Client T X Ch L G E) (glob : G) (created free : List T) :
    Locked (start cl glob created free : State C T X Ch L G) :=
  ⟨fun _ _ => ⟨nofun, nofun⟩, fun _ => nodup_nil, fun _ => rfl, fun _ _ => nofun⟩

end FarmOS.Proc

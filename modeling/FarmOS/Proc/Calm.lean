import FarmOS.Proc.Client
import FarmOS.Proc.Once

/-! When no statement of `sleep`, `wakeup`, `yield` and the scheduler panics. -/

set_option linter.unusedSectionVars false

namespace FarmOS.Proc

open Lib List

variable {C T X Ch L G E : Type} [DecidableEq C] [Fintype C] [DecidableEq T] [DecidableEq X] [DecidableEq Ch]
  {cl : Client T X Ch L G E} {s : State C T X Ch L G} {st : Store C T X Ch L G} {c : C} {e : E} {t td : T}
  {place : T → Place C} {held : L → List X} {hs : List X} {ret : Pos T X Ch L}

def Stmt.Calm (hs : List (Lock T X)) : Stmt C T X Ch L G → Prop
  | .acquire (.mtx x) _ => .mtx x ∉ hs
  | .release x _ => x ∈ hs
  | .stop w => w ≠ .panic
  | _ => True

lemma wakeupStmt_calm {cont : Wakeup T Ch → Pos T X Ch L} {w : Wakeup T Ch}
    (hw : ∀ u, (u, Queue.sleepq) ∈ w.parked → st.status u = .sleeping) :
    (wakeupStmt st cont ret w).Calm (w.held ++ mtxs hs) := by
  obtain ⟨pc, chan, readyq⟩ := w
  cases pc with
  | scan rest => cases rest <;> trivial
  | check td rest =>
    rw [wakeupStmt, if_neg (not_not.mpr (hw td (mem_map_of_mem mem_cons_self)))]
    split_ifs
    all_goals trivial
  | unlockTd | exitSleepq | exitRunq => simp [wakeupStmt, Stmt.Calm, Wakeup.held]
  | enter | first | concat => trivial

lemma wakeupTdStmt_calm {cont : WakeupTdPc → Pos T X Ch L} (pc : WakeupTdPc) :
    (wakeupTdStmt st td cont ret pc).Calm (pc.held td ++ mtxs hs) := by
  cases pc with
  | check =>
    rw [wakeupTdStmt]
    split_ifs
    all_goals trivial
  | unlockOnly | unlockFirst | unlockTd | exitSleepq | exitRunq => simp [wakeupTdStmt, Stmt.Calm, WakeupTdPc.held]
  | _ => trivial

section

variable (hi : Inv s place)
include hi

lemma threadStmt_calm (hd : cl.Disciplined held) {k : Ctl T X Ch L} (hp : s.pos c = .thread t k) (hn : k.Noted held)
    (hfork : k.call ≠ some .tdFork) (halive : k ≠ .destroyed)
    (hfail : ∀ hs l, k = .user hs l → cl.act t l s.store.glob e ≠ .fail) :
    (threadStmt cl s.store t e k).Calm (k.held t) := by
  cases k with
  | user hs l =>
    obtain rfl : hs = held l := hn
    have hf := hfail _ l rfl
    rw [threadStmt]
    cases ha : cl.act t l s.store.glob e with
    | mtxLock x l' => exact fun hx => (hd.mtxLock ha).1 (by simpa [Ctl.held, mtxs] using hx)
    | mtxUnlock x l' => exact mem_map_of_mem (hd.mtxUnlock ha).1
    | fail => exact absurd ha hf
    | _ => trivial
  | sleep pc chan mtx hs l =>
    obtain ⟨rfl, -⟩ : hs = pc.keeps mtx ∧ held l = [mtx] := hn
    cases pc with
    | unlockMtx => simp [threadStmt, sleepStmt, Stmt.Calm, Ctl.held, SleepPc.keeps, mtxs]
    | lockTd =>
      have hr : s.store.status t = .running := hi.status_cargo (c := c) (g := .active) (hp ▸ mem_cons_self)
      rw [threadStmt, sleepStmt, if_neg (not_not.mpr hr)]
      trivial
    | enter | enqueue => trivial
  | woken pc mtx l =>
    cases pc with
    | clear => trivial
    | unlockTd => exact mem_cons_self
    | lockMtx => exact not_mem_nil
  | yield pc hs l => cases pc <;> trivial
  | resumed l => exact mem_cons_self
  | wakeup w hs l =>
    rw [threadStmt]
    exact wakeupStmt_calm fun u hu => (hi.status_queue (hi.parked c u .sleepq (hp ▸ hu))).1
  | wakeupTd pc td hs l =>
    rw [threadStmt]
    exact wakeupTdStmt_calm pc
  | tdFork => exact absurd rfl hfork
  | tdDestroy pc hs => cases pc <;> trivial
  | destroyed => exact absurd rfl halive

lemma Inv.status_schedule {why : Leave} (hp : s.pos c = .own (.schedule why td hs)) : s.store.status td ≠ .running := by
  intro hr
  cases why with
  | yield => exact absurd (hr.symm.trans (hi.status_cargo (c := c) (g := .ready) (hp ▸ mem_cons_self)).1) nofun
  | sleep =>
    exact absurd (hr.symm.trans (hi.status_queue (hi.parked c td .sleepq (hp ▸ mem_cons_self))).1) nofun
  | destroy => exact absurd (hr.symm.trans (hi.status_queue (hi.parked c td .freeq (hp ▸ mem_cons_self)))) nofun

lemma ownStmt_calm {o : Own T X Ch} (hp : s.pos c = .own o) (hn : o.Noted) :
    (ownStmt cl s.locks s.store c e o).Calm o.held := by
  cases o with
  | schedule why td hs =>
    obtain rfl : hs = [] := hn
    have hheld : s.held c = [.td td] := by rw [State.held, hp]; rfl
    have hmem : .td td ∈ s.held c := hheld ▸ mem_cons_self
    rw [ownStmt, if_pos ⟨(hi.locked.owner c _).mpr hmem, by rw [hi.locked.nesting, hheld]; rfl,
      hi.locked.depth c _ hmem, hi.status_schedule hp⟩]
    trivial
  | requeue =>
    rw [ownStmt]
    split_ifs
    all_goals trivial
  | probe =>
    rw [ownStmt]
    split_ifs
    · rintro ⟨⟩
    · trivial
  | look | idle =>
    rw [ownStmt]
    split
    all_goals trivial
  | wakeup w =>
    rw [ownStmt, show (Own.wakeup w : Own T X Ch).held = w.held ++ mtxs [] from (append_nil _).symm]
    exact wakeupStmt_calm fun u hu => (hi.status_queue (hi.parked c u .sleepq (hp ▸ hu))).1
  | exitSleepq | exitFreeq | unlockOld | exitSleepqIdle | exitRunqIdle | exitRunq =>
    simp [ownStmt, Stmt.Calm, Own.held]
  | _ => trivial

end

lemma Locked.calm (h : Locked s) (hc : (stmt cl s c e).Calm (s.held c)) (hs : ∀ c, s.stop c ≠ some .panic) (c' : C) :
    (Proc.step cl s (c, e)).stop c' ≠ some .panic := by
  have heffect := h.effect cl c e
  generalize Proc.step cl s (c, e) = s' at heffect
  cases heffect with
  | stop hst =>
    rw [hst] at hc
    rw [State.halt]
    by_cases he : c' = c
    · subst he
      simpa using (show _ ≠ Stop.panic from hc)
    · simpa [he] using hs c'
  | relock hst hm =>
    rw [hst] at hc
    exact absurd hm hc
  | unlocked hst hm =>
    rw [hst] at hc
    exact absurd hc hm
  | _ => exact hs c'

end FarmOS.Proc

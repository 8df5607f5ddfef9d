import FarmOS.Proc.Held

/-! What is known at every statement about a client that only makes certain calls, and about one whose code
knows at each of its locations which spin locks it holds. -/

set_option linter.unusedSectionVars false

namespace FarmOS.Proc

open Lib

variable {C T X Ch L G E : Type} [DecidableEq C] [Fintype C] [DecidableEq T] [DecidableEq X] [DecidableEq Ch]
  {cl : Client T X Ch L G E} {s : State C T X Ch L G} {st : Store C T X Ch L G} {c : C} {e : E} {t : T}
  {locks : Locks C (Lock T X)}

lemma run_snoc (cl : Client T X Ch L G E) (s : State C T X Ch L G) (evs : List (C × E)) (ev : C × E) :
    run cl s (evs ++ [ev]) = step cl (run cl s evs) ev := List.foldl_append ..

lemma run_invariant {P : State C T X Ch L G → Prop} (hs : P s) (hstep : ∀ s c e, P s → P (step cl s (c, e)))
    (evs : List (C × E)) : P (run cl s evs) := by
  induction evs using List.reverseRecOn with
  | nil => exact hs
  | append_singleton evs ev ih =>
    rw [run_snoc]
    exact hstep _ ev.1 ev.2 ih

theorem spin_locks_exact (cl : Client T X Ch L G E) (glob : G) (created free : List T) (evs : List (C × E)) :
    Locked (run cl (start cl glob created free) evs) :=
  run_invariant (.start cl glob created free) (fun _ c e h => h.step cl c e) evs

inductive Call
  | sleep | yield | wakeup | wakeupTd | tdFork | tdDestroy

def Do.call : Do T X Ch L G → Option Call
  | .sleep _ _ _ => some .sleep
  | .yield _ => some .yield
  | .wakeup _ _ => some .wakeup
  | .wakeupTd _ _ => some .wakeupTd
  | .tdFork _ => some .tdFork
  | .tdDestroy => some .tdDestroy
  | _ => none

def Ctl.call : Ctl T X Ch L → Option Call
  | .sleep _ _ _ _ _ => some .sleep
  | .yield _ _ _ => some .yield
  | .wakeup _ _ _ => some .wakeup
  | .wakeupTd _ _ _ _ => some .wakeupTd
  | .tdFork _ _ _ => some .tdFork
  | .tdDestroy _ _ => some .tdDestroy
  | _ => none

def Pos.call : Pos T X Ch L → Option Call
  | .thread _ k => k.call
  | .own _ => none

def Client.Only (cl : Client T X Ch L G E) (S : Call → Prop) : Prop :=
  ∀ t l g e k, (cl.act t l g e).call = some k → S k

variable {S : Call → Prop}

lemma threadStmt_call (hcl : cl.Only S) (k : Ctl T X Ch L) (hk : ∀ a, k.call = some a → S a) :
    (threadStmt cl st t e k).Next fun p => ∀ a, p.call = some a → S a := by
  cases k with
  | user hs l =>
    rw [threadStmt]
    have hact := hcl t l st.glob e
    cases hd : cl.act t l st.glob e with
    | fail | rest => trivial
    | mtxLock | mtxUnlock | compute => rintro _ ⟨⟩
    | _ =>
      rw [hd] at hact
      exact hact
  | sleep pc chan mtx hs l =>
    cases pc with
    | lockTd =>
      rw [threadStmt, sleepStmt]
      split_ifs
      · trivial
      · exact hk
    | enqueue => rintro _ ⟨⟩
    | _ => exact hk
  | woken pc mtx l => cases pc <;> rintro _ ⟨⟩
  | yield pc hs l =>
    cases pc with
    | lockTd => exact hk
    | setStatus => rintro _ ⟨⟩
  | resumed l => rintro _ ⟨⟩
  | wakeup w hs l =>
    rw [threadStmt]
    exact wakeupStmt_next w (fun _ _ => hk) (by rintro _ ⟨⟩)
  | wakeupTd pc td hs l =>
    rw [threadStmt]
    exact wakeupTdStmt_next (fun _ => hk) (by rintro _ ⟨⟩) pc
  | tdFork pc hs l =>
    rw [threadStmt]
    exact tdForkStmt_next (fun _ => hk) (by rintro _ ⟨⟩) pc
  | tdDestroy pc hs =>
    cases pc with
    | lockTd => exact hk
    | reset => rintro _ ⟨⟩
  | destroyed => trivial

lemma ownStmt_call (o : Own T X Ch) : (ownStmt cl locks st c e o).Next fun p => ∀ a, p.call = some a → S a := by
  cases o with
  | schedule | requeue | probe =>
    rw [ownStmt]
    split_ifs
    all_goals first | trivial | rintro _ ⟨⟩
  | look | idle =>
    rw [ownStmt]
    split
    all_goals rintro _ ⟨⟩
  | wakeup w =>
    rw [ownStmt]
    exact wakeupStmt_next w (fun _ _ => by rintro _ ⟨⟩) (by rintro _ ⟨⟩)
  | trySleepq => exact ⟨by rintro _ ⟨⟩, by rintro _ ⟨⟩⟩
  | enter td =>
    rw [ownStmt]
    cases st.ctx td <;> rintro _ ⟨⟩
  | _ => rintro _ ⟨⟩

lemma stmt_call (hcl : cl.Only S) (hc : ∀ a, (s.pos c).call = some a → S a) :
    (stmt cl s c e).Next fun p => ∀ a, p.call = some a → S a := by
  rw [stmt]
  cases hp : s.pos c with
  | thread t k => exact threadStmt_call hcl k fun a ha => hc a (hp ▸ ha)
  | own o => exact ownStmt_call o

lemma Client.Only.run (hcl : cl.Only S) (hl : Locked s) (hs : ∀ c, (s.pos c).call = none) (evs : List (C × E)) :
    Locked (run cl s evs) ∧ ∀ c a, ((Proc.run cl s evs).pos c).call = some a → S a := by
  refine run_invariant (P := fun s => Locked s ∧ ∀ c a, (s.pos c).call = some a → S a) ⟨hl, fun c a ha => ?_⟩
    (fun s c e ⟨hl, h⟩ => ⟨hl.step cl c e, hl.next (stmt_call hcl (h c)) h⟩) evs
  rw [hs c] at ha
  cases ha

-- `held l` are the spin locks the client's code holds at `l`.
structure Client.Disciplined (cl : Client T X Ch L G E) (held : L → List X) : Prop where
  entry : held cl.entry = []
  mtxLock {t : T} {l l' : L} {g : G} {e : E} {x : X} : cl.act t l g e = .mtxLock x l' → x ∉ held l ∧
    held l' = x :: held l
  mtxUnlock {t : T} {l l' : L} {g : G} {e : E} {x : X} :
    cl.act t l g e = .mtxUnlock x l' → x ∈ held l ∧ held l' = (held l).erase x
  sleep {t : T} {l l' : L} {g : G} {e : E} {chan : Ch} {x : X} :
    cl.act t l g e = .sleep chan x l' → held l = [x] ∧ held l' = [x]
  yield {t : T} {l l' : L} {g : G} {e : E} : cl.act t l g e = .yield l' → held l = [] ∧ held l' = []
  wakeup {t : T} {l l' : L} {g : G} {e : E} {chan : Ch} : cl.act t l g e = .wakeup chan l' → held l' = held l
  wakeupTd {t td : T} {l l' : L} {g : G} {e : E} : cl.act t l g e = .wakeupTd td l' → held l' = held l
  tdFork {t : T} {l l' : L} {g : G} {e : E} : cl.act t l g e = .tdFork l' → held l' = held l
  tdDestroy {t : T} {l : L} {g : G} {e : E} : cl.act t l g e = .tdDestroy → held l = []
  compute {t : T} {l l' : L} {g g' : G} {e : E} : cl.act t l g e = .compute l' g' → held l' = held l

def SleepPc.keeps (mtx : X) : SleepPc → List X
  | .enter | .unlockMtx => [mtx]
  | .lockTd | .enqueue => []

def Ctl.Noted (held : L → List X) : Ctl T X Ch L → Prop
  | .user hs l | .wakeup _ hs l | .wakeupTd _ _ hs l | .tdFork _ hs l => hs = held l
  | .sleep pc _ mtx hs l => hs = pc.keeps mtx ∧ held l = [mtx]
  | .woken _ mtx l => held l = [mtx]
  | .yield _ hs l => hs = [] ∧ held l = []
  | .resumed l => held l = []
  | .tdDestroy _ hs => hs = []
  | .destroyed => True

def Own.Noted : Own T X Ch → Prop
  | .exitSleepq _ hs | .enterFreeq _ hs | .insertFreeq _ hs | .exitFreeq _ hs | .schedule _ _ hs => hs = []
  | _ => True

def Pos.Noted (held : L → List X) : Pos T X Ch L → Prop
  | .thread _ k => k.Noted held
  | .own o => o.Noted

def Context.Noted (held : L → List X) : Context X L → Prop
  | .woken mtx l => held l = [mtx]
  | .resumed l => held l = []
  | .destroyed => True

structure Noted (held : L → List X) (s : State C T X Ch L G) : Prop where
  locked : Locked s
  pos (c : C) : (s.pos c).Noted held
  ctx (t : T) : (s.store.ctx t).Noted held

section

variable {held : L → List X} (hd : cl.Disciplined held)
include hd

lemma userStmt_noted (l : L) (g : G) (d : Do T X Ch L G) (ha : cl.act t l g e = d) :
    (userStmt st t (held l) d).Next (Pos.Noted held) := by
  cases d with
  | mtxLock x l' => exact (hd.mtxLock ha).2.symm
  | mtxUnlock x l' => exact (hd.mtxUnlock ha).2.symm
  | sleep chan mtx l' => exact hd.sleep ha
  | yield l' => exact hd.yield ha
  | wakeup chan l' => exact (hd.wakeup ha).symm
  | wakeupTd td l' => exact (hd.wakeupTd ha).symm
  | tdFork l' => exact (hd.tdFork ha).symm
  | tdDestroy => exact hd.tdDestroy ha
  | compute l' g' => exact (hd.compute ha).symm
  | fail | rest => trivial

lemma threadStmt_noted (k : Ctl T X Ch L) (hk : k.Noted held) :
    (threadStmt cl st t e k).Next (Pos.Noted held) := by
  cases k with
  | user hs l =>
    obtain rfl : hs = held l := hk
    exact userStmt_noted hd l _ _ rfl
  | sleep pc chan mtx hs l =>
    obtain ⟨rfl, hl⟩ : hs = pc.keeps mtx ∧ held l = [mtx] := hk
    cases pc with
    | lockTd =>
      rw [threadStmt, sleepStmt]
      split_ifs
      · trivial
      · exact ⟨rfl, hl⟩
    | enter => exact ⟨rfl, hl⟩
    | unlockMtx => exact ⟨List.erase_cons_head .., hl⟩
    | enqueue => exact rfl
  | woken pc mtx l =>
    cases pc with
    | lockMtx => exact Eq.symm hk
    | _ => exact hk
  | yield pc hs l =>
    cases pc with
    | lockTd => exact hk
    | setStatus => exact hk.1
  | resumed l => exact Eq.symm hk
  | wakeup w hs l =>
    rw [threadStmt]
    exact wakeupStmt_next w (fun _ _ => hk) hk
  | wakeupTd pc td hs l =>
    rw [threadStmt]
    exact wakeupTdStmt_next (fun _ => hk) hk pc
  | tdFork pc hs l =>
    rw [threadStmt]
    exact tdForkStmt_next (fun _ => hk) hk pc
  | tdDestroy pc hs => cases pc <;> exact hk
  | destroyed => trivial

section

variable (hc : ∀ t, (st.ctx t).Noted held)
include hc

lemma ownStmt_noted (o : Own T X Ch) (ho : o.Noted) : (ownStmt cl locks st c e o).Next (Pos.Noted held) := by
  cases o with
  | schedule | requeue | probe =>
    rw [ownStmt]
    split_ifs
    all_goals trivial
  | look | idle =>
    rw [ownStmt]
    split
    all_goals trivial
  | wakeup w =>
    rw [ownStmt]
    exact wakeupStmt_next w (fun _ _ => ho) trivial
  | trySleepq => exact ⟨trivial, trivial⟩
  | enter td =>
    have hk := hc td
    rw [ownStmt]
    cases hctx : st.ctx td <;> rw [hctx] at hk <;> exact hk
  | exitSleepq | enterFreeq | insertFreeq | exitFreeq => exact ho
  | _ => trivial

lemma ctx_save {k : Context X L} {td : T} (hk : k.Noted held) (t : T) : ((st.save td k).ctx t).Noted held := by
  by_cases ht : t = td
  · subst ht
    simpa [Store.save] using hk
  · simpa [Store.save, ht] using hc t

lemma threadStmt_ctx (k : Ctl T X Ch L) (hk : k.Noted held) :
    (threadStmt cl st t e k).Writes fun st => ∀ t, (st.ctx t).Noted held := by
  cases k with
  | user hs l =>
    rw [threadStmt]
    cases cl.act t l st.glob e with
    | mtxLock | mtxUnlock | fail | rest => trivial
    | _ => exact hc
  | sleep pc chan mtx hs l =>
    cases pc with
    | lockTd =>
      rw [threadStmt, sleepStmt]
      split_ifs
      all_goals trivial
    | enqueue => exact ctx_save hd hc hk.2
    | _ => trivial
  | woken pc mtx l =>
    cases pc with
    | clear => exact hc
    | _ => trivial
  | yield pc hs l =>
    cases pc with
    | lockTd => trivial
    | setStatus => exact ctx_save hd hc hk.2
  | wakeup w hs l =>
    rw [threadStmt]
    exact wakeupStmt_writes w hc (fun _ _ => hc) fun _ => hc
  | wakeupTd pc td hs l =>
    rw [threadStmt]
    exact wakeupTdStmt_writes hc hc hc pc
  | tdFork pc hs l =>
    cases pc with
    | first =>
      rw [threadStmt, tdForkStmt]
      split
      all_goals trivial
    | init td => exact ctx_save hd hc hd.entry
    | remove | setStatus | insert => exact hc
    | _ => trivial
  | tdDestroy pc hs =>
    cases pc with
    | lockTd => trivial
    | reset => exact ctx_save hd hc trivial
  | resumed l => trivial
  | destroyed => trivial

lemma ownStmt_ctx (o : Own T X Ch) : (ownStmt cl locks st c e o).Writes fun st => ∀ t, (st.ctx t).Noted held := by
  cases o with
  | schedule | requeue | probe =>
    rw [ownStmt]
    split_ifs
    all_goals trivial
  | look | idle =>
    rw [ownStmt]
    split
    all_goals trivial
  | wakeup w =>
    rw [ownStmt]
    exact wakeupStmt_writes w hc (fun _ _ => hc) fun _ => hc
  | insertFreeq | schedSwitch | removeNext | enter => exact hc
  | _ => trivial

end

lemma Noted.step (h : Noted held s) (c : C) (e : E) : Noted held (step cl s (c, e)) := by
  have hpos := h.pos c
  have hstmt : (stmt cl s c e).Next (Pos.Noted held) ∧ (stmt cl s c e).Writes fun st => ∀ t, (st.ctx t).Noted held := by
    rw [stmt]
    cases hp : s.pos c with
    | thread t k =>
      rw [hp] at hpos
      exact ⟨threadStmt_noted hd k hpos, threadStmt_ctx hd h.ctx k hpos⟩
    | own o =>
      rw [hp] at hpos
      exact ⟨ownStmt_noted hd h.ctx o hpos, ownStmt_ctx hd h.ctx o⟩
  exact ⟨h.locked.step cl c e, h.locked.next hstmt.1 h.pos, h.locked.writes hstmt.2 h.ctx⟩

lemma Noted.start (glob : G) (created free : List T) :
    Noted held (start cl glob created free : State C T X Ch L G) :=
  ⟨.start cl glob created free, fun _ => trivial, fun _ => hd.entry⟩

end

end FarmOS.Proc

import FarmOS.Proc.Place

/-! Every statement of every CPU keeps each thread in one place, as long as `wakeup_td` finds the thread it
wakes still asleep when it takes it off the sleep queue. -/

set_option linter.unusedSectionVars false

namespace FarmOS.Proc

open FarmOS.Lib List
open Function (update_self update_of_ne update_eq_self)

variable {C T X Ch L G E : Type} [DecidableEq C] [Fintype C] [DecidableEq T] [DecidableEq X] [DecidableEq Ch]
  {cl : Client T X Ch L G E} {s s' : State C T X Ch L G} {st : Store C T X Ch L G} {c : C} {e : E}
  {n p : Pos T X Ch L} {place place' : T → Place C} {t u : T} {q : Queue} {ret : Pos T X Ch L} {on : Option T}
  {locks : Locks C (Lock T X)} {hs : List X} {l : L} {td : T}

structure Follows (st : Store C T X Ch L G) (p n : Pos T X Ch L) : Prop where
  cargo : n.cargo = p.cargo
  onCpu : n.onCpu = p.onCpu
  parked : n.parked = p.parked ∨ n.parked = [] ∨ ∃ t q, n.parked = [(t, q)] ∧ t ∈ st.queue q

def Stmt.Quiet (st : Store C T X Ch L G) (p : Pos T X Ch L) : Stmt C T X Ch L G → Prop
  | .acquire _ n | .release _ n => Follows st p n
  | .attempt _ n o => Follows st p n ∧ Follows st p o
  | .write _ _ | .stop _ | .rest => True

lemma wakeupStmt_quiet (base : List (T × Stage)) {cont : Wakeup T Ch → Pos T X Ch L}
    (w : Wakeup T Ch) (hc : ∀ w, (cont w).cargo = base ++ w.cargo) (hr : ret.cargo = base)
    (hon : ∀ w, (cont w).onCpu = on) (hron : ret.onCpu = on) (hp : ∀ w, (cont w).parked = w.parked)
    (hrp : ret.parked = []) : (wakeupStmt st cont ret w).Quiet st (cont w) := by
  have hcont : ∀ w w' : Wakeup T Ch, w'.cargo = w.cargo → w'.parked = w.parked → Follows st (cont w) (cont w') :=
    fun w w' h1 h2 => ⟨by rw [hc, hc, h1], by rw [hon, hon], .inl (by rw [hp, hp, h2])⟩
  obtain ⟨pc, chan, readyq⟩ := w
  cases pc with
  | scan rest =>
    cases rest with
    | nil => exact hcont _ _ rfl rfl
    | cons td rest => exact hcont _ _ rfl rfl
  | check td rest =>
    rw [wakeupStmt]
    split_ifs
    all_goals trivial
  | first | concat => trivial
  | exitRunq => exact ⟨by rw [hc, hr]; exact (append_nil _).symm, by rw [hon, hron], .inl (by rw [hp, hrp]; rfl)⟩
  | enter | unlockTd | exitSleepq => exact hcont _ _ rfl rfl

lemma Follows.stay {p n : Pos T X Ch L} (h1 : n.cargo = p.cargo) (h2 : n.onCpu = p.onCpu) (h3 : n.parked = p.parked) :
    Follows st p n := ⟨h1, h2, .inl h3⟩

lemma threadStmt_quiet (t : T) (k : Ctl T X Ch L) : (threadStmt cl st t e k).Quiet st (.thread t k) := by
  cases k with
  | user hs l =>
    rw [threadStmt]
    cases cl.act t l st.glob e with
    | mtxLock | mtxUnlock => exact Follows.stay rfl rfl rfl
    | _ => trivial
  | sleep pc chan mtx hs l =>
    cases pc with
    | lockTd =>
      rw [threadStmt, sleepStmt]
      split_ifs
      · trivial
      · exact Follows.stay rfl rfl rfl
    | enqueue => trivial
    | _ => exact Follows.stay rfl rfl rfl
  | woken pc mtx l =>
    cases pc with
    | clear => trivial
    | _ => exact Follows.stay rfl rfl rfl
  | yield pc hs l =>
    cases pc with
    | lockTd => exact Follows.stay rfl rfl rfl
    | setStatus => trivial
  | resumed l => exact Follows.stay rfl rfl rfl
  | wakeup w hs l =>
    rw [threadStmt]
    exact wakeupStmt_quiet [(t, .active)] w (fun _ => rfl) rfl (fun _ => rfl) rfl (fun _ => rfl) rfl
  | wakeupTd pc td hs l =>
    cases pc with
    | check =>
      rw [threadStmt, wakeupTdStmt]
      split_ifs
      all_goals trivial
    | remove | insert => trivial
    | _ => exact Follows.stay rfl rfl rfl
  | tdFork pc hs l =>
    cases pc with
    | first =>
      rw [threadStmt, tdForkStmt]
      split
      · exact Follows.stay rfl rfl rfl
      · next td _ hq => exact ⟨rfl, rfl, .inr (.inr ⟨td, .freeq, rfl, show td ∈ st.freeq from hq ▸ mem_cons_self⟩)⟩
    | exitFreeq td => exact Follows.stay rfl rfl rfl
    | enterFreeq | enterRunq | unlockTd | exitRunq => exact Follows.stay rfl rfl rfl
    | _ => trivial
  | tdDestroy pc hs =>
    cases pc with
    | lockTd => exact Follows.stay rfl rfl rfl
    | reset => trivial
  | destroyed => trivial

lemma ownStmt_quiet (o : Own T X Ch) : (ownStmt cl locks st c e o).Quiet st (.own o : Pos T X Ch L) := by
  cases o with
  | schedule | requeue | probe =>
    rw [ownStmt]
    split_ifs
    all_goals trivial
  | look =>
    rw [ownStmt]
    split
    all_goals trivial
  | idle =>
    rw [ownStmt]
    split
    · trivial
    · exact Follows.stay rfl rfl rfl
  | wakeup w =>
    rw [ownStmt]
    exact wakeupStmt_quiet [] w (fun _ => rfl) rfl (fun _ => rfl) rfl (fun _ => rfl) rfl
  | trySleepq => exact ⟨Follows.stay rfl rfl rfl, Follows.stay rfl rfl rfl⟩
  | insertFreeq | schedSwitch | removeNext | enter => trivial
  | _ => exact Follows.stay rfl rfl rfl

lemma stmt_quiet (cl : Client T X Ch L G E) (s : State C T X Ch L G) (c : C) (e : E) :
    (stmt cl s c e).Quiet s.store (s.pos c) := by
  rw [stmt]
  cases s.pos c with
  | thread t k => exact threadStmt_quiet t k
  | own o => exact ownStmt_quiet o

namespace Inv

section

variable (h : Inv s place)
include h

lemma running_self (hon : n.onCpu = (s.pos c).onCpu) : s.store.running = Function.update s.store.running c n.onCpu := by
  rw [hon, ← h.running, update_eq_self]

lemma follow (hlocked : Locked ({ s with store := st, locks := locks }.goto c n))
    (hqueue : st.queue = s.store.queue) (hstatus : st.status = s.store.status) (hctx : st.ctx = s.store.ctx)
    (hrunning : st.running = s.store.running) (hf : Follows s.store (s.pos c) n) :
    Inv ({ s with store := st, locks := locks }.goto c n) place := by
  refine h.quiet hlocked ?_ hqueue hstatus hctx hf.cargo ?_
  · rw [hrunning]
    exact h.running_self hf.onCpu
  · rcases hf.parked with hp | hp | ⟨t, q, hp, hq⟩
    · rw [hp]
      exact ⟨h.parked_nodup c, h.parked c⟩
    · rw [hp]
      exact ⟨nodup_nil, nofun⟩
    · rw [hp]
      refine ⟨nodup_singleton _, fun t' q' hm => ?_⟩
      obtain ⟨rfl, rfl⟩ := Prod.mk.inj (mem_singleton.mp hm)
      exact hq

lemma status_cargo {g : Stage} (hc : (u, g) ∈ (s.pos c).cargo) : g.Ok s.store u := by
  have hok := h.ok u
  rw [(h.cargo c u g).mp hc] at hok
  exact hok

lemma status_queue (hq : u ∈ s.store.queue q) : q.Ok s.store u := by
  have hok := h.ok u
  rw [(h.mem q u).mp hq] at hok
  exact hok

lemma wake (hlocked : Locked ({ s with
      store := { s.store.setStatus u .runnable with sleepq := s.store.sleepq.erase u } }.goto c n))
    (hu : u ∈ s.store.sleepq) (hheld : .td u ∈ s.held c ∧ .sleepq ∈ s.held c)
    (hcargo : n.cargo.Perm ((u, .ready) :: (s.pos c).cargo)) (hon : n.onCpu = (s.pos c).onCpu)
    (hparked : n.parked.Nodup ∧ ∀ t q, (t, q) ∈ n.parked → q = .sleepq ∧ t ≠ u ∧ t ∈ s.store.sleepq) :
    Inv ({ s with store := { s.store.setStatus u .runnable with sleepq := s.store.sleepq.erase u } }.goto c n)
      (Function.update place u (.cpu c .ready)) := by
  refine h.get hlocked (h.running_self hon) .sleepq (fun q' hq => ?_) ⟨hparked.1, fun t q hm => ?_⟩ .ready hu hheld rfl
    hcargo ⟨update_self .., (h.status_queue (q := .sleepq) hu).2⟩ (fun t ht => ⟨update_of_ne ht .., rfl⟩)
  · cases q' with
    | sleepq => exact absurd rfl hq
    | _ => rfl
  · obtain ⟨rfl, hne, hm⟩ := hparked.2 t q hm
    exact (h.nodup .sleepq).mem_erase_iff.mpr ⟨hne, hm⟩

lemma enqueue (us : List T) (hlocked : Locked ({ s with store := { s.store with runq :=
    s.store.runq ++ us } }.goto c n))
    (hcargo : (s.pos c).cargo = n.cargo ++ us.map fun u => (u, .ready)) (hon : n.onCpu = (s.pos c).onCpu)
    (hparked : n.parked = []) :
    Inv ({ s with store := { s.store with runq := s.store.runq ++ us } }.goto c n)
      (fun t => if t ∈ us then .queue .runq else place t) := by
  have hnodup := h.cargo_nodup c
  rw [hcargo, nodup_append'] at hnodup
  have hmem : ∀ u ∈ us, (u, .ready) ∈ (s.pos c).cargo := fun u hu =>
    hcargo ▸ mem_append_right _ (mem_map_of_mem hu)
  refine h.put hlocked (h.running_self hon) .runq (fun q' hq => ?_) ?_ us (List.Nodup.of_map _ hnodup.2.1)
    (fun u hu => ⟨_, hmem u hu⟩) perm_append_comm hnodup.1 (fun t g =>
      ⟨fun hm => ⟨hcargo ▸ mem_append_left _ hm, fun ht => ?_⟩, fun hm => ?_⟩)
    (fun u hu => h.status_cargo (hmem u hu)) (fun _ _ => ⟨rfl, rfl⟩)
  · cases q' with
    | runq => exact absurd rfl hq
    | _ => rfl
  · rw [hparked]
    exact ⟨nodup_nil, nofun⟩
  · have h1 := (h.cargo c t .ready).mp (hmem t ht)
    have h2 := (h.cargo c t g).mp (hcargo ▸ mem_append_left _ hm)
    obtain rfl := (Place.cpu.inj (h1.symm.trans h2)).2
    exact hnodup.2.2 hm (mem_map_of_mem ht)
  · rw [hcargo, mem_append] at hm
    refine hm.1.resolve_right fun hr => hm.2 ?_
    obtain ⟨u, hu, he⟩ := mem_map.mp hr
    rwa [(Prod.mk.inj he).1] at hu

variable (hlocked : Locked ({ s with store := st }.goto c n))
include hlocked

lemma wakeup_write (base : List (T × Stage)) (cont : Wakeup T Ch → Pos T X Ch L)
    {w : Wakeup T Ch} (hc : ∀ w, (cont w).cargo = base ++ w.cargo) (hon : ∀ w, (cont w).onCpu = on)
    (hpk : ∀ w, (cont w).parked = w.parked) (hh : ∀ x, x ∈ w.held → x ∈ s.held c) (hp : s.pos c = cont w)
    (hs : wakeupStmt s.store cont ret w = .write st n) :
    ∃ place', Inv ({ s with store := st }.goto c n) place' := by
  have hpn := h.parked_nodup c
  have hpm := h.parked c
  rw [hp, hpk] at hpn hpm
  have hstill : ∀ {w'}, w'.cargo = w.cargo → w'.parked.Nodup ∧ (∀ t q, (t, q) ∈ w'.parked → t ∈ s.store.queue q) →
      Locked ({ s with store := s.store }.goto c (cont w')) → Inv ({ s with store := s.store }.goto c
        (cont w')) place := by
    intro w' hw hpk' hl
    exact h.quiet hl (h.running_self (by rw [hp, hon, hon])) rfl rfl rfl (by rw [hp, hc, hc, hw])
      (by rw [hpk]; exact hpk')
  obtain ⟨pc, chan, readyq⟩ := w
  cases pc with
  | first =>
    cases hs
    refine ⟨place, hstill rfl ⟨(h.nodup .sleepq).map fun _ _ he => (Prod.mk.inj he).1, fun t q hm => ?_⟩ hlocked⟩
    obtain ⟨u, hu, he⟩ := mem_map.mp hm
    obtain ⟨rfl, rfl⟩ := Prod.mk.inj he
    exact hu
  | check td rest =>
    have hnot : (td, Queue.sleepq) ∉ rest.map (·, .sleepq) := (nodup_cons.mp hpn).1
    rw [wakeupStmt] at hs
    split_ifs at hs
    · cases hs
      refine ⟨_, h.wake hlocked (hpm td .sleepq mem_cons_self) ⟨hh _ (by simp [Wakeup.held]),
        hh _ (by simp [Wakeup.held])⟩
        ?_ (by rw [hp, hon, hon]) ⟨by rw [hpk]; exact (nodup_cons.mp hpn).2, fun t q hm => ?_⟩⟩
      · rw [hp, hc, hc]
        simp only [Wakeup.cargo, map_append, ← append_assoc]
        exact perm_append_singleton ..
      · rw [hpk] at hm
        obtain ⟨u, hu, he⟩ := mem_map.mp hm
        obtain ⟨rfl, rfl⟩ := Prod.mk.inj he
        refine ⟨rfl, fun he => hnot (he ▸ mem_map_of_mem hu), hpm u .sleepq (mem_cons_of_mem _ hm)⟩
    · cases hs
      exact ⟨place, hstill rfl ⟨(nodup_cons.mp hpn).2, fun t q hm => hpm t q (mem_cons_of_mem _ hm)⟩ hlocked⟩
  | concat =>
    cases hs
    exact ⟨_, h.enqueue readyq hlocked (by rw [hp, hc, hc]; simp [Wakeup.cargo]) (by rw [hp, hon, hon])
      (by rw [hpk]; rfl)⟩
  | scan rest => cases rest <;> cases hs
  | _ => cases hs

lemma sleep_write {pc : SleepPc} {chan : Ch} {mtx : X}
    (hp : s.pos c = .thread t (.sleep pc chan mtx hs l)) (hw : sleepStmt s.store t chan mtx hs l pc =
      .write st n) : ∃ place', Inv ({ s with store := st }.goto c n) place' := by
  cases pc with
  | lockTd =>
    rw [sleepStmt] at hw
    split_ifs at hw
  | enter | unlockMtx => cases hw
  | enqueue =>
    cases hw
    refine ⟨_, h.put hlocked (h.running_self (hp ▸ rfl)) .sleepq (fun q' hq => ?_) ?_ [t] (nodup_singleton t)
      (fun u hu => ⟨.active, ?_⟩) (.refl _) nodup_nil (fun u g => ?_) (fun u hu => ?_) (fun u hu => ?_)⟩
    · cases q' with
      | sleepq => exact absurd rfl hq
      | _ => rfl
    · refine ⟨nodup_singleton _, fun u q hm => ?_⟩
      obtain ⟨rfl, rfl⟩ := Prod.mk.inj (mem_singleton.mp hm)
      exact mem_cons_self
    · rw [hp, mem_singleton.mp hu]
      exact mem_cons_self
    · rw [hp]
      exact iff_of_false not_mem_nil fun hm => hm.2
        (by simpa [Pos.cargo, Ctl.extra] using congrArg Prod.fst (mem_singleton.mp hm.1))
    · obtain rfl := mem_singleton.mp hu
      exact ⟨update_self .., fun he => by cases (update_self ..).symm.trans he⟩
    · have hne : u ≠ t := fun he => hu (he ▸ mem_singleton_self u)
      exact ⟨update_of_ne hne .., update_of_ne hne ..⟩

lemma wakeupTd_write {pc : WakeupTdPc} (hp : s.pos c = .thread t (.wakeupTd pc td hs l))
    (hprompt : pc = .remove → s.store.status td = .sleeping)
    (hw : wakeupTdStmt s.store td (fun pc => .thread t (.wakeupTd pc td hs l))
      (.thread t (.user hs l)) pc = .write st n) : ∃ place', Inv ({ s with store := st }.goto c n) place' := by
  cases pc with
  | check =>
    rw [wakeupTdStmt] at hw
    split_ifs at hw
    all_goals
      cases hw
      exact ⟨place, h.follow hlocked rfl rfl rfl rfl (hp ▸ ⟨rfl, rfl, .inl rfl⟩)⟩
  | remove =>
    cases hw
    refine ⟨_, h.wake hlocked (h.asleep (hprompt rfl)) ?_ ?_ (hp ▸ rfl)
      ⟨nodup_nil, fun _ _ hm => absurd hm not_mem_nil⟩⟩
    · simp [State.held, hp, Pos.held, Ctl.held, WakeupTdPc.held]
    · rw [hp]
      exact .swap ..
  | insert =>
    cases hw
    exact ⟨_, h.enqueue [td] hlocked (hp ▸ rfl) (hp ▸ rfl) rfl⟩
  | _ => cases hw

lemma tdFork_write {entry : L} {pc : ForkPc T} (hp : s.pos c = .thread t (.tdFork pc hs l))
    (hw : tdForkStmt entry s.store (fun pc => .thread t (.tdFork pc hs l))
      (.thread t (.user hs l)) pc = .write st n) : ∃ place', Inv ({ s with store := st }.goto c n) place' := by
  cases pc with
  | first =>
    rw [tdForkStmt] at hw
    split at hw
    all_goals cases hw
  | remove td =>
    cases hw
    have hq : td ∈ s.store.queue .freeq := h.parked c td .freeq (hp ▸ mem_singleton_self _)
    refine ⟨_, h.get hlocked (h.running_self (hp ▸ rfl)) .freeq (fun q' hne => ?_)
      ⟨nodup_nil, fun _ _ hm => absurd hm not_mem_nil⟩ .blank hq ?_ rfl ?_
      (h.status_queue hq) fun _ _ => ⟨rfl, rfl⟩⟩
    · cases q' with
      | freeq => exact absurd rfl hne
      | _ => rfl
    · simp [State.held, hp, Pos.held, Ctl.held, ForkPc.held, Queue.lock]
    · rw [hp]
      exact .swap ..
  | init td =>
    cases hw
    refine ⟨_, h.restage hlocked (h.running_self (hp ▸ rfl)) td .blank .fresh [(t, .active)] rfl
      (hp ▸ .swap ..) (.swap ..)
      ⟨update_self .., fun he => by cases (update_self ..).symm.trans he⟩
      (fun u hu => ⟨update_of_ne hu .., update_of_ne hu ..⟩) rfl⟩
  | setStatus td =>
    cases hw
    have hok : Stage.Ok s.store td .fresh := h.status_cargo (c := c) (hp ▸ mem_cons_of_mem _ mem_cons_self)
    exact ⟨_, h.restage hlocked (h.running_self (hp ▸ rfl)) td .fresh .ready [(t, .active)] rfl
      (hp ▸ .swap ..) (.swap ..)
      ⟨update_self .., hok.2⟩ (fun u hu => ⟨update_of_ne hu .., rfl⟩) rfl⟩
  | insert td =>
    cases hw
    exact ⟨_, h.enqueue [td] hlocked (hp ▸ rfl) (hp ▸ rfl) rfl⟩
  | _ => cases hw

lemma thread_write {k : Ctl T X Ch L} (hp : s.pos c = .thread t k)
    (hprompt : ∀ td hs l, k = .wakeupTd .remove td hs l → s.store.status td = .sleeping)
    (hw : threadStmt cl s.store t e k = .write st n) :
    ∃ place', Inv ({ s with store := st }.goto c n) place' := by
  cases k with
  | user hs l =>
    rw [threadStmt] at hw
    cases hd : cl.act t l s.store.glob e with
    | mtxLock | mtxUnlock | fail | rest =>
      rw [hd] at hw
      cases hw
    | _ =>
      rw [hd] at hw
      cases hw
      exact ⟨place, h.follow hlocked rfl rfl rfl rfl (hp ▸ ⟨rfl, rfl, .inl rfl⟩)⟩
  | sleep pc chan mtx hs l => exact h.sleep_write hlocked hp hw
  | woken pc mtx l =>
    cases pc with
    | clear =>
      cases hw
      exact ⟨place, h.follow hlocked rfl rfl rfl rfl (hp ▸ ⟨rfl, rfl, .inl rfl⟩)⟩
    | _ => cases hw
  | yield pc hs l =>
    cases pc with
    | lockTd => cases hw
    | setStatus =>
      cases hw
      exact ⟨_, h.restage hlocked (h.running_self (hp ▸ rfl)) t .active .ready [] rfl (hp ▸ .refl _) (.refl _)
        ⟨update_self .., fun he => by cases (update_self ..).symm.trans he⟩
        (fun u hu => ⟨update_of_ne hu .., update_of_ne hu ..⟩) rfl⟩
  | resumed l => cases hw
  | wakeup w hs l =>
    refine h.wakeup_write hlocked [(t, .active)] (fun w => .thread t (.wakeup w hs l)) (fun _ => rfl) (fun _ => rfl)
      (fun _ => rfl) (fun x hx => ?_) hp hw
    rw [State.held, hp]
    exact mem_append_left _ hx
  | wakeupTd pc td hs l => exact h.wakeupTd_write hlocked hp (fun he => hprompt td hs l (he ▸ rfl)) hw
  | tdFork pc hs l => exact h.tdFork_write hlocked hp hw
  | tdDestroy pc hs =>
    cases pc with
    | lockTd => cases hw
    | reset =>
      cases hw
      exact ⟨_, h.restage hlocked (h.running_self (hp ▸ rfl)) t .active .blank [] rfl (hp ▸ .refl _) (.refl _)
        (update_self ..)
        (fun u hu => ⟨update_of_ne hu .., update_of_ne hu ..⟩) rfl⟩
  | destroyed => cases hw

lemma requeue_write {why : Leave} (hp : s.pos c = .own (.requeue why td))
    (hw : ownStmt cl s.locks s.store c e (.requeue why td) = .write st n) :
      ∃ place', Inv ({ s with store := st }.goto c n) place' := by
  have hparked := fun q hm => h.status_queue (h.parked c td q (hp ▸ hm))
  have hready : why = .yield → s.store.status td = .runnable := fun hy =>
    (h.status_cargo (c := c) (u := td) (g := .ready) (by rw [hp, hy]; exact mem_cons_self)).1
  rw [ownStmt] at hw
  split_ifs at hw with hr
  · cases hw
    cases why with
    | yield => exact ⟨_, h.enqueue [td] hlocked (hp ▸ rfl) (hp ▸ rfl) rfl⟩
    | sleep => exact absurd (hr.symm.trans (hparked .sleepq mem_cons_self).1) (by simp)
    | destroy => exact absurd (hr.symm.trans (hparked .freeq mem_cons_self)) (by simp)
  · cases hw
    cases why with
    | yield => exact absurd (hready rfl) hr
    | _ => exact ⟨place, h.follow hlocked rfl rfl rfl rfl (hp ▸ ⟨rfl, rfl, .inr (.inl rfl)⟩)⟩

lemma own_write {o : Own T X Ch} (hp : s.pos c = .own o) (hw : ownStmt cl s.locks s.store c e o = .write st n) :
    ∃ place', Inv ({ s with store := st }.goto c n) place' := by
  cases o with
  | insertFreeq td hs =>
    cases hw
    have hcargo : (s.pos c).cargo = [(td, .blank)] := by rw [hp]; rfl
    refine ⟨_, h.put hlocked (h.running_self (hp ▸ rfl)) .freeq (fun q' hq => ?_) ⟨nodup_singleton _, fun u q hm => ?_⟩
      [td] (nodup_singleton td) (fun u hu => ⟨.blank, ?_⟩) perm_append_comm nodup_nil (fun u g => ?_) (fun u hu => ?_)
      (fun _ _ => ⟨rfl, rfl⟩)⟩
    · cases q' with
      | freeq => exact absurd rfl hq
      | _ => rfl
    · obtain ⟨rfl, rfl⟩ := Prod.mk.inj (mem_singleton.mp hm)
      exact mem_append_right _ mem_cons_self
    · rw [hcargo, mem_singleton.mp hu]
      exact mem_cons_self
    · rw [hcargo]
      exact iff_of_false not_mem_nil fun hm => hm.2 (mem_singleton.mpr (congrArg Prod.fst (mem_singleton.mp hm.1)))
    · refine h.status_cargo (c := c) (g := .blank) ?_
      rw [hcargo, mem_singleton.mp hu]
      exact mem_cons_self
  | schedule why td hs =>
    rw [ownStmt] at hw
    split_ifs at hw
    cases hw
    exact ⟨place, h.follow hlocked rfl rfl rfl rfl (hp ▸ ⟨rfl, rfl, .inl rfl⟩)⟩
  | schedSwitch why td =>
    cases hw
    refine ⟨place, h.quiet hlocked rfl rfl rfl rfl (hp ▸ rfl) ?_⟩
    have hn := h.parked_nodup c
    have hm := h.parked c
    rw [hp] at hn hm
    exact ⟨hn, hm⟩
  | requeue why td => exact h.requeue_write hlocked hp hw
  | look =>
    rw [ownStmt] at hw
    split at hw
    · cases hw
      exact ⟨place, h.follow hlocked rfl rfl rfl rfl (hp ▸ ⟨rfl, rfl, .inl rfl⟩)⟩
    · next td _ hq =>
      cases hw
      have htd : td ∈ s.store.queue .runq := show td ∈ s.store.runq from hq ▸ mem_cons_self
      exact ⟨place, h.follow hlocked rfl rfl rfl rfl (hp ▸ ⟨rfl, rfl, .inr (.inr ⟨td, .runq, rfl, htd⟩)⟩)⟩
  | probe =>
    rw [ownStmt] at hw
    split_ifs at hw
    cases hw
    exact ⟨place, h.follow hlocked rfl rfl rfl rfl (hp ▸ ⟨rfl, rfl, .inl rfl⟩)⟩
  | idle =>
    rw [ownStmt] at hw
    split at hw
    · cases hw
      exact ⟨place, h.follow hlocked rfl rfl rfl rfl (hp ▸ ⟨rfl, rfl, .inl rfl⟩)⟩
    · cases hw
  | wakeup w =>
    refine h.wakeup_write hlocked [] (fun w => .own (.wakeup w)) (fun _ => rfl) (fun _ => rfl) (fun _ => rfl)
      (fun x hx => ?_) hp hw
    rwa [State.held, hp]
  | removeNext td =>
    cases hw
    have hq : td ∈ s.store.queue .runq := h.parked c td .runq (hp ▸ mem_singleton_self _)
    refine ⟨_, h.get hlocked (h.running_self (hp ▸ rfl)) .runq (fun q' hne => ?_)
      ⟨nodup_nil, fun _ _ hm => absurd hm not_mem_nil⟩ .ready hq ?_ rfl
      (hp ▸ .refl _) (h.status_queue hq) fun _ _ => ⟨rfl, rfl⟩⟩
    · cases q' with
      | runq => exact absurd rfl hne
      | _ => rfl
    · simp [State.held, hp, Pos.held, Own.held, Queue.lock]
  | enter td =>
    cases hw
    have hback : ∀ k : Context X L, (Pos.thread td k.ctl : Pos T X Ch L).cargo = [(td, .active)] ∧
        (Pos.thread td k.ctl : Pos T X Ch L).parked = [] := fun k => by cases k <;> exact ⟨rfl, rfl⟩
    exact ⟨_, h.restage hlocked rfl td .ready .active [] rfl (hp ▸ .refl _) (.of_eq (hback _).1) (update_self ..)
      (fun u hu => ⟨update_of_ne hu .., rfl⟩) (hback _).2⟩
  | _ => cases hw

end

end Inv

def Prompt (s : State C T X Ch L G) (c : C) : Prop :=
  ∀ t td hs l, s.pos c = .thread t (.wakeupTd .remove td hs l) → s.store.status td = .sleeping

lemma Inv.step (h : Inv s place) (cl : Client T X Ch L G E) (c : C) (e : E) (hprompt : Prompt s c) :
    ∃ place', Inv (step cl s (c, e)) place' := by
  have hlocked := h.locked.step cl c e
  have hquiet := stmt_quiet cl s c e
  have heffect := h.locked.effect cl c e
  generalize Proc.step cl s (c, e) = s' at heffect hlocked
  cases heffect with
  | stay => exact ⟨place, h⟩
  | stop _ | relock _ _ | unlocked _ _ =>
    exact ⟨place, { h with locked := hlocked }⟩
  | acquire hs _ | release hs _ =>
    rw [hs] at hquiet
    exact ⟨place, h.follow hlocked rfl rfl rfl rfl hquiet⟩
  | attempt hs _ =>
    rw [hs] at hquiet
    exact ⟨place, h.follow hlocked rfl rfl rfl rfl hquiet.1⟩
  | pass hs =>
    rw [hs] at hquiet
    exact ⟨place, h.follow hlocked rfl rfl rfl rfl hquiet.2⟩
  | write hs =>
    cases hp : s.pos c with
    | thread t k =>
      rw [stmt, hp] at hs
      exact h.thread_write hlocked hp (fun td hs l he => hprompt t td hs l (he ▸ hp)) hs
    | own o =>
      rw [stmt, hp] at hs
      exact h.own_write hlocked hp hs

end FarmOS.Proc

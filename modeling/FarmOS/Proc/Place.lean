import FarmOS.Proc.Held

/-! Every thread is either on one of the three queues or carried by one CPU, and its status says which. -/

set_option linter.unusedSectionVars false

namespace FarmOS.Proc

open FarmOS.Lib List
open Function (update_self update_of_ne)

variable {C T X Ch L G E : Type}

inductive Queue
  | runq | sleepq | freeq
deriving DecidableEq

inductive Stage
  | active | ready | fresh | blank

inductive Place (C : Type)
  | queue (q : Queue)
  | cpu (c : C) (g : Stage)

def Store.queue (st : Store C T X Ch L G) : Queue → List T
  | .runq => st.runq
  | .sleepq => st.sleepq
  | .freeq => st.freeq

def Queue.lock : Queue → Lock T X
  | .runq => .runq
  | .sleepq => .sleepq
  | .freeq => .freeq

def Queue.Ok (st : Store C T X Ch L G) (t : T) : Queue → Prop
  | .runq => st.status t = .runnable ∧ st.ctx t ≠ .destroyed
  | .sleepq => st.status t = .sleeping ∧ st.ctx t ≠ .destroyed
  | .freeq => st.status t = .unused

def Stage.Ok (st : Store C T X Ch L G) (t : T) : Stage → Prop
  | .active => st.status t = .running
  | .ready => st.status t = .runnable ∧ st.ctx t ≠ .destroyed
  | .fresh => st.status t = .used ∧ st.ctx t ≠ .destroyed
  | .blank => st.status t = .unused

def Place.Ok (st : Store C T X Ch L G) (t : T) : Place C → Prop
  | .queue q => q.Ok st t
  | .cpu _ g => g.Ok st t

def Place.Mine (c : C) : Place C → Prop
  | .queue _ => True
  | .cpu c' _ => c' = c

def Wakeup.cargo : Wakeup T Ch → List (T × Stage)
  | ⟨.exitRunq, _, _⟩ => []
  | ⟨_, _, readyq⟩ => readyq.map fun u => (u, .ready)

def Wakeup.parked : Wakeup T Ch → List (T × Queue)
  | ⟨.scan rest, _, _⟩ | ⟨.unlockTd _ rest, _, _⟩ => rest.map fun u => (u, .sleepq)
  | ⟨.check td rest, _, _⟩ => (td :: rest).map fun u => (u, .sleepq)
  | _ => []

def Ctl.extra : Ctl T X Ch L → List (T × Stage)
  | .wakeup w _ _ => w.cargo
  | .wakeupTd .unlockTd td _ _ | .wakeupTd .exitSleepq td _ _ | .wakeupTd .enterRunq td _ _
  | .wakeupTd .insert td _ _ => [(td, .ready)]
  | .tdFork (.exitFreeq td) _ _ | .tdFork (.init td) _ _ => [(td, .blank)]
  | .tdFork (.setStatus td) _ _ => [(td, .fresh)]
  | .tdFork (.enterRunq td) _ _ | .tdFork (.insert td) _ _ => [(td, .ready)]
  | _ => []

def Leave.cargo (td : T) : Leave → List (T × Stage)
  | .yield => [(td, .ready)]
  | _ => []

def Leave.parked (td : T) : Leave → List (T × Queue)
  | .sleep => [(td, .sleepq)]
  | .destroy => [(td, .freeq)]
  | .yield => []

def Own.cargo : Own T X Ch → List (T × Stage)
  | .enterFreeq td _ | .insertFreeq td _ => [(td, .blank)]
  | .schedule why td _ | .schedSwitch why td | .enterRunq why td | .requeue why td => why.cargo td
  | .exitRunq td | .enter td => [(td, .ready)]
  | .wakeup w => w.cargo
  | _ => []

def Own.parked : Own T X Ch → List (T × Queue)
  | .exitSleepq td _ => [(td, .sleepq)]
  | .exitFreeq td _ => [(td, .freeq)]
  | .schedule why td _ | .schedSwitch why td | .enterRunq why td | .requeue why td => why.parked td
  | .lockNext td | .removeNext td => [(td, .runq)]
  | .wakeup w => w.parked
  | _ => []

def Own.onCpu : Own T X Ch → Option T
  | .exitSleepq td _ | .enterFreeq td _ | .insertFreeq td _ | .exitFreeq td _ | .schedule _ td _
  | .schedSwitch _ td => some td
  | _ => none

def Pos.cargo : Pos T X Ch L → List (T × Stage)
  | .thread t k => (t, .active) :: k.extra
  | .own o => o.cargo

def Pos.parked : Pos T X Ch L → List (T × Queue)
  | .thread _ (.wakeup w _ _) => w.parked
  | .thread _ (.tdFork (.remove td) _ _) => [(td, .freeq)]
  | .thread _ _ => []
  | .own o => o.parked

def Pos.onCpu : Pos T X Ch L → Option T
  | .thread t _ => some t
  | .own o => o.onCpu

variable [DecidableEq C] [Fintype C] [DecidableEq T] [DecidableEq X] [DecidableEq Ch]
  {s : State C T X Ch L G} {st : Store C T X Ch L G} {c c' : C}
  {n p : Pos T X Ch L} {place place' : T → Place C} {t u : T} {q : Queue}

structure Inv (s : State C T X Ch L G) (place : T → Place C) : Prop where
  locked : Locked s
  nodup (q : Queue) : (s.store.queue q).Nodup
  mem (q : Queue) (t : T) : t ∈ s.store.queue q ↔ place t = .queue q
  cargo_nodup (c : C) : (s.pos c).cargo.Nodup
  cargo (c : C) (t : T) (g : Stage) : (t, g) ∈ (s.pos c).cargo ↔ place t = .cpu c g
  ok (t : T) : (place t).Ok s.store t
  running (c : C) : s.store.running c = (s.pos c).onCpu
  parked_nodup (c : C) : (s.pos c).parked.Nodup
  parked (c : C) (t : T) (q : Queue) : (t, q) ∈ (s.pos c).parked → t ∈ s.store.queue q

lemma Wakeup.parked_held {w : Wakeup T Ch} (h : (u, q) ∈ w.parked) : q.lock ∈ w.held (X := X) := by
  obtain ⟨pc, chan, readyq⟩ := w
  cases pc with
  | scan | unlockTd | check =>
    obtain ⟨_, _, hu⟩ := mem_map.mp h
    obtain ⟨rfl, rfl⟩ := Prod.mk.inj hu
    simp [Wakeup.held, Queue.lock]
  | _ => cases h

lemma Leave.parked_eq {why : Leave} {td : T} (h : (u, q) ∈ why.parked td) : u = td := by
  cases why with
  | yield => cases h
  | sleep | destroy => exact (Prod.mk.inj (mem_singleton.mp h)).1

lemma Pos.parked_held (h : (u, q) ∈ p.parked) : .td u ∈ p.held ∨ q.lock ∈ p.held := by
  cases p with
  | thread t k =>
    cases k with
    | wakeup w hs l => exact .inr (mem_append_left _ (Wakeup.parked_held h))
    | tdFork pc hs l =>
      cases pc with
      | remove td =>
        obtain ⟨rfl, rfl⟩ := Prod.mk.inj (mem_singleton.mp h)
        exact .inl mem_cons_self
      | _ => cases h
    | _ => cases h
  | own o =>
    cases o with
    | exitSleepq td hs =>
      obtain ⟨rfl, rfl⟩ := Prod.mk.inj (mem_singleton.mp h)
      exact .inl mem_cons_self
    | exitFreeq td hs =>
      obtain ⟨rfl, rfl⟩ := Prod.mk.inj (mem_singleton.mp h)
      exact .inr mem_cons_self
    | schedule why td hs | schedSwitch why td | enterRunq why td | requeue why td =>
      obtain rfl := Leave.parked_eq h
      simp [Pos.held, Own.held]
    | lockNext td | removeNext td =>
      obtain ⟨rfl, rfl⟩ := Prod.mk.inj (mem_singleton.mp h)
      simp [Pos.held, Own.held, Queue.lock]
    | wakeup w => exact .inr (Wakeup.parked_held h)
    | _ => cases h

lemma Place.ok_congr {st' : Store C T X Ch L G} {pl : Place C} (hs : st'.status t = st.status t)
    (hc : st'.ctx t = st.ctx t) (h : pl.Ok st t) : pl.Ok st' t := by
  cases pl with
  | queue q => cases q <;> simpa [Place.Ok, Queue.Ok, hs, hc] using h
  | cpu c g => cases g <;> simpa [Place.Ok, Stage.Ok, hs, hc] using h

namespace Inv

section

variable (h : Inv s place) {locks : Locks C (Lock T X)}
include h

lemma asleep (ht : s.store.status t = .sleeping) : t ∈ s.store.sleepq := by
  have hok := h.ok t
  refine (h.mem .sleepq t).mpr ?_
  cases hp : place t with
  | queue q =>
    rw [hp] at hok
    cases q with
    | sleepq => rfl
    | runq => exact absurd (ht.symm.trans hok.1) nofun
    | freeq => exact absurd (ht.symm.trans hok) nofun
  | cpu c g =>
    rw [hp] at hok
    cases g with
    | active => exact absurd (ht.symm.trans hok) nofun
    | ready | fresh => exact absurd (ht.symm.trans hok.1) nofun
    | blank => exact absurd (ht.symm.trans hok) nofun

variable {st : Store C T X Ch L G} (hlocked : Locked ({ s with store := st, locks := locks }.goto c n))
  (hrunning : st.running = Function.update s.store.running c n.onCpu)
include hlocked hrunning

lemma update (hqueue : ∀ q, (st.queue q).Nodup ∧ ∀ t, t ∈ st.queue q ↔ place' t = .queue q)
    (hcargo : n.cargo.Nodup ∧ ∀ t g, (t, g) ∈ n.cargo ↔ place' t = .cpu c g)
    (hmine : ∀ t, place' t = place t ∨ (place t).Mine c ∧ (place' t).Mine c) (hok : ∀ t, (place' t).Ok st t)
    (hkeep : ∀ q t, t ∈ s.store.queue q → t ∈ st.queue q ∨ .td t ∈ s.held c ∧ q.lock ∈ s.held c)
    (hparked : n.parked.Nodup ∧ ∀ t q, (t, q) ∈ n.parked → t ∈ st.queue q) :
    Inv ({ s with store := st, locks := locks }.goto c n) place' := by
  have hself : (({ s with store := st, locks := locks } : State C T X Ch L G).goto c n).pos c = n :=
    update_self ..
  have hother : ∀ {c'}, c' ≠ c → (({ s with store := st, locks := locks } :
    State C T X Ch L G).goto c n).pos c' = s.pos c' :=
    fun hc => update_of_ne hc ..
  refine ⟨hlocked, fun q => (hqueue q).1, fun q => (hqueue q).2, fun c' => ?_, fun c' t g => ?_, hok, fun c' => ?_,
    fun c' => ?_, fun c' t q => ?_⟩
  · by_cases hc : c' = c
    · subst hc
      rw [hself]
      exact hcargo.1
    · rw [hother hc]
      exact h.cargo_nodup c'
  · by_cases hc : c' = c
    · subst hc
      rw [hself]
      exact hcargo.2 t g
    · rw [hother hc, h.cargo]
      rcases hmine t with ht | ⟨ht, ht'⟩
      · rw [ht]
      · refine iff_of_false (fun he => hc ?_) (fun he => hc ?_)
        · rw [he] at ht
          exact ht
        · rw [he] at ht'
          exact ht'
  · by_cases hc : c' = c
    · subst hc
      rw [hself]
      exact (congrFun hrunning c').trans (update_self ..)
    · rw [hother hc, ← h.running]
      exact (congrFun hrunning c').trans (update_of_ne hc ..)
  · by_cases hc : c' = c
    · subst hc
      rw [hself]
      exact hparked.1
    · rw [hother hc]
      exact h.parked_nodup c'
  · by_cases hc : c' = c
    · subst hc
      rw [hself]
      exact hparked.2 t q
    · rw [hother hc]
      intro ht
      refine (hkeep q t (h.parked c' t q ht)).resolve_right fun ⟨h1, h2⟩ => hc ?_
      rcases Pos.parked_held ht with h' | h'
      · exact h.locked.exclusive h' h1
      · exact h.locked.exclusive h' h2

lemma quiet (hqueue : st.queue = s.store.queue) (hstatus : st.status = s.store.status) (hctx : st.ctx = s.store.ctx)
    (hcargo : n.cargo = (s.pos c).cargo) (hparked : n.parked.Nodup ∧ ∀ t q, (t, q) ∈ n.parked → t ∈ s.store.queue q) :
    Inv ({ s with store := st, locks := locks }.goto c n) place := by
  refine h.update hlocked hrunning (fun q => ?_) ?_ (fun _ => .inl rfl) (fun t => ?_) (fun q t ht => .inl ?_) ?_
  · rw [hqueue]
    exact ⟨h.nodup q, h.mem q⟩
  · rw [hcargo]
    exact ⟨h.cargo_nodup c, h.cargo c⟩
  · exact Place.ok_congr (congrFun hstatus t) (congrFun hctx t) (h.ok t)
  · rwa [hqueue]
  · rw [hqueue]
    exact hparked

section

variable (q : Queue) (hne : ∀ q', q' ≠ q → st.queue q' = s.store.queue q')
  (hparked : n.parked.Nodup ∧ ∀ t q, (t, q) ∈ n.parked → t ∈ st.queue q)
include hne hparked

lemma put (us : List T) (hus : us.Nodup) (hfrom : ∀ u ∈ us, ∃ g, (u, g) ∈ (s.pos c).cargo)
    (hq : (st.queue q).Perm (us ++ s.store.queue q)) (hnodup : n.cargo.Nodup)
    (hcargo : ∀ t g, (t, g) ∈ n.cargo ↔ (t, g) ∈ (s.pos c).cargo ∧ t ∉ us) (hok : ∀ u ∈ us, q.Ok st u)
    (hsame : ∀ t, t ∉ us → st.status t = s.store.status t ∧ st.ctx t = s.store.ctx t) :
    Inv ({ s with store := st, locks := locks }.goto c n) (fun t => if t ∈ us then .queue q else place t) := by
  have hplace : ∀ {u}, u ∈ us → ∃ g, place u = .cpu c g := fun hu =>
    (hfrom _ hu).imp fun g hg => (h.cargo c _ g).mp hg
  have hout : ∀ {u}, u ∈ us → ∀ q', u ∉ s.store.queue q' := fun hu q' hm => by
    obtain ⟨g, hg⟩ := hplace hu
    rw [h.mem, hg] at hm
    cases hm
  have hkeep : ∀ {q' t}, t ∈ s.store.queue q' → t ∈ st.queue q' := fun {q' t} ht => by
    by_cases hqq : q' = q
    · subst hqq
      exact hq.mem_iff.mpr (mem_append_right _ ht)
    · rwa [hne q' hqq]
  refine h.update hlocked hrunning (fun q' => ⟨?_, fun t => ?_⟩) ⟨hnodup, fun t g => ?_⟩ (fun t => ?_) (fun t => ?_)
    (fun q' t ht => .inl (hkeep ht)) hparked
  · by_cases hqq : q' = q
    · subst hqq
      exact hq.nodup_iff.mpr (hus.append (h.nodup q') fun u hu hm => hout hu q' hm)
    · rw [hne q' hqq]
      exact h.nodup q'
  · by_cases ht : t ∈ us
    · rw [if_pos ht]
      by_cases hqq : q' = q
      · subst hqq
        exact iff_of_true (hq.mem_iff.mpr (mem_append_left _ ht)) rfl
      · rw [hne q' hqq]
        exact iff_of_false (hout ht q') fun he => hqq (Place.queue.inj he).symm
    · rw [if_neg ht, ← h.mem]
      by_cases hqq : q' = q
      · subst hqq
        rw [hq.mem_iff, mem_append]
        exact or_iff_right ht
      · rw [hne q' hqq]
  · rw [hcargo, h.cargo]
    by_cases ht : t ∈ us
    · rw [if_pos ht]
      exact iff_of_false (fun hn => hn.2 ht) nofun
    · rw [if_neg ht]
      exact and_iff_left ht
  · by_cases ht : t ∈ us
    · obtain ⟨g, hg⟩ := hplace ht
      rw [if_pos ht, hg]
      exact .inr ⟨rfl, trivial⟩
    · exact .inl (if_neg ht)
  · by_cases ht : t ∈ us
    · rw [if_pos ht]
      exact hok t ht
    · rw [if_neg ht]
      exact Place.ok_congr (hsame t ht).1 (hsame t ht).2 (h.ok t)

lemma get (g : Stage) (hu : u ∈ s.store.queue q) (hheld : .td u ∈ s.held c ∧ q.lock ∈ s.held c)
    (hq : st.queue q = (s.store.queue q).erase u) (hcargo : n.cargo.Perm ((u, g) :: (s.pos c).cargo))
    (hok : g.Ok st u) (hsame : ∀ t, t ≠ u → st.status t = s.store.status t ∧ st.ctx t = s.store.ctx t) :
    Inv ({ s with store := st, locks := locks }.goto c n) (Function.update place u (.cpu c g)) := by
  have hplace := (h.mem q u).mp hu
  have hnot : ∀ {c' g'}, (u, g') ∉ (s.pos c').cargo := fun {c' g'} hm => by
    rw [h.cargo, hplace] at hm
    cases hm
  refine h.update hlocked hrunning (fun q' => ⟨?_, fun t => ?_⟩) ⟨?_, fun t g' => ?_⟩ (fun t => ?_) (fun t => ?_)
    (fun q' t ht => ?_) hparked
  · by_cases hqq : q' = q
    · subst hqq
      rw [hq]
      exact (h.nodup q').erase u
    · rw [hne q' hqq]
      exact h.nodup q'
  · by_cases hqq : q' = q
    · subst hqq
      rw [hq, (h.nodup q').mem_erase_iff]
      by_cases ht : t = u
      · subst ht
        rw [update_self]
        exact iff_of_false (fun hn => hn.1 rfl) nofun
      · rw [update_of_ne ht, ← h.mem]
        exact and_iff_right ht
    · rw [hne q' hqq]
      by_cases ht : t = u
      · subst ht
        rw [update_self, h.mem, hplace]
        exact iff_of_false (fun he => hqq (Place.queue.inj he).symm) nofun
      · rw [update_of_ne ht, h.mem]
  · exact hcargo.nodup_iff.mpr (nodup_cons.mpr ⟨hnot, h.cargo_nodup c⟩)
  · rw [hcargo.mem_iff, mem_cons, h.cargo]
    by_cases ht : t = u
    · subst ht
      rw [update_self, hplace, Prod.mk.injEq, Place.cpu.injEq]
      exact ⟨fun hx => hx.elim (fun hx => ⟨rfl, hx.2.symm⟩) nofun, fun hx => .inl ⟨rfl, hx.2.symm⟩⟩
    · rw [update_of_ne ht]
      exact or_iff_right fun hx => ht (Prod.mk.inj hx).1
  · by_cases ht : t = u
    · subst ht
      rw [update_self, hplace]
      exact .inr ⟨trivial, rfl⟩
    · exact .inl (update_of_ne ht ..)
  · by_cases ht : t = u
    · subst ht
      rw [update_self]
      exact hok
    · rw [update_of_ne ht]
      exact Place.ok_congr (hsame t ht).1 (hsame t ht).2 (h.ok t)
  · by_cases hqq : q' = q
    · subst hqq
      by_cases htu : t = u
      · subst htu
        exact .inr hheld
      · rw [hq, (h.nodup q').mem_erase_iff]
        exact .inl ⟨htu, ht⟩
    · rw [hne q' hqq]
      exact .inl ht

end

lemma restage (u : T) (g g' : Stage) (rest : List (T × Stage)) (hqueue : st.queue = s.store.queue)
    (hold : (s.pos c).cargo.Perm ((u, g) :: rest)) (hnew : n.cargo.Perm ((u, g') :: rest)) (hok : g'.Ok st u)
    (hsame : ∀ t, t ≠ u → st.status t = s.store.status t ∧ st.ctx t = s.store.ctx t) (hparked : n.parked = []) :
    Inv ({ s with store := st, locks := locks }.goto c n) (Function.update place u (.cpu c g')) := by
  have hplace := (h.cargo c u g).mp (hold.mem_iff.mpr mem_cons_self)
  have hnodup := nodup_cons.mp (hold.nodup_iff.mp (h.cargo_nodup c))
  have hnot : ∀ a, (u, a) ∉ rest := fun a hm => by
    have ha := (h.cargo c u a).mp (hold.mem_iff.mpr (mem_cons_of_mem _ hm))
    obtain rfl := (Place.cpu.inj (hplace.symm.trans ha)).2
    exact hnodup.1 hm
  refine h.update hlocked hrunning (fun q' => ⟨?_, fun t => ?_⟩)
    ⟨hnew.nodup_iff.mpr (nodup_cons.mpr ⟨hnot g', hnodup.2⟩), fun t a => ?_⟩ (fun t => ?_) (fun t => ?_)
    (fun q' t ht => .inl ?_) ?_
  · rw [hqueue]
    exact h.nodup q'
  · rw [hqueue, h.mem]
    by_cases ht : t = u
    · subst ht
      rw [update_self, hplace]
      exact iff_of_false nofun nofun
    · rw [update_of_ne ht]
  · rw [hnew.mem_iff, mem_cons, Prod.mk.injEq]
    by_cases ht : t = u
    · subst ht
      rw [update_self, Place.cpu.injEq, or_iff_left (hnot a), and_iff_right rfl, and_iff_right rfl, eq_comm]
    · rw [update_of_ne ht, ← h.cargo, hold.mem_iff, mem_cons, Prod.mk.injEq,
        or_iff_right fun hx => ht hx.1, or_iff_right fun hx => ht hx.1]
  · by_cases ht : t = u
    · subst ht
      rw [update_self, hplace]
      exact .inr ⟨rfl, rfl⟩
    · exact .inl (update_of_ne ht ..)
  · by_cases ht : t = u
    · subst ht
      rw [update_self]
      exact hok
    · rw [update_of_ne ht]
      exact Place.ok_congr (hsame t ht).1 (hsame t ht).2 (h.ok t)
  · rwa [hqueue]
  · rw [hparked]
    exact ⟨nodup_nil, nofun⟩

end

end Inv

end FarmOS.Proc

import FarmOS.Proc.Client
import FarmOS.Proc.Once

/-! The places of the threads in every reachable state, and the race in `wakeup_td`. -/

set_option linter.unusedSectionVars false

namespace FarmOS.Proc

open Lib List Option

variable {C T X Ch L G E : Type} [DecidableEq C] [Fintype C] [DecidableEq T] [DecidableEq X] [DecidableEq Ch]
  {cl : Client T X Ch L G E} {s : State C T X Ch L G} {c c' : C} {e : E} {place : T → Place C} {t : T} {q : Queue}
  {evs : List (C × E)} {glob : G} {created free : List T}

def Pos.inTransit : Pos T X Ch L → List T
  | .thread _ k => k.extra.map Prod.fst
  | .own o => o.cargo.map Prod.fst ++ o.onCpu.toList

inductive Settled (s : State C T X Ch L G) (t : T) : Prop
  | runq : s.store.runq.count t = 1 → s.store.status t = .runnable → t ∉ s.store.sleepq → t ∉ s.store.freeq →
      (∀ c, s.store.running c ≠ some t) → Settled s t
  | sleepq : s.store.sleepq.count t = 1 → s.store.status t = .sleeping → t ∉ s.store.runq → t ∉ s.store.freeq →
      (∀ c, s.store.running c ≠ some t) → Settled s t
  | freeq : s.store.freeq.count t = 1 → s.store.status t = .unused → t ∉ s.store.runq → t ∉ s.store.sleepq →
      (∀ c, s.store.running c ≠ some t) → Settled s t
  | running (c : C) : (∀ c', s.store.running c' = some t ↔ c' = c) → s.store.status t = .running →
      t ∉ s.store.runq → t ∉ s.store.sleepq → t ∉ s.store.freeq → Settled s t

structure AtMostOnce (s : State C T X Ch L G) (t : T) : Prop where
  queues : s.store.runq.count t + s.store.sleepq.count t + s.store.freeq.count t ≤ 1
  cpus (c c' : C) : s.store.running c = some t → s.store.running c' = some t → c = c'

lemma Own.onCpu_held {o : Own T X Ch} (h : o.onCpu = some t) :
    .td t ∈ o.held ∧ ((∃ g, (t, g) ∈ o.cargo) ∨ ∃ q, (t, q) ∈ o.parked) := by
  cases o with
  | exitSleepq td hs =>
    obtain rfl := some.inj h
    exact ⟨mem_cons_self, .inr ⟨_, mem_cons_self⟩⟩
  | enterFreeq td hs =>
    obtain rfl := some.inj h
    exact ⟨mem_cons_self, .inl ⟨_, mem_cons_self⟩⟩
  | insertFreeq td hs =>
    obtain rfl := some.inj h
    exact ⟨mem_cons_of_mem _ mem_cons_self, .inl ⟨_, mem_cons_self⟩⟩
  | exitFreeq td hs =>
    obtain rfl := some.inj h
    exact ⟨mem_cons_of_mem _ mem_cons_self, .inr ⟨_, mem_cons_self⟩⟩
  | schedule why td hs | schedSwitch why td =>
    obtain rfl := some.inj h
    refine ⟨mem_cons_self, ?_⟩
    cases why with
    | yield => exact .inl ⟨_, mem_cons_self⟩
    | sleep | destroy => exact .inr ⟨_, mem_cons_self⟩
  | _ => cases h

namespace Inv

section

variable (h : Inv s place)
include h

lemma running_cases (hr : s.store.running c = some t) : place t = .cpu c .active ∨
    t ∈ (s.pos c).inTransit ∧ .td t ∈ s.held c ∧ ((∃ g, place t = .cpu c g) ∨ ∃ q, place t = .queue q) := by
  rw [h.running] at hr
  cases hp : s.pos c with
  | thread u k =>
    rw [hp] at hr
    obtain rfl := some.inj hr
    exact .inl ((h.cargo c u .active).mp (hp ▸ mem_cons_self))
  | own o =>
    rw [hp] at hr
    obtain ⟨hheld, hplace⟩ := Own.onCpu_held hr
    refine .inr ⟨mem_append_right _ (mem_toList.mpr hr), by rwa [State.held, hp], ?_⟩
    rcases hplace with ⟨g, hg⟩ | ⟨q, hq⟩
    · exact .inl ⟨g, (h.cargo c t g).mp (hp ▸ hg)⟩
    · exact .inr ⟨q, (h.mem q t).mp (h.parked c t q (hp ▸ hq))⟩

lemma running_unique (hr : s.store.running c = some t) (hr' : s.store.running c' = some t) : c = c' := by
  rcases h.running_cases hr with hp | ⟨-, hh, hp⟩ <;> rcases h.running_cases hr' with hp' | ⟨-, hh', hp'⟩
  · exact (Place.cpu.inj (hp.symm.trans hp')).1
  · rcases hp' with ⟨g, hp'⟩ | ⟨q, hp'⟩
    · exact (Place.cpu.inj (hp.symm.trans hp')).1
    · exact absurd (hp.symm.trans hp') nofun
  · rcases hp with ⟨g, hp⟩ | ⟨q, hp⟩
    · exact (Place.cpu.inj (hp.symm.trans hp')).1
    · exact absurd (hp.symm.trans hp') nofun
  · exact h.locked.exclusive hh hh'

lemma count_queue (q : Queue) (hp : place t = .queue q) : (s.store.queue q).count t = 1 :=
  count_eq_one_of_mem (h.nodup q) ((h.mem q t).mpr hp)

lemma not_mem_queue (hp : place t ≠ .queue q) : t ∉ s.store.queue q := fun hm => hp ((h.mem q t).mp hm)

lemma atMostOnce (t : T) : AtMostOnce s t := by
  refine ⟨?_, fun c c' => h.running_unique⟩
  have hzero : ∀ {q}, place t ≠ .queue q → (s.store.queue q).count t = 0 := fun hp =>
    count_eq_zero.mpr (h.not_mem_queue hp)
  have hqueue : (s.store.queue .runq).count t + (s.store.queue .sleepq).count t +
      (s.store.queue .freeq).count t ≤ 1 := by
    cases hp : place t with
    | queue q =>
      have hone := h.count_queue q hp
      cases q with
      | runq => rw [hone, hzero (q := .sleepq) (by simp [hp]), hzero (q := .freeq) (by simp [hp])]
      | sleepq => rw [hone, hzero (q := .runq) (by simp [hp]), hzero (q := .freeq) (by simp [hp])]
      | freeq => rw [hone, hzero (q := .runq) (by simp [hp]), hzero (q := .sleepq) (by simp [hp])]
    | cpu c g =>
      rw [hzero (q := .runq) (by simp [hp]), hzero (q := .sleepq) (by simp [hp]), hzero (q := .freeq) (by simp [hp])]
      exact Nat.zero_le 1
  exact hqueue

lemma settled (ht : ∀ c, t ∉ (s.pos c).inTransit) : Settled s t := by
  have hok := h.ok t
  have hout : ∀ {q} q', place t = .queue q → q' ≠ q → t ∉ s.store.queue q' := fun _ hp hne =>
    h.not_mem_queue fun hp' => hne (Place.queue.inj (hp'.symm.trans hp))
  have hidle : ∀ {q}, place t = .queue q → ∀ c, s.store.running c ≠ some t := fun hp c hr => by
    rcases h.running_cases hr with hp' | ⟨hm, -⟩
    · exact absurd (hp.symm.trans hp') nofun
    · exact ht c hm
  cases hp : place t with
  | queue q =>
    rw [hp] at hok
    have hcount := h.count_queue q hp
    cases q with
    | runq => exact .runq hcount hok.1 (hout .sleepq hp nofun) (hout .freeq hp nofun) (hidle hp)
    | sleepq => exact .sleepq hcount hok.1 (hout .runq hp nofun) (hout .freeq hp nofun) (hidle hp)
    | freeq => exact .freeq hcount hok (hout .runq hp nofun) (hout .sleepq hp nofun) (hidle hp)
  | cpu c g =>
    have hcargo := (h.cargo c t g).mpr hp
    have hnot : ∀ q, t ∉ s.store.queue q := fun q => h.not_mem_queue (by rw [hp]; nofun)
    have htc := ht c
    cases hpos : s.pos c with
    | thread u k =>
      rw [hpos] at hcargo htc
      rcases mem_cons.mp hcargo with he | hm
      · obtain ⟨rfl, rfl⟩ := Prod.mk.inj he
        rw [hp] at hok
        have hr : s.store.running c = some t := (h.running c).trans (hpos ▸ rfl)
        exact .running c (fun c' => ⟨fun hr' => h.running_unique hr' hr, fun hc => hc ▸ hr⟩) hok (hnot .runq)
          (hnot .sleepq) (hnot .freeq)
      · exact absurd (mem_map_of_mem (f := Prod.fst) hm) htc
    | own o =>
      rw [hpos] at hcargo htc
      exact absurd (mem_append_left _ (mem_map_of_mem (f := Prod.fst) hcargo)) htc

end

lemma start (cl : Client T X Ch L G E) (glob : G) (hn : (created ++ free).Nodup) (ha : ∀ t, t ∈ created ++ free) :
    Inv (start cl glob created free : State C T X Ch L G) fun t => .queue (if t ∈ created then .runq else .freeq) := by
  obtain ⟨hc, hf, hd⟩ := nodup_append'.mp hn
  refine ⟨.start cl glob created free, fun q => ?_, fun q t => ?_, fun _ => nodup_nil, fun c t g => ⟨nofun, nofun⟩,
    fun t => ?_, fun _ => rfl, fun _ => nodup_nil, nofun⟩
  · cases q with
    | runq => exact hc
    | sleepq => exact nodup_nil
    | freeq => exact hf
  · have hfree : t ∈ free ↔ t ∉ created :=
      ⟨fun h1 h2 => hd h2 h1, fun h1 => (mem_append.mp (ha t)).resolve_left h1⟩
    by_cases ht : t ∈ created
    · cases q <;> simp [Proc.start, Store.queue, ht, hfree]
    · cases q <;> simp [Proc.start, Store.queue, ht, hfree]
  · by_cases ht : t ∈ created
    · simp [Proc.start, Place.Ok, Queue.Ok, ht]
    · simp [Proc.start, Place.Ok, Queue.Ok, ht]

end Inv

def PromptRun (cl : Client T X Ch L G E) (s : State C T X Ch L G) (evs : List (C × E)) : Prop :=
  ∀ pre c e post, evs = pre ++ (c, e) :: post → Prompt (run cl s pre) c

lemma Inv.run (h : Inv s place) (hp : PromptRun cl s evs) : ∃ place', Inv (run cl s evs) place' := by
  induction evs using reverseRecOn with
  | nil => exact ⟨place, h⟩
  | append_singleton evs ev ih =>
    obtain ⟨place', h'⟩ := ih fun pre c e post he => hp pre c e (post ++ [ev]) (by rw [he, append_assoc]; rfl)
    rw [run_snoc]
    exact h'.step cl ev.1 ev.2 (hp evs ev.1 ev.2 [] rfl)

theorem threads_in_one_place (cl : Client T X Ch L G E) (glob : G) (created free : List T)
    (hnodup : (created ++ free).Nodup) (hall : ∀ t, t ∈ created ++ free) (evs : List (C × E))
    (hprompt : PromptRun cl (start cl glob created free) evs) (t : T) :
    (Settled (run cl (start cl glob created free) evs) t ∨
      ∃ c, t ∈ ((run cl (start cl glob created free) evs).pos c).inTransit) ∧
      AtMostOnce (run cl (start cl glob created free) evs) t := by
  obtain ⟨place, h⟩ := (Inv.start cl glob hnodup hall).run hprompt
  refine ⟨?_, h.atMostOnce t⟩
  by_cases ht : ∃ c, t ∈ ((run cl (start cl glob created free) evs).pos c).inTransit
  · exact .inr ht
  · exact .inl (h.settled fun c hc => ht ⟨c, hc⟩)

lemma promptRun_of_only {S : Call → Prop} (hcl : cl.Only S) (hS : ¬ S .wakeupTd) (hl : Locked s)
    (h : ∀ c, (s.pos c).call = none) (evs : List (C × E)) : PromptRun cl s evs := by
  intro pre c e post _ t td hs l hp
  exact absurd ((hcl.run hl h pre).2 c .wakeupTd (by rw [hp]; rfl)) hS

local instance threadNeZero : NeZero 3 := ⟨three_ne_zero⟩

def racing : Client (Fin 3) Unit Unit ℕ Unit Unit where
  entry := 0
  act t l _ _ :=
    match t, l with
    | 0, 0 => .mtxLock () 1
    | 0, 1 => .sleep () () 2
    | 1, 0 => .wakeupTd 0 1
    | 2, 0 => .wakeup () 1
    | _, _ => .rest
  interrupt _ := none

def turns (ns : List (Fin 4 × ℕ)) : List (Fin 4 × Unit) := ns.flatMap fun x => replicate x.2 (x.1, ())

def race : List (Fin 4 × Unit) := turns [(0, 7), (1, 7), (2, 7), (0, 17), (1, 4), (2, 10), (0, 8), (1, 8), (3, 6)]

theorem wakeup_td_race : (run racing (start racing () [0, 1, 2] []) race).store.running 0 = some 0 ∧
    (run racing (start racing () [0, 1, 2] []) race).store.running 3 = some 0 := by decide +kernel

def State.prompt (s : State C T X Ch L G) (c : C) : Bool :=
  match s.pos c with
  | .thread _ (.wakeupTd .remove td _ _) => s.store.status td == .sleeping
  | _ => true

lemma promptRun_of_eval (h : ∀ n < evs.length, ∀ ev ∈ evs[n]?, (run cl s (evs.take n)).prompt ev.1 = true) :
    PromptRun cl s evs := by
  rintro pre c e post rfl t td hs l hp
  have hc := h pre.length (by simp) (c, e) (by simp)
  rw [take_left, State.prompt, hp] at hc
  exact of_decide_eq_true hc

def woken : List (Fin 4 × Unit) := turns [(0, 7), (1, 7), (0, 17), (1, 12)]

theorem woken_thread_in_one_place : (run racing (start racing () [0, 1, 2] []) woken).store.runq = [0] ∧
    (Settled (run racing (start racing () [0, 1, 2] []) woken) 0 ∨
      ∃ c, 0 ∈ ((run racing (start racing () [0, 1, 2] []) woken).pos c).inTransit) ∧
    AtMostOnce (run racing (start racing () [0, 1, 2] []) woken) 0 :=
  ⟨by decide +kernel, threads_in_one_place racing () [0, 1, 2] [] (by decide) (by decide) woken
    (promptRun_of_eval (by decide +kernel)) 0⟩

end FarmOS.Proc

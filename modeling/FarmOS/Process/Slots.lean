import FarmOS.Process.LastThread

/-! Where the slots of the process table are. None is lost as long as a process that exits has a parent, and has no
child that is still alive. -/

namespace FarmOS.Process

open Lib

variable {T : Type}

def Live (s : State T) (i : ℕ) : Prop :=
  (s.procs i).status = .used ∧ ((s.procs i).threads ≠ [] ∨ ∃ t, s.pc t = .forking i)

def Reapable (s : State T) (i : ℕ) : Prop :=
  (s.procs i).status = .zombie ∧ ∃ p, (s.procs i).parent = some p ∧ i ∈ (s.procs p).children ∧ Live s p

structure Kept (s : State T) (i : ℕ) : Prop where
  some : i ∈ s.freelist ∨ Live s i ∨ Reapable s i
  not_free : Live s i ∨ Reapable s i → i ∉ s.freelist
  not_live : Reapable s i → ¬ Live s i

def Pc.destroys : Pc → Bool
  | .recycled _ => true
  | _ => false

def Childless (s : State T) : Event T → Prop
  | .run t => (s.pc t).destroys →
      (s.procs (s.proc t)).parent ≠ none ∧ ∀ c ∈ (s.procs (s.proc t)).children, (s.procs c).status = .zombie
  | _ => True

instance (s : State T) : (ev : Event T) → Decidable (Childless s ev)
  | .run t => inferInstanceAs (Decidable ((s.pc t).destroys →
      (s.procs (s.proc t)).parent ≠ none ∧ ∀ c ∈ (s.procs (s.proc t)).children, (s.procs c).status = .zombie))
  | .create _ | .fork _ | .child .. | .spawn .. | .exit .. | .wait .. => .isTrue trivial

structure Rooted (s : State T) : Prop where
  listed {i p : ℕ} : (s.procs i).parent = some p → i ∈ (s.procs p).children
  zombie {i : ℕ} : (s.procs i).status = .zombie → (s.procs i).parent ≠ none

namespace Rooted

variable {n : ℕ} {s s' : State T} {t : T} {i : ℕ}

lemma congr (h : Rooted s) (hs : ∀ i, (s'.procs i).status = .zombie → (s.procs i).status = .zombie)
    (hp : ∀ i, (s'.procs i).parent = (s.procs i).parent)
    (hc : ∀ i, (s'.procs i).children = (s.procs i).children) : Rooted s' where
  listed {i p} hi := by
    rw [hp] at hi
    rw [hc]
    exact h.listed hi
  zombie {i} hi := by
    rw [hp]
    exact h.zombie (hs i hi)

lemma live (hf : Forest n none s) (hc : Company s) (hi : (s.procs i).status = .used) : Live s i := by
  refine ⟨hi, ?_⟩
  obtain hfork | ⟨t, ht⟩ := hc.used hi
  · exact .inr hfork
  · exact .inl (List.ne_nil_of_mem ((hf.mem_threads t i).mpr ht))

lemma reapable (hf : Forest n none s) (h : Rooted s) (hc : Company s) (hi : (s.procs i).status = .zombie) :
    Reapable s i := by
  obtain ⟨p, hp⟩ := Option.ne_none_iff_exists'.mp (h.zombie hi)
  have hmem := h.listed hp
  have hu := (hf.children_used (List.ne_nil_of_mem hmem)).resolve_right nofun
  exact ⟨hi, p, hp, hmem, live hf hc hu⟩

lemma kept (hf : Forest n none s) (h : Rooted s) (hc : Company s) (hi : i < n) : Kept s i where
  some := by
    cases hs : (s.procs i).status with
    | unused => exact .inl ((hf.mem_free i).mpr ⟨hi, hs⟩)
    | used => exact .inr (.inl (live hf hc hs))
    | zombie => exact .inr (.inr (h.reapable hf hc hs))
  not_free hor hmem := by
    have hs := ((hf.mem_free i).mp hmem).2
    obtain ⟨hu, -⟩ | ⟨hz, -⟩ := hor
    · cases hs.symm.trans hu
    · cases hs.symm.trans hz
  not_live hr hl := by cases hl.1.symm.trans hr.1

variable [DecidableEq T]

lemma destroy {code : BitVec 32} (hf : Forest n none s) (h : Rooted s) (ht : s.pc t = .recycled code)
    (hp : (s.procs (s.proc t)).parent ≠ none)
    (hc : ∀ c ∈ (s.procs (s.proc t)).children, (s.procs c).status = .zombie) :
    Rooted ((s.leave t).procDestroy (s.proc t) code) := by
  refine hf.procDestroy (P := fun s' => Rooted s' ∧
    ∀ c ∈ (s'.procs (s.proc t)).children, (s'.procs c).status = .zombie) ht ?_ ?_ ?_ ?_
  · obtain ⟨hl, hz⟩ := h
    refine ⟨⟨?_, ?_⟩, ?_⟩ <;> simp only [State.bury, State.leave, State.goto, State.modify] <;> grind
  · rintro s' c hf' hmem ⟨h', hz'⟩
    have hne := (hf'.listed hmem).1
    have hcz := hz' c hmem
    have hnodup := hf'.children_nodup (s.proc t)
    obtain ⟨hl, hz⟩ := h'
    have hif : ((s'.listRemove (s.proc t) c).procs c).status = .zombie :=
      (congrArg Proc.status (State.modify_ne hne)).trans hcz
    unfold State.dropChild
    dsimp only
    rw [if_pos hif]
    refine ⟨⟨?_, ?_⟩, ?_⟩ <;> simp only [State.procFree, State.listRemove, State.modify] <;> grind
  · rintro s' - ⟨h', -⟩
    exact h'.congr (fun _ => id) (fun _ => rfl) fun _ => rfl
  · intro s' j h'
    exact h'.congr (fun _ => id) (fun _ => rfl) fun _ => rfl

lemma waitExit (h : Rooted s) (w : Call) (c : ℕ) : Rooted (s.waitExit t w c) := by
  obtain ⟨hl, hz⟩ := h
  constructor <;> simp only [State.waitExit, State.unlink, State.ret, State.goto, State.procFree,
    State.modify] <;> grind

theorem effect {ev : Event T} (hf : Forest n none s) (h : Rooted s) (hok : Childless s ev) (he : Effect s ev s') :
    Rooted s' := by
  cases he with
  | idle => exact h
  | panic => exact h.congr (fun _ => id) (fun _ => rfl) fun _ => rfl
  | create hfree htd =>
    refine h.congr (fun i hi => ?_) (fun i => ?_) fun i => ?_ <;>
      simp only [State.procAddtd, State.procAlloc, State.modify] at * <;> grind
  | fork hfree ht =>
    refine h.congr (fun i hi => ?_) (fun i => ?_) fun i => ?_ <;>
      simp only [State.goto, State.procAlloc, State.modify] at * <;> grind
  | child ht htd =>
    have := hf.forking ht
    constructor <;> simp only [State.goto, State.procAddtd, State.link,
      State.modify] at * <;> grind [h.listed, h.zombie]
  | spawn ht htd =>
    refine h.congr (fun i hi => ?_) (fun i => ?_) fun i => ?_ <;>
      simp only [State.procAddtd, State.modify] at * <;> grind
  | exit ht => exact h.congr (fun _ => id) (fun _ => rfl) fun _ => rfl
  | recycle ht =>
    refine h.congr (fun i hi => ?_) (fun i => ?_) fun i => ?_ <;>
      simp only [State.goto, State.modify] at * <;> grind
  | leave ht =>
    refine h.congr (fun i hi => ?_) (fun i => ?_) fun i => ?_ <;>
      simp only [State.leave, State.goto, State.modify] at * <;> grind
  | destroy ht =>
    obtain ⟨hp, hc⟩ := hok (by rw [ht]; rfl)
    exact h.destroy hf ht hp hc
  | echild hc => exact h.congr (fun _ => id) (fun _ => rfl) fun _ => rfl
  | nohang hc => exact h.congr (fun _ => id) (fun _ => rfl) fun _ => rfl
  | sleepAny hc => exact h.congr (fun _ => id) (fun _ => rfl) fun _ => rfl
  | sleepFor hc => exact h.congr (fun _ => id) (fun _ => rfl) fun _ => rfl
  | reapAny hc => exact h.waitExit _ _
  | reap hc => exact h.waitExit _ _

end Rooted

variable [DecidableEq T]

theorem no_slot_lost (n : ℕ) (evs : List (Event T))
    (hev : Meets step (fun s ev => Apart s ev ∧ Childless s ev) (init n) evs) {i : ℕ} (hi : i < n) :
    Kept (run (init n) evs) i := by
  have h := hev.invariant (P := fun s => Forest n none s ∧ Company s ∧ Rooted s)
    ⟨.start n, .start n, nofun, nofun⟩ fun s ev h hok =>
      ⟨h.1.effect (step_effect s ev), h.2.1.effect h.1 hok.1 (step_effect s ev),
        h.2.2.effect h.1 hok.2 (step_effect s ev)⟩
  exact h.2.2.kept h.1 h.2.1 hi

attribute [local instance] raceNeZero

local instance orphanNeZero : NeZero 3 := ⟨three_ne_zero⟩

def orphaned : List (Event (Fin 3)) :=
  [.create 0, .fork 0, .child 0 1, .fork 1, .child 1 2, .exit 1 0, .run 1, .run 1, .exit 2 0, .run 2, .run 2]

theorem orphan_slot_lost : ¬ Kept (run (init 3) orphaned) 2 := by
  have hz : ((run (init 3) orphaned).procs 2).status = .zombie := by decide +kernel
  have hp : ((run (init 3) orphaned).procs 2).parent = some 0 := by decide +kernel
  intro h
  obtain hfree | ⟨hu, -⟩ | ⟨-, p, hp', hmem, -⟩ := h.some
  · have hnot : 2 ∉ (run (init 3) orphaned).freelist := by decide +kernel
    exact hnot hfree
  · cases hz.symm.trans hu
  · cases hp.symm.trans hp'
    have hnot : 2 ∉ ((run (init 3) orphaned).procs 0).children := by decide +kernel
    exact hnot hmem

def unreaped : List (Event (Fin 2)) :=
  [.create 0, .fork 0, .child 0 1, .exit 1 0, .run 1, .run 1]

theorem zombie_slot_kept : ((run (init 2) unreaped).procs 1).status = .zombie ∧ Kept (run (init 2) unreaped) 1 :=
  ⟨by decide +kernel, no_slot_lost 2 unreaped (by decide +kernel) (by decide)⟩

end FarmOS.Process

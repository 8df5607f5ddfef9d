import FarmOS.Proc.Calm
import FarmOS.Proc.Outline

/-! No CPU panics while the threads keep the rules of the spin locks and fail no assertion of their own. -/

namespace FarmOS.Proc

open Lib

variable {C T X Ch L G E : Type} [DecidableEq C] [Fintype C] [DecidableEq T] [DecidableEq X] [DecidableEq Ch]
  {cl : Client T X Ch L G E} {s : State C T X Ch L G} {held : L → List X} {S : Call → Prop}

structure Quiet (held : L → List X) (S : Call → Prop) (s : State C T X Ch L G) : Prop where
  noted : Noted held s
  placed : ∃ place, Inv s place
  alive : Alive s
  call (c : C) (k : Call) : (s.pos c).call = some k → S k
  calm (c : C) : s.stop c ≠ some .panic

variable (hd : cl.Disciplined held) (hcl : cl.Only S) (hS : ¬ S .tdFork ∧ ¬ S .tdDestroy ∧ ¬ S .wakeupTd)
  (hfail : ∀ t l g e, cl.act t l g e ≠ .fail)
include hd hS hfail

lemma Quiet.stmt_calm (h : Quiet held S s) (c : C) (e : E) : (stmt cl s c e).Calm (s.held c) := by
  obtain ⟨place, hi⟩ := h.placed
  have hn := h.noted.pos c
  have hcall := h.call c
  rw [stmt, State.held]
  cases hp : s.pos c with
  | thread t k =>
    rw [hp] at hn hcall
    exact threadStmt_calm hi hd hp hn (fun hk => hS.1 (hcall _ hk)) (fun hk => h.alive.pos hp (hk ▸ rfl))
      fun _ l _ => hfail t l _ e
  | own o =>
    rw [hp] at hn
    exact ownStmt_calm hi hp hn

include hcl

lemma Quiet.step (h : Quiet held S s) (c : C) (e : E) : Quiet held S (step cl s (c, e)) := by
  obtain ⟨place, hi⟩ := h.placed
  exact
    { noted := h.noted.step hd c e
      placed := hi.step cl c e fun t td hs l hp => absurd (h.call c .wakeupTd (by rw [hp]; rfl)) hS.2.2
      alive := h.alive.step hi hcl hS (h.call c)
      call := hi.locked.next (stmt_call hcl (h.call c)) h.call
      calm := hi.locked.calm (h.stmt_calm hd hS hfail c e) h.calm }

theorem disciplined_threads_never_panic (glob : G) {created free : List T} (hnodup : (created ++ free).Nodup)
    (hall : ∀ t, t ∈ created ++ free) (evs : List (C × E)) (c : C) :
    (run cl (start cl glob created free) evs).stop c ≠ some .panic := by
  refine (run_invariant (P := Quiet held S) ?_ (fun s c e h => h.step hd hcl hS hfail c e) evs).calm c
  exact
    { noted := .start hd glob created free
      placed := ⟨_, .start cl glob hnodup hall⟩
      alive := .start cl glob created free
      call := by simp [start, Pos.call]
      calm := by simp [start] }

omit hd hcl hS hfail

def sleeping : Client (Fin 3) Unit Unit ℕ Unit Unit where
  entry := 0
  act _ l _ _ :=
    match l with
    | 0 => .mtxLock () 1
    | 1 => .sleep () () 2
    | _ => .rest
  interrupt _ := none

lemma sleeping_disciplined : sleeping.Disciplined fun l => if l = 0 then [] else [()] := by
  constructor
  case entry => rfl
  case wakeupTd => rintro _ _ (_ | _ | l) <;> simp [sleeping]
  all_goals rintro _ (_ | _ | l) <;> simp +contextual [sleeping]

theorem sleeping_threads_never_panic :
    (run sleeping (start sleeping () [0, 1, 2] []) (turns [(0, 7), (0, 17)])).store.sleepq = [0] ∧
      (run sleeping (start sleeping () [0, 1, 2] []) (turns [(0, 7), (0, 17)])).stop 0 ≠ some .panic := by
  refine ⟨by decide +kernel, disciplined_threads_never_panic (S := (· = .sleep)) sleeping_disciplined ?_ (by simp) ?_ ()
    (by decide) (by decide) _ 0⟩
  · rintro _ (_ | _ | l) _ _ k hk <;> cases hk
    rfl
  · rintro _ (_ | _ | l) _ _ <;> simp [sleeping]

end FarmOS.Proc

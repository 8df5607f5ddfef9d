import FarmOS.Proc.Monitor

/-! Threads that wait for a condition with `sleep` and announce it with `wakeup`, all under one spin lock. -/

set_option linter.unusedSectionVars false

namespace FarmOS.Proc

open Lib

structure Condition (T G A : Type) where
  holds : G → Bool
  consume : T → A → G → G
  establish : T → A → G → G
  holds_establish (t : T) (a : A) (g : G) : holds (establish t a g) = true

inductive Errand
  | wait | notify | yield | fork | exit | pause

structure Turn (Ch A : Type) where
  errand : Errand
  arg : A
  interrupt : Option Ch

namespace Notify

inductive Loc
  | outside | test | set | announce | leave

def act {T X Ch G A : Type} (p : Condition T G A) (m : X) (chan : Ch) (t : T) (l : Loc) (g : G) (e : Turn Ch A) :
    Do T X Ch Loc G :=
  match l with
  | .outside =>
    match e.errand with
    | .wait => .mtxLock m .test
    | .notify => .mtxLock m .set
    | .yield => .yield .outside
    | .fork => .tdFork .outside
    | .exit => .tdDestroy
    | .pause => .rest
  | .test => if p.holds g then .compute .leave (p.consume t e.arg g) else .sleep chan m .test
  | .set => .compute .announce (p.establish t e.arg g)
  | .announce => .wakeup chan .leave
  | .leave => .mtxUnlock m .outside

def client {T X Ch G A : Type} (p : Condition T G A) (m : X) (chan : Ch) : Client T X Ch Loc G (Turn Ch A) where
  entry := .outside
  act := act p m chan
  interrupt e := e.interrupt

def held {X : Type} (m : X) : Loc → List X
  | .outside => []
  | _ => [m]

variable {C T X Ch G A : Type} [DecidableEq C] [Fintype C] [DecidableEq T] [DecidableEq X] [DecidableEq Ch]
  {p : Condition T G A} {m : X} {chan : Ch}

inductive Does (p : Condition T G A) (m : X) (chan : Ch) (t : T) (g : G) : Loc → Do T X Ch Loc G → Prop
  | wait : Does p m chan t g .outside (.mtxLock m .test)
  | notify : Does p m chan t g .outside (.mtxLock m .set)
  | yield : Does p m chan t g .outside (.yield .outside)
  | fork : Does p m chan t g .outside (.tdFork .outside)
  | exit : Does p m chan t g .outside .tdDestroy
  | pause : Does p m chan t g .outside .rest
  | consume (a : A) : p.holds g = true → Does p m chan t g .test (.compute .leave (p.consume t a g))
  | sleep : p.holds g = false → Does p m chan t g .test (.sleep chan m .test)
  | establish (a : A) : Does p m chan t g .set (.compute .announce (p.establish t a g))
  | announce : Does p m chan t g .announce (.wakeup chan .leave)
  | leave : Does p m chan t g .leave (.mtxUnlock m .outside)

lemma act_does (p : Condition T G A) (m : X) (chan : Ch) (t : T) (l : Loc) (g : G) (e : Turn Ch A) :
    Does p m chan t g l (act p m chan t l g e) := by
  cases l with
  | outside =>
    obtain ⟨errand, arg, interrupt⟩ := e
    cases errand <;> constructor
  | test =>
    rw [act]
    split_ifs with hg
    · exact .consume e.arg hg
    · exact .sleep (Bool.eq_false_iff.mpr hg)
  | set => exact .establish e.arg
  | announce => exact .announce
  | leave => exact .leave

lemma client_does {t : T} {l : Loc} {g : G} {e : Turn Ch A} {d : Do T X Ch Loc G}
    (h : (client p m chan).act t l g e = d) : Does p m chan t g l d := h ▸ act_does p m chan t l g e

lemma client_only : (client p m chan).Only (· ≠ .wakeupTd) := by
  intro t l g e k hk
  have hd := act_does p m chan t l g e
  rintro rfl
  change (act p m chan t l g e).call = _ at hk
  generalize act p m chan t l g e = d at hd hk
  cases hd <;> cases hk

lemma client_disciplined : (client p m chan).Disciplined (held m) where
  entry := rfl
  mtxLock h := by cases client_does h <;> exact ⟨nofun, rfl⟩
  mtxUnlock h := by cases client_does h; simp [held]
  sleep h := by cases client_does h; exact ⟨rfl, rfl⟩
  yield h := by cases client_does h; exact ⟨rfl, rfl⟩
  wakeup h := by cases client_does h; rfl
  wakeupTd h := by cases client_does h
  tdFork h := by cases client_does h; rfl
  tdDestroy h := by cases client_does h; rfl
  compute h := by cases client_does h <;> rfl

lemma client_monitor (p : Condition T G A) (m : X) (chan : Ch) :
    Monitor (client p m chan) (held m) (fun _ _ _ _ => True) m chan (fun _ g => p.holds g = true) (· = .announce) where
  disciplined := client_disciplined
  sleep _ h := by
    cases client_does h with
    | sleep hg => exact ⟨rfl, Bool.eq_false_iff.mp hg⟩
  guarded _ h := by cases client_does h <;> exact .inl List.mem_cons_self
  announced _ h hor _ := by
    cases client_does h with
    | establish a => rfl
    | consume a hg => exact hor.elim nofun fun hn => absurd hg hn
  due_held := by
    rintro _ rfl
    exact List.mem_cons_self
  due_serves := by
    rintro _ _ _ _ rfl
    rfl

def Announcing (chan : Ch) : Pos T X Ch Loc → Prop
  | .thread _ (.user _ .announce) => True
  | .thread _ (.wakeup w _ _) => w.chan = chan
  | _ => False

lemma announcing_of_due {q : Pos T X Ch Loc} (h : q.Due m chan (· = .announce)) : Announcing chan q := by
  cases q with
  | own o => exact h
  | thread t k =>
    cases k with
    | user hs l =>
      obtain rfl : l = .announce := h
      trivial
    | wakeup w hs l => exact h.1
    | _ => exact h

theorem no_wakeup_lost (p : Condition T G A) (m : X) (chan : Ch) (glob : G) (created free : List T)
    (hnodup : (created ++ free).Nodup) (hall : ∀ t, t ∈ created ++ free) (evs : List (C × Turn Ch A)) (t : T)
    (hcond : p.holds (run (client p m chan) (start (client p m chan) glob created free) evs).store.glob = true)
    (hsleep : t ∈ (run (client p m chan) (start (client p m chan) glob created free) evs).store.sleepq)
    (hchan : (run (client p m chan) (start (client p m chan) glob created free) evs).store.wchan t = some chan) :
    ∃ c, Announcing chan ((run (client p m chan) (start (client p m chan) glob created free) evs).pos c) := by
  have h := (client_monitor p m chan).run client_only (not_not.mpr rfl) glob hnodup hall evs
  by_contra hne
  exact (h.watched.off hcond fun c hc => hne ⟨c, announcing_of_due hc⟩).asleep ⟨hsleep, hchan⟩

def flag : Condition (Fin 2) Bool Unit := ⟨id, fun _ _ _ => false, fun _ _ _ => true, fun _ _ _ => rfl⟩

def raised : List (Fin 2 × Turn Unit Unit) :=
  List.replicate 14 (0, ⟨.wait, (), none⟩) ++ List.replicate 9 (1, ⟨.notify, (), none⟩)

theorem raised_announcing :
    ∃ c, Announcing () ((run (client flag () ()) (start (client flag () ()) false [0, 1] []) raised).pos c) :=
  no_wakeup_lost flag () () false [0, 1] [] (by decide) (by decide) raised 0 (by decide +kernel) (by decide +kernel)
    (by decide +kernel)

end Notify

end FarmOS.Proc

import FarmOS.Proc.Calm
import FarmOS.Proc.Outline

/-! Sleep mutexes of `kern/lock/mutex.c`: `mtx_lock_sleep` and `mtx_unlock_sleep` on one mutex that may be
re-entered. -/

set_option linter.unusedSectionVars false

namespace FarmOS.Proc.Mutex

open Lib Nat List

structure Fields (T : Type) where
  owner : Option T
  depth : ℕ
deriving DecidableEq

inductive Errand
  | lock | unlock | yield | pause

structure Turn (Ch : Type) where
  errand : Errand
  interrupt : Option Ch

-- `n` is the number of lock calls that have returned, less the unlock calls that have.
inductive Loc
  | outside (n : ℕ)
  | lockCheck (n : ℕ) | reenter (n : ℕ) | lockWait (n : ℕ) | claim (n : ℕ) | setDepth (n : ℕ) | lockExit (n : ℕ)
  | unlockCheck (n : ℕ) | reduce (n : ℕ) | disown (n : ℕ) | clearDepth (n : ℕ) | announce (n : ℕ) | unlockExit (n : ℕ)

section

variable {T X Ch : Type} [DecidableEq T]

def act (m : X) (chan : Ch) (t : T) (l : Loc) (g : Fields T) (e : Turn Ch) : Do T X Ch Loc (Fields T) :=
  match l with
  | .outside n =>
    match e.errand with
    | .lock => if n + 1 < 256 then .mtxLock m (.lockCheck n) else .rest
    | .unlock => if 0 < n then .mtxLock m (.unlockCheck n) else .rest
    | .yield => .yield (.outside n)
    | .pause => .rest
  -- mtx_lock_sleep
  | .lockCheck n => if g.owner = some t then .compute (.reenter n) g else .compute (.lockWait n) g
  | .reenter n => .compute (.lockExit n) { g with depth := (g.depth + 1) % 256 }
  | .lockWait n => if g.owner = none then .compute (.claim n) g else .sleep chan m (.lockWait n)
  | .claim n => .compute (.setDepth n) { g with owner := some t }
  | .setDepth n => .compute (.lockExit n) { g with depth := 1 }
  | .lockExit n => .mtxUnlock m (.outside (n + 1))
  -- mtx_unlock_sleep
  | .unlockCheck n =>
    if g.owner ≠ some t then .fail
    else if g.depth = 0 then .fail
    else if 1 < g.depth then .compute (.reduce n) g
    else .compute (.disown n) g
  | .reduce n => .compute (.unlockExit n) { g with depth := g.depth - 1 }
  | .disown n => .compute (.clearDepth n) { g with owner := none }
  | .clearDepth n => .compute (.announce n) { g with depth := 0 }
  | .announce n => .wakeup chan (.unlockExit n)
  | .unlockExit n => .mtxUnlock m (.outside (n - 1))

def client (m : X) (chan : Ch) : Client T X Ch Loc (Fields T) (Turn Ch) where
  entry := .outside 0
  act := act m chan
  interrupt e := e.interrupt

def held (m : X) : Loc → List X
  | .outside _ => []
  | _ => [m]

inductive Does (m : X) (chan : Ch) (t : T) (g : Fields T) : Loc → Do T X Ch Loc (Fields T) → Prop
  | lock {n : ℕ} : n + 1 < 256 → Does m chan t g (.outside n) (.mtxLock m (.lockCheck n))
  | unlock {n : ℕ} : 0 < n → Does m chan t g (.outside n) (.mtxLock m (.unlockCheck n))
  | yield {n : ℕ} : Does m chan t g (.outside n) (.yield (.outside n))
  | pause {n : ℕ} : Does m chan t g (.outside n) .rest
  | owned {n : ℕ} : g.owner = some t → Does m chan t g (.lockCheck n) (.compute (.reenter n) g)
  | other {n : ℕ} : g.owner ≠ some t → Does m chan t g (.lockCheck n) (.compute (.lockWait n) g)
  | reenter {n : ℕ} : Does m chan t g (.reenter n) (.compute (.lockExit n) { g with depth := (g.depth + 1) % 256 })
  | empty {n : ℕ} : g.owner = none → Does m chan t g (.lockWait n) (.compute (.claim n) g)
  | sleep {n : ℕ} : g.owner ≠ none → Does m chan t g (.lockWait n) (.sleep chan m (.lockWait n))
  | claim {n : ℕ} : Does m chan t g (.claim n) (.compute (.setDepth n) { g with owner := some t })
  | setDepth {n : ℕ} : Does m chan t g (.setDepth n) (.compute (.lockExit n) { g with depth := 1 })
  | lockExit {n : ℕ} : Does m chan t g (.lockExit n) (.mtxUnlock m (.outside (n + 1)))
  | fail {n : ℕ} : g.owner ≠ some t ∨ g.depth = 0 → Does m chan t g (.unlockCheck n) .fail
  | nested {n : ℕ} : 1 < g.depth → Does m chan t g (.unlockCheck n) (.compute (.reduce n) g)
  | outermost {n : ℕ} : g.depth ≤ 1 → Does m chan t g (.unlockCheck n) (.compute (.disown n) g)
  | reduce {n : ℕ} : Does m chan t g (.reduce n) (.compute (.unlockExit n) { g with depth := g.depth - 1 })
  | disown {n : ℕ} : Does m chan t g (.disown n) (.compute (.clearDepth n) { g with owner := none })
  | clearDepth {n : ℕ} : Does m chan t g (.clearDepth n) (.compute (.announce n) { g with depth := 0 })
  | announce {n : ℕ} : Does m chan t g (.announce n) (.wakeup chan (.unlockExit n))
  | unlockExit {n : ℕ} : Does m chan t g (.unlockExit n) (.mtxUnlock m (.outside (n - 1)))

lemma act_does (m : X) (chan : Ch) (t : T) (l : Loc) (g : Fields T) (e : Turn Ch) :
    Does m chan t g l (act m chan t l g e) := by
  cases l with
  | outside n =>
    obtain ⟨errand, interrupt⟩ := e
    cases errand with
    | lock =>
      simp only [act]
      split_ifs with h
      · exact .lock h
      · exact .pause
    | unlock =>
      simp only [act]
      split_ifs with h
      · exact .unlock h
      · exact .pause
    | yield => exact .yield
    | pause => exact .pause
  | lockCheck n =>
    rw [act]
    split_ifs with h
    · exact .owned h
    · exact .other h
  | lockWait n =>
    rw [act]
    split_ifs with h
    · exact .empty h
    · exact .sleep h
  | unlockCheck n =>
    rw [act]
    split_ifs with h1 h2 h3
    · exact .fail (.inl h1)
    · exact .fail (.inr h2)
    · exact .nested h3
    · exact .outermost (not_lt.mp h3)
  | reenter | claim | setDepth | lockExit | reduce | disown | clearDepth | announce | unlockExit => constructor

variable {m : X} {chan : Ch} {t u : T} {l l' : Loc} {g g' : Fields T} {e : Turn Ch} {n : ℕ}

lemma client_does {d : Do T X Ch Loc (Fields T)} (h : (client m chan).act t l g e = d) : Does m chan t g l d :=
  h ▸ act_does m chan t l g e

def Calls (k : Call) : Prop := k = .sleep ∨ k = .yield ∨ k = .wakeup

lemma client_only : (client m chan : Client T X Ch Loc (Fields T) (Turn Ch)).Only Calls := by
  intro t l g e k hk
  have hd := act_does m chan t l g e
  change (act m chan t l g e).call = _ at hk
  generalize act m chan t l g e = d at hd hk
  cases hd <;> cases hk
  · exact .inr (.inl rfl)
  · exact .inl rfl
  · exact .inr (.inr rfl)

variable [DecidableEq X] {ph : Phase Ch}

lemma client_disciplined : (client m chan : Client T X Ch Loc (Fields T) (Turn Ch)).Disciplined (held m) where
  entry := rfl
  mtxLock h := by cases client_does h <;> exact ⟨nofun, rfl⟩
  mtxUnlock h := by cases client_does h <;> simp [held]
  sleep h := by cases client_does h; exact ⟨rfl, rfl⟩
  yield h := by cases client_does h; exact ⟨rfl, rfl⟩
  wakeup h := by cases client_does h; rfl
  wakeupTd h := by cases client_does h
  tdFork h := by cases client_does h
  tdDestroy h := by cases client_does h
  compute h := by cases client_does h <;> rfl

def Releasing : Loc → Prop
  | .clearDepth _ | .announce _ => True
  | _ => False

lemma client_monitor (m : X) (chan : Ch) :
    Monitor (client m chan : Client T X Ch Loc (Fields T) (Turn Ch)) (held m) (fun _ _ _ _ => True) m chan
      (fun _ g => g.owner = none) Releasing where
  disciplined := client_disciplined
  sleep _ h := by
    cases client_does h with
    | sleep hg => exact ⟨rfl, hg⟩
  guarded _ h := by cases client_does h <;> exact .inl mem_cons_self
  announced _ h hor hg := by
    cases client_does h with
    | disown | clearDepth => trivial
    | claim => cases hg
    | _ => exact absurd hg (hor.resolve_left id)
  due_held {l} h := by cases l <;> first | exact absurd h id | exact mem_cons_self
  due_serves {t l g e} h := by cases l <;> first | exact absurd h id | trivial

def Loc.level : Loc → ℕ
  | .outside n | .lockCheck n | .reenter n | .lockWait n | .claim n | .setDepth n | .unlockCheck n | .reduce n
  | .disown n => n
  | .lockExit n => n + 1
  | .clearDepth n | .announce n | .unlockExit n => n - 1

structure Owns (t : T) (n : ℕ) (g : Fields T) : Prop where
  pos : 0 < n → g.owner = some t ∧ g.depth = n
  zero : n = 0 → g.owner ≠ some t

def assertion (t : T) : Loc → Fields T → Prop
  | .outside n, g => n < 256 ∧ Owns t n g
  | .lockCheck n, g => n + 1 < 256 ∧ Owns t n g
  | .reenter n, g => 0 < n ∧ n + 1 < 256 ∧ Owns t n g
  | .lockWait n, g => n = 0 ∧ Owns t n g
  | .claim n, g => n = 0 ∧ g.owner = none
  | .setDepth n, g => n = 0 ∧ g.owner = some t
  | .lockExit n, g => n + 1 < 256 ∧ Owns t (n + 1) g
  | .unlockCheck n, g => 0 < n ∧ n < 256 ∧ Owns t n g
  | .reduce n, g => 1 < n ∧ n < 256 ∧ Owns t n g
  | .disown n, g => n = 1 ∧ Owns t n g
  | .clearDepth n, g => n = 1 ∧ g.owner = none
  | .announce n, g => n = 1 ∧ Owns t 0 g
  | .unlockExit n, g => 0 < n ∧ n < 256 ∧ Owns t (n - 1) g

lemma Owns.mk_pos (h : g.owner = some t) (hd : g.depth = n) (hn : 0 < n) : Owns t n g :=
  ⟨fun _ => ⟨h, hd⟩, fun h0 => absurd h0 hn.ne'⟩

lemma Owns.mk_zero (h : g.owner ≠ some t) : Owns t 0 g := ⟨fun h0 => absurd h0 (lt_irrefl 0), fun _ => h⟩

lemma Owns.keep (h : Owns t n g) (hg : g.owner ≠ some t) (hg' : g'.owner ≠ some t) : Owns t n g' := by
  rcases Nat.eq_zero_or_pos n with rfl | hn
  · exact .mk_zero hg'
  · exact absurd (h.pos hn).1 hg

def Assertion (t : T) (l : Loc) (ph : Phase Ch) (g : Fields T) : Prop :=
  assertion t l g ∧ (¬ ph.Holds → ∃ n, l = .lockWait n)

lemma act_sleeps (hl : (act m chan t l g e).loc = some (l', ph)) (hph : ¬ ph.Holds) : ∃ n, l' = .lockWait n := by
  have hd := act_does m chan t l g e
  generalize act m chan t l g e = d at hd hl
  cases hd <;> cases hl <;> first | exact ⟨_, rfl⟩ | exact absurd trivial hph

lemma assertion_act (h : assertion t l g) (hl : (act m chan t l g e).loc = some (l', ph)) :
    assertion t l' ((act m chan t l g e).glob g) := by
  have hd := act_does m chan t l g e
  generalize act m chan t l g e = d at hd hl
  cases hd <;> cases hl
  case lock hn => exact ⟨hn, h.2⟩
  case unlock hn => exact ⟨hn, h⟩
  case yield => exact h
  case owned n hg =>
    refine ⟨Nat.pos_of_ne_zero fun h0 => h.2.zero h0 hg, h⟩
  case other n hg =>
    have hn : n = 0 := Nat.eq_zero_of_not_pos fun hn => hg (h.2.pos hn).1
    exact ⟨hn, h.2⟩
  case reenter n =>
    obtain ⟨hn, hlt, ho⟩ := h
    obtain ⟨howner, hdepth⟩ := ho.pos hn
    exact ⟨hlt, .mk_pos howner (by rw [Do.glob, hdepth, mod_eq_of_lt hlt]) n.succ_pos⟩
  case empty n hg => exact ⟨h.1, hg⟩
  case sleep n hg => exact h
  case claim n => exact ⟨h.1, rfl⟩
  case setDepth n =>
    obtain ⟨rfl, howner⟩ := h
    exact ⟨by decide, .mk_pos howner rfl one_pos⟩
  case lockExit n => exact h
  case nested n hg =>
    obtain ⟨hn, hlt, ho⟩ := h
    exact ⟨(ho.pos hn).2 ▸ hg, hlt, ho⟩
  case outermost n hg =>
    obtain ⟨hn, hlt, ho⟩ := h
    exact ⟨le_antisymm ((ho.pos hn).2 ▸ hg) hn, ho⟩
  case reduce n =>
    obtain ⟨hn, hlt, ho⟩ := h
    obtain ⟨howner, hdepth⟩ := ho.pos (Nat.zero_lt_of_lt hn)
    exact ⟨Nat.zero_lt_of_lt hn, hlt, .mk_pos howner (by rw [Do.glob, hdepth]) (Nat.sub_pos_of_lt hn)⟩
  case disown n => exact ⟨h.1, rfl⟩
  case clearDepth n => exact ⟨h.1, .mk_zero (by rw [Do.glob, h.2]; exact nofun)⟩
  case announce n =>
    obtain ⟨rfl, ho⟩ := h
    exact ⟨one_pos, by decide, ho⟩
  case unlockExit n => exact ⟨(sub_le n 1).trans_lt h.2.1, h.2.2⟩

lemma assertion_compute (hne : t ≠ u) (h : assertion u l g) (ha : Does m chan u g l (.compute l' g')) :
    g' = g ∨ g.owner ≠ some t ∧ g'.owner ≠ some t := by
  have hu : ∀ {g : Fields T}, g.owner = some u → g.owner ≠ some t := fun hg ht =>
    hne (Option.some.inj (ht.symm.trans hg))
  have hnone : ∀ {g : Fields T}, g.owner = none → g.owner ≠ some t := fun hg ht => by
    rw [hg] at ht
    cases ht
  cases ha with
  | owned | other | empty | nested | outermost => exact .inl rfl
  | reenter | reduce =>
    have ho := (h.2.2.pos (Nat.zero_lt_of_lt h.1)).1
    exact .inr ⟨hu ho, hu ho⟩
  | claim => exact .inr ⟨hnone h.2, hu rfl⟩
  | setDepth => exact .inr ⟨hu h.2, hu h.2⟩
  | disown =>
    obtain ⟨rfl, ho⟩ := h
    exact .inr ⟨hu (ho.pos one_pos).1, hnone rfl⟩
  | clearDepth => exact .inr ⟨hnone h.2, hnone h.2⟩

lemma client_outline (m : X) (chan : Ch) :
    Outline (client m chan : Client T X Ch Loc (Fields T) (Turn Ch)) (held m) (fun _ _ _ _ => True) Assertion where
  act _ h hl := ⟨assertion_act h.1 hl, act_sleeps hl⟩
  resume h := ⟨h.1, absurd trivial⟩
  finish h := ⟨h.1, absurd trivial⟩
  wakeup h _ := ⟨h.1, fun _ => h.2 id⟩
  interrupt h _ := ⟨h.1, fun _ => h.2 id⟩
  stable {t u l m1 m2 ph g g' e} hne _ h hu ha hout := by
    have hd := client_does ha
    refine ⟨?_, h.2⟩
    rcases assertion_compute hne hu.1 hd with rfl | ⟨hg, hg'⟩
    · exact h.1
    · have hm : m ∈ held m m1 := by cases hd <;> exact mem_cons_self
      by_cases hph : ph.Holds
      · cases l with
        | outside n => exact ⟨h.1.1, h.1.2.keep hg hg'⟩
        | _ => exact absurd hm (hout hph m mem_cons_self)
      · obtain ⟨n, rfl⟩ := h.2 hph
        exact ⟨h.1.1, h.1.2.keep hg hg'⟩

lemma assertion_level (h : assertion t l g) (hl : 0 < l.level) : g.owner = some t ∧ g.depth = l.level := by
  cases l with
  | outside n | lockCheck n | lockExit n => exact h.2.pos hl
  | reenter n | unlockCheck n | reduce n | unlockExit n => exact h.2.2.pos hl
  | lockWait n | disown n => exact h.2.pos hl
  | claim n | setDepth n => exact absurd h.1 hl.ne'
  | clearDepth n | announce n =>
    obtain ⟨rfl, -⟩ := h
    exact absurd hl (lt_irrefl 0)

lemma assertion_no_fail (h : assertion t l g) : (client m chan).act t l g e ≠ .fail := by
  intro hf
  cases client_does hf with
  | fail hg =>
    obtain ⟨hn, -, ho⟩ := h
    obtain ⟨howner, hdepth⟩ := ho.pos hn
    exact hg.elim (fun hx => hx howner) fun hx => hn.ne' (hdepth.symm.trans hx)

end

variable {C T X Ch : Type} [DecidableEq C] [Fintype C] [DecidableEq T] [DecidableEq X] [DecidableEq Ch]

structure Good (m : X) (chan : Ch) (s : State C T X Ch Loc (Fields T)) : Prop where
  monitored : Monitored (held m) m chan (fun _ g => g.owner = none) Releasing s
  outlined : Outlined Assertion s
  interrupted : Interrupted (client m chan) s
  alive : Alive s
  call (c : C) (k : Call) : (s.pos c).call = some k → Calls k
  calm (c : C) : s.stop c ≠ some .panic

variable {m : X} {chan : Ch} {s : State C T X Ch Loc (Fields T)}

lemma Good.stmt_calm (h : Good m chan s) (c : C) (e : Turn Ch) : (stmt (client m chan) s c e).Calm (s.held c) := by
  obtain ⟨place, hi⟩ := h.monitored.placed
  have hn := h.monitored.noted.pos c
  have hcall := h.call c
  rw [stmt, State.held]
  cases hp : s.pos c with
  | thread t k =>
    rw [hp] at hn hcall
    refine threadStmt_calm hi client_disciplined hp hn (fun hk => ?_) (fun hk => ?_) ?_
    · exact absurd (hcall _ hk) (by simp [Calls])
    · exact h.alive.pos hp (hk ▸ rfl)
    · rintro hs l rfl
      exact assertion_no_fail (h.outlined.holds (.cpu hp rfl)).1
  | own o =>
    rw [hp] at hn
    exact ownStmt_calm hi hp hn

lemma Good.step (h : Good m chan s) (c : C) (e : Turn Ch) : Good m chan (step (client m chan) s (c, e)) := by
  obtain ⟨place, hi⟩ := h.monitored.placed
  have hS : ¬ Calls .tdFork ∧ ¬ Calls .tdDestroy ∧ ¬ Calls .wakeupTd := by simp [Calls]
  have hprompt : Prompt s c := fun t td hs l hp => absurd (h.call c .wakeupTd (by rw [hp]; rfl)) (by simp [Calls])
  exact
    { monitored := h.monitored.step (client_monitor m chan) c e hprompt
      outlined := h.outlined.step (client_outline m chan) h.monitored.noted h.interrupted (fun _ => trivial)
        (hi.turned client_only hS (h.call c))
      interrupted := h.interrupted.step hi client_only hS (h.call c)
      alive := h.alive.step hi client_only hS (h.call c)
      call := hi.locked.next (stmt_call client_only (h.call c)) h.call
      calm := hi.locked.calm (h.stmt_calm c e) h.calm }

lemma Good.run {created free : List T} (hn : (created ++ free).Nodup) (ha : ∀ t, t ∈ created ++ free)
    (evs : List (C × Turn Ch)) : Good m chan (run (client m chan) (start (client m chan) ⟨none, 0⟩
      created free) evs) := by
  refine run_invariant ?_ (fun s c e h => h.step c e) evs
  exact
    { monitored := (client_monitor m chan).run client_only (by simp [Calls]) ⟨none, 0⟩ hn ha []
      outlined := .start fun t => ⟨⟨by decide, .mk_zero nofun⟩, absurd trivial⟩
      interrupted := nofun
      alive := .start (client m chan) ⟨none, 0⟩ created free
      call := nofun
      calm := nofun }

def Stands (s : State C T X Ch Loc (Fields T)) (t : T) (l : Loc) : Prop := ∃ b, At s t (l, b)

structure Excludes (m : X) (chan : Ch) (s : State C T X Ch Loc (Fields T)) : Prop where
  somewhere (t : T) : ∃! l, Stands s t l
  owner {t : T} {l : Loc} : Stands s t l → 0 < l.level → s.store.glob.owner = some t ∧ s.store.glob.depth = l.level
  alone {t u : T} {l l' : Loc} : Stands s t l → Stands s u l' → 0 < l.level → 0 < l'.level → t = u
  awake (t : T) : s.store.glob.owner = none → s.locks.owner (.mtx m) = none → t ∈ s.store.sleepq →
    s.store.wchan t ≠ some chan
  calm (c : C) : s.stop c ≠ some .panic

lemma Good.excludes (h : Good m chan s) : Excludes m chan s := by
  obtain ⟨place, hi⟩ := h.monitored.placed
  have howner : ∀ {t l}, Stands s t l → 0 < l.level → s.store.glob.owner = some t ∧ s.store.glob.depth = l.level :=
    fun ⟨_, ha⟩ hl => assertion_level (h.outlined.holds ha).1 hl
  refine ⟨fun t => ?_, howner, fun ht hu hl hl' => ?_, fun t hnone hfree hq hw => ?_, h.calm⟩
  · obtain ⟨⟨l, b⟩, ha⟩ := h.alive.exists_at t
    exact ⟨l, ⟨b, ha⟩, fun l' ⟨b', ha'⟩ => congrArg Prod.fst (hi.at_unique ha' ha)⟩
  · exact Option.some.inj ((howner ht hl).1.symm.trans (howner hu hl').1)
  · exact (h.monitored.off (client_monitor m chan) hnone hfree).asleep ⟨hq, hw⟩

theorem sleep_mutex_excludes (m : X) (chan : Ch) (created free : List T) (hnodup : (created ++ free).Nodup)
    (hall : ∀ t, t ∈ created ++ free) (evs : List (C × Turn Ch)) :
    Excludes m chan (run (client m chan) (start (client m chan) ⟨none, 0⟩ created free) evs) :=
  (Good.run hnodup hall evs).excludes

local instance cpuNeZero : NeZero 2 := ⟨two_ne_zero⟩

def contended : List (Fin 2 × Turn Unit) := replicate 17 (0, ⟨.lock, none⟩) ++ replicate 15 (1, ⟨.lock, none⟩)

theorem contended_excludes :
    (run (client () ()) (start (client () ()) ⟨none, 0⟩ [0, 1] []) contended).store.glob = ⟨some (0 : Fin 2), 2⟩ ∧
      (run (client () ()) (start (client () ()) ⟨none, 0⟩ [(0 : Fin 2), 1] []) contended).store.sleepq = [1] ∧
      Excludes () () (run (client () ()) (start (client () ()) ⟨none, 0⟩ [(0 : Fin 2), 1] []) contended) :=
  ⟨by decide +kernel, by decide +kernel, sleep_mutex_excludes () () [0, 1] [] (by decide) (by decide) contended⟩

end FarmOS.Proc.Mutex

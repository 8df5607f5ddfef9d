import FarmOS.Futex.Queue

/-! The used queue of futex events is the queue of the threads that are blocked in `futex_wait`. -/

set_option linter.unusedSectionVars false

namespace FarmOS.Futex

open Proc List

section

variable {T : Type} {t u : T} {l l' m : Loc T} {g g' : Glob T} {e : Turn} {ph : Phase Chan} {i : ℕ} {d : Action T}

def Assertion (t : T) (l : Loc T) (ph : Phase Chan) (g : Glob T) : Prop :=
  g.events.Ok ∧ l.stage.Asserts t g.events ph

lemma client_effect (hok : ok t l g e) (h : Assertion t l .awake g) (hl : (client.act t l g e).loc = some (l', ph)) :
    Effect t g.events l.stage ph l'.stage ((client.act t l g e).glob g).events := by
  refine act_effect hok (fun hx => ?_) hl
  have hstage := h.2
  rw [hx] at hstage
  exact hstage

lemma client_effect_compute (hok : ok t l g e) (h : Assertion t l .awake g) (ha : client.act t l g e = .compute l' g') :
    Effect t g.events l.stage .awake l'.stage g'.events := by
  have hl : (client.act t l g e).loc = some (l', .awake) := by
    rw [ha]
    rfl
  have heff := client_effect hok h hl
  rwa [ha] at heff

lemma client_outline : Outline (client (T := T)) held ok Assertion where
  act hok h hl :=
    have heff := client_effect hok h hl
    ⟨heff.ok h.1 h.2, heff.asserts h.1 h.2⟩
  resume h := ⟨h.1, h.2.1⟩
  finish h := ⟨h.1, h.2.1⟩
  wakeup := by
    rintro t u l m chan g ⟨hq, i, upa, hl, rfl, hor⟩ ⟨-, hu, j, k, hm, hj⟩
    cases hj
    rw [hm] at hu
    refine ⟨hq, ?_, i, upa, hl⟩
    rw [hl]
    exact hor.elim id fun ho => absurd ho.1.1 hu.2.1
  interrupt := by
    rintro t l chan g e ⟨hq, i, upa, hl, rfl, hor⟩ he
    obtain ⟨n, -, hn⟩ := Option.map_eq_some_iff.mp he
    cases hn
  stable := by
    intro t u l m m' ph g g' e hne hok h hu ha hout
    have heff := client_effect_compute hok hu ha
    refine ⟨heff.ok hu.1 hu.2, heff.asserts_stable hu.1 hu.2 h.2 hne fun hph hl hm => ?_⟩
    exact hout hph .feUsed (mem_held_of_locked hl) (mem_held_of_locked hm)

lemma events_ok_act (hok : ok t l g e) (h : Assertion t l .awake g) : ((client.act t l g e).glob g).events.Ok := by
  cases hd : client.act t l g e with
  | compute l' g' => exact (client_effect_compute hok h hd).ok h.1 h.2
  | _ => exact h.1

def Due (i : ℕ) (l : Loc T) : Prop := ∃ k, l.stage = .removed i k ∨ l.stage = .freed i k

lemma Due.locked (h : Due i l) : l.stage.Locked := by
  obtain ⟨k, hl | hl⟩ := h <;> rw [hl] <;> trivial

lemma Due.next (h : Due i l) {q : Events T} (heff : Effect t g.events l.stage ph l'.stage q) :
    ph = .waking (.event i) ∨ ph = .awake ∧ Due i l' := by
  obtain ⟨k, hl | hl⟩ := h
  · rw [hl] at heff
    generalize hl' : l'.stage = b at heff
    cases heff with
    | keep => exact .inr ⟨rfl, k, .inl hl'⟩
    | put => exact .inr ⟨rfl, k, .inr hl'⟩
  · rw [hl] at heff
    generalize hl' : l'.stage = b at heff
    cases heff with
    | keep => exact .inr ⟨rfl, k, .inr hl'⟩
    | announce => exact .inl rfl

lemma Due.effect (h : Due i l) (hl : (client.act t l g e).loc = some (l', ph)) :
    ph = .waking (.event i) ∨ ph = .awake ∧ Due i l' := by
  refine h.next (act_effect ?_ ?_ hl)
  · obtain ⟨k, hl | hl⟩ := h <;> cases l <;> trivial
  · obtain ⟨k, hl | hl⟩ := h <;> rw [hl] <;> exact nofun

lemma Due.serves (h : Due i l) : (client.act t l g e).Serves (.event i) (Due i) := by
  have hobeys : Obeys l (client.act t l g e) := client_obeys rfl
  have heff : ∀ l' ph, (client.act t l g e).loc = some (l', ph) → ph = .waking (.event i) ∨ ph = .awake ∧ Due i l' :=
    fun _ _ hl => h.effect hl
  generalize client.act t l g e = d at hobeys heff
  cases d with
  | mtxLock x l' | mtxUnlock x l' => exact ((heff l' .awake rfl).resolve_left nofun).2
  | wakeup chan l' =>
    rcases heff l' (.waking chan) rfl with hch | ⟨hch, -⟩
    · exact Phase.waking.inj hch
    · cases hch
  | sleep chan x l' => rcases heff l' (.asleep chan) rfl with hch | ⟨hch, -⟩ <;> cases hch
  | yield l' => exact absurd (mem_held_of_locked h.locked) (hobeys.1 ▸ not_mem_nil)
  | compute | fail | rest => trivial
  | _ => exact hobeys

lemma client_monitor (i : ℕ) : Monitor client held (fun t l g e => Assertion t l .awake g ∧
    ok t l g e) .feUsed (.event i)
    (fun (t : T) g => ¬ g.events.Owns t i) (Due i) where
  disciplined := client_disciplined
  sleep {t l l' g e x} hA ha := by
    have hl : (client.act t l g e).loc = some (l', .asleep (.event i)) := by
      rw [ha]
      rfl
    have heff := client_effect hA.2 hA.1 hl
    rw [ha] at heff
    have hstage := hA.1.2
    have hmem : l.stage.Locked → x = .feUsed := fun hk => by
      have hheld := mem_held_of_locked hk
      rw [(client_disciplined.sleep ha).1] at hheld
      exact (mem_singleton.mp hheld).symm
    generalize l.stage = a at heff hstage hmem
    generalize l'.stage = b at heff
    change Effect t g.events a _ b g.events at heff
    cases heff with
    | sleep => exact ⟨hmem trivial, not_not.mpr hstage.1⟩
  guarded {t u l l' g g' e} hA ha := by
    by_cases hk : l.stage.Locked
    · exact .inl (mem_held_of_locked hk)
    · obtain ⟨hused, hfe⟩ := (client_effect_compute hA.2 hA.1 ha).unlocked hA.1.1 hA.1.2 hk
      refine .inr (not_congr ?_)
      rw [Events.Owns, Events.Owns, hused]
      exact and_congr_right fun hi => by rw [hfe i hi]
  announced {t u l l' g g' e} hA ha hor hg := by
    have heff := client_effect_compute hA.2 hA.1 ha
    rcases hor with hd | ho
    · exact ((hd.next heff).resolve_left (by rintro ⟨⟩)).2
    · rcases heff.owns hA.1.1 hA.1.2 (not_not.mp ho) with ⟨ho', -⟩ | ⟨⟨k, hk⟩, -⟩
      · exact absurd ho' hg
      · exact ⟨k, .inl hk⟩
  due_held h := mem_held_of_locked h.locked
  due_serves h := h.serves

end

variable {C T : Type} [DecidableEq C] [Fintype C] [DecidableEq T]

abbrev Machine (C T : Type) := State C T Mtx Chan (Loc T) (Glob T)

def Blocked (s : Machine C T) (t : T) (i : ℕ) : Prop :=
  s.store.Waits (.event i) t ∨ ∃ c, (s.pos c).Falling (.event i) t

def Settled (s : Machine C T) : Prop :=
  s.locks.owner (.mtx .feUsed) = none ∨ ∃ u w, At s u (.wakeExit w, .awake)

structure Exact (s : Machine C T) : Prop where
  queue {t : T} {i : ℕ} : Settled s → (s.store.glob.events.Owns t i ↔ Blocked s t i)
  waiter {i : ℕ} : i ∈ s.store.glob.events.used → ∃ t, s.store.glob.events.Owns t i
  ordered : s.store.glob.events.used.Pairwise fun i j => s.store.glob.events.ticket i < s.store.glob.events.ticket j
  upaddr {t : T} {i upa j : ℕ} {ph : Phase Chan} : At s t (.slept i upa j, ph) → s.store.glob.events.Owns t i →
    (s.store.glob.events.fe i).upaddr = upa
  wake {u : T} {w : Scan T} {ph : Phase Chan} : At s u (.wakeExit w, ph) → ∃ front back,
    Served w.upa w.wakecnt w.haswake w.before s.store.glob.events.entries front back ∧
      ∀ x ∈ front, Hit w.upa x = true → ∀ t, ¬ Blocked s t x.1
  left {t : T} {i : ℕ} {ph : Phase Chan} : At s t (.outside, ph) → ¬ s.store.glob.events.Owns t i

structure Good (s : Machine C T) : Prop where
  noted : Noted held s
  placed : ∃ place, Inv s place
  watched (i : ℕ) : Watched .feUsed (.event i) (fun t g => ¬ g.events.Owns t i) (Due i) s
  outlined : Outlined Assertion s
  interrupted : Interrupted client s
  alive : Alive s
  call (c : C) (k : Call) : (s.pos c).call = some k → Calls k
  events : s.store.glob.events.Ok

def Permitted (s : Machine C T) (ev : C × Turn) : Bool :=
  match s.pos ev.1 with
  | .thread _ (.user _ l) => permitted l s.store.glob
  | _ => true

def Orderly : Machine C T → List (C × Turn) → Bool
  | _, [] => true
  | s, ev :: evs => Permitted s ev && Orderly (step client s ev) evs

variable {s : Machine C T} {t u : T} {i : ℕ} {c : C} {e : Turn}

lemma Permitted.ok {hs : List Mtx} {l : Loc T} (h : Permitted s (c, e) = true) (hc : s.pos c = .thread t (.user hs l)) :
    ok t l s.store.glob e := by
  rw [Permitted, hc] at h
  exact h

lemma Good.step (h : Good s) (hok : Permitted s (c, e) = true) : Good (step client s (c, e)) := by
  obtain ⟨place, hi⟩ := h.placed
  have hS : ¬ Calls .tdFork ∧ ¬ Calls .tdDestroy ∧ ¬ Calls .wakeupTd := by simp [Calls]
  have hprompt : Prompt s c := fun t td hs l hp => absurd (h.call c .wakeupTd (by rw [hp]; rfl)) hS.2.2
  have hA : ∀ {t hs l}, s.pos c = .thread t (.user hs l) →
      Assertion t l .awake s.store.glob ∧ ok t l s.store.glob e := fun hp =>
        ⟨h.outlined.holds (.cpu hp rfl), Permitted.ok hok hp⟩
  have hturned := hi.turned (e := e) client_only hS (h.call c)
  exact
    { noted := h.noted.step client_disciplined c e
      placed := hi.step client c e hprompt
      watched := fun i => (h.watched i).step (client_monitor i) h.noted (hi.nodup .sleepq) hA
      outlined := h.outlined.step client_outline h.noted h.interrupted (fun hp => (hA hp).2) hturned
      interrupted := h.interrupted.step hi client_only hS (h.call c)
      alive := h.alive.step hi client_only hS (h.call c)
      call := hi.locked.next (stmt_call client_only (h.call c)) h.call
      events := by
        cases hturned with
        | quiet hg _ => exact hg ▸ h.events
        | act hp hg _ =>
          rw [hg]
          exact events_ok_act (hA hp).2 (hA hp).1 }

lemma Good.start {created free : List T} (hn : (created ++ free).Nodup) (ha : ∀ t, t ∈ created ++ free)
    (mem : ℕ → BitVec 32) : Good (start client (init mem) created free : Machine C T) where
  noted := .start client_disciplined (init mem) created free
  placed := ⟨_, .start client (init mem) hn ha⟩
  watched _ := .start (init mem) created free
  outlined := .start fun _ => ⟨.init 1024, fun _ hi => absurd hi.1 not_mem_nil⟩
  interrupted := nofun
  alive := .start client (init mem) created free
  call := nofun
  events := .init 1024

lemma Good.run (h : Good s) (evs : List (C × Turn)) (ho : Orderly s evs = true) : Good (run client s evs) := by
  induction evs generalizing s with
  | nil => exact h
  | cons ev evs ih =>
    obtain ⟨hp, ho⟩ := Bool.and_eq_true_iff.mp ho
    exact ih (h.step hp) ho

section

variable (h : Good s)
include h

lemma Good.blocked (ho : s.store.glob.events.Owns t i)
    (hfree : ∀ c k, s.pos c = .thread t k → .mtx .feUsed ∉ s.held c) : Blocked s t i := by
  obtain ⟨⟨l, ph⟩, ha⟩ := h.alive.exists_at t
  obtain ⟨-, hA⟩ := h.outlined.holds ha
  have hheld : ph.Holds → ¬ l.stage.Locked := fun hph hl => by
    obtain ⟨c, k, hc, hm⟩ := h.noted.mem_held ha hph (mem_held_of_locked hl)
    exact hfree c k hc hm
  cases ph with
  | awake => exact absurd (Stage.locked_of_owns hA ho) (hheld trivial)
  | waking chan => exact absurd (Stage.locked_of_owns hA.1 ho) (hheld trivial)
  | woken =>
    obtain ⟨hA, j, upa, hl⟩ := hA
    rw [hl] at hA
    exact absurd ho (hA i)
  | asleep chan =>
    obtain ⟨j, upa, hl, rfl, hor⟩ := hA
    obtain rfl : i = j := by
      rcases hor with habs | ⟨ho', -⟩
      · exact absurd ho (habs i)
      · exact h.events.unique ho.1 ho'.1 (ho.2.trans ho'.2.symm)
    rcases h.noted.asleep ha with hw | hf | ⟨c, k, x, hc, hx, hm⟩
    · exact .inl hw
    · exact .inr hf
    · cases l <;> cases hl
      cases hx
      exact absurd hm (hfree c k hc)

lemma Good.serving {w : Scan T} {ph : Phase Chan} (ha : At s u (.wakeExit w, ph)) :
    ph = .awake ∧ s.store.glob.events.Absent u ∧
      ∃ front back, Served w.upa w.wakecnt w.haswake w.before s.store.glob.events.entries front back := by
  obtain ⟨-, hA⟩ := h.outlined.holds ha
  cases ph with
  | awake => exact ⟨rfl, hA⟩
  | waking chan =>
    obtain ⟨-, i, k, hl, -⟩ := hA
    cases hl
  | asleep chan =>
    obtain ⟨i, upa, hl, -⟩ := hA
    cases hl
  | woken =>
    obtain ⟨-, i, upa, hl⟩ := hA
    cases hl

lemma Good.not_due (hs : Settled s) (c : C) (i : ℕ) : ¬ (s.pos c).Due .feUsed (.event i) (Due i) := by
  intro hd
  have hm := h.noted.due_held (client_monitor i) hd
  rcases hs with hnone | ⟨u, w, ha⟩
  · exact h.noted.locked.not_mem hnone c hm
  · obtain ⟨place, hi⟩ := h.placed
    obtain ⟨c', k, hc', hm'⟩ := h.noted.mem_held ha trivial (mem_singleton_self Mtx.feUsed)
    obtain rfl := h.noted.locked.exclusive hm hm'
    rw [hc'] at hd
    cases k with
    | user hs l =>
      cases hi.at_unique ha (.cpu hc' rfl)
      obtain ⟨k, hl | hl⟩ : Due i (.wakeExit w) := hd <;> cases hl
    | wakeup => cases hi.at_unique ha (.cpu hc' rfl)
    | _ => exact hd

lemma Good.not_blocked (hs : Settled s) (hno : ¬ s.store.glob.events.Owns t i) : ¬ Blocked s t i := by
  have hoff := (h.watched i).off hno fun c => h.not_due hs c i
  rintro (hw | ⟨c, hf⟩)
  · exact hoff.asleep hw
  · exact hoff.falling c hf

lemma Good.owner_free (hs : Settled s) (ho : s.store.glob.events.Owns t i) {k : Ctl T Mtx Chan (Loc T)}
    (hc : s.pos c = .thread t k) : .mtx .feUsed ∉ s.held c := by
  intro hm
  rcases hs with hnone | ⟨u, w, ha⟩
  · exact h.noted.locked.not_mem hnone c hm
  · obtain ⟨c', k', hc', hm'⟩ := h.noted.mem_held ha trivial (mem_singleton_self Mtx.feUsed)
    obtain rfl := h.noted.locked.exclusive hm hm'
    obtain ⟨rfl, -⟩ := Pos.thread.inj (hc.symm.trans hc')
    exact (h.serving ha).2.1 i ho

lemma Good.exact : Exact s where
  queue hs :=
    ⟨fun ho => h.blocked ho fun _ _ hc => h.owner_free hs ho hc, fun hb => by_contra fun hno => h.not_blocked hs hno hb⟩
  waiter hi := (Option.ne_none_iff_exists'.mp (h.events.waiter hi)).imp fun _ ht => ⟨hi, ht⟩
  ordered := h.events.ordered
  upaddr {t i upa j ph} ha ho := by
    obtain ⟨-, hA⟩ := h.outlined.holds ha
    cases ph with
    | awake => exact absurd ho (hA i)
    | waking chan => exact absurd ho (hA.1 i)
    | woken => exact absurd ho (hA.1 i)
    | asleep chan =>
      obtain ⟨i', upa', hl, -, hor⟩ := hA
      cases hl
      exact (hor.resolve_left fun habs => habs i ho).2
  wake ha := by
    obtain ⟨rfl, -, front, back, hserved⟩ := h.serving ha
    refine ⟨front, back, hserved, fun x hx hit t => ?_⟩
    exact h.not_blocked (.inr ⟨_, _, ha⟩) fun ho => hserved.not_mem hx hit ho.1
  left {t i ph} ha ho := by
    obtain ⟨-, hA⟩ := h.outlined.holds ha
    cases ph with
    | awake => exact hA i ho
    | waking chan => exact hA.1 i ho
    | woken => exact hA.1 i ho
    | asleep chan =>
      obtain ⟨i', upa', hl, -⟩ := hA
      cases hl

end

theorem futex_queue_exact (mem : ℕ → BitVec 32) (created free : List T) (hnodup : (created ++ free).Nodup)
    (hall : ∀ t, t ∈ created ++ free) (evs : List (C × Turn))
    (ho : Orderly (start client (init mem) created free) evs = true) :
    Exact (run client (start client (init mem) created free) evs) :=
  ((Good.start hnodup hall mem).run evs ho).exact

def turn (errand : Errand) (now : ℕ) : Fin 1 × Turn := (0, ⟨errand, now, none⟩)

local instance threadNeZero : NeZero 2 := ⟨two_ne_zero⟩

abbrev boot : Machine (Fin 1) (Fin 2) := start client (init fun _ => 0) [0, 1] []

def runs (s : Machine (Fin 1) (Fin 2)) : Option (Fin 2 × Loc (Fin 2)) :=
  match s.pos 0 with
  | .thread t (.user _ l) => some (t, l)
  | _ => none

lemma runs_at {s : Machine (Fin 1) (Fin 2)} {t : Fin 2} {l : Loc (Fin 2)} (h : runs s = some (t, l)) :
    At s t (l, .awake) := by
  rw [runs] at h
  split at h
  · rename_i hc
    cases h
    exact .cpu hc rfl
  · cases h

def timedOut : List (Fin 1 × Turn) :=
  replicate 38 (turn (.wait 4096 0 10) 0) ++ turn .timer 20 :: replicate 37 (turn .yield 20)

def wakeNone : List (Fin 1 × Turn) :=
  replicate 38 (turn (.wait 4096 0 0) 0) ++ replicate 22 (turn (.wake 4096 0) 0)

theorem futex_queue_not_exact : ¬ Exact (run client boot timedOut) ∧ ¬ Exact (run client boot wakeNone) := by
  constructor
  · intro h
    have hat : runs (run client boot timedOut) = some (0, .outside) := by decide +kernel
    have hused : (run client boot timedOut).store.glob.events.used = [0] := by decide +kernel
    have hwaiter : ((run client boot timedOut).store.glob.events.fe 0).waiterpid = some 0 := by decide +kernel
    refine h.left (runs_at hat) ⟨?_, hwaiter⟩
    rw [hused]
    exact mem_singleton_self 0
  · intro h
    have hat : runs (run client boot wakeNone) = some (1, .wakeExit ⟨4096, 0, 1, [], [(0, ⟨4096, some 0, 0⟩)]⟩) := by
      decide +kernel
    obtain ⟨front, back, hserved, -⟩ := h.wake (runs_at hat)
    have hmin := hserved.min_count
    rw [Nat.zero_min] at hmin
    exact absurd hmin Nat.one_ne_zero

def wakeOne : List (Fin 1 × Turn) :=
  replicate 38 (turn (.wait 4096 0 0) 0) ++ replicate 21 (turn (.wake 4096 1) 0)

theorem futex_queue_exact_wake_one :
    runs (run client boot wakeOne) = some (1, .wakeExit ⟨4096, 1, 1, [], [(0, ⟨4096, some 0, 0⟩)]⟩) ∧
      Exact (run client boot wakeOne) :=
  ⟨by decide +kernel, futex_queue_exact _ [0, 1] [] (by decide) (by decide) wakeOne (by decide +kernel)⟩

end FarmOS.Futex

import FarmOS.Lib.Run
import FarmOS.Process.Forest

/-! Several threads of a process leave it. The process is destroyed once, by the last of them, if no two of them are
between their last-thread test and their removal from the list of threads. -/

namespace FarmOS.Process

open Lib Function State

variable {T : Type} {i c : ℕ} {td : T} {rest : List ℕ} {code : BitVec 32}

structure Destroyed (s : State T) (i : ℕ) : Prop where
  once : (s.procs i).zombied ≤ 1 ∧ (s.procs i).fsRecycled ≤ 1 ∧ (s.procs i).ptRecycled ≤ 1
  files {t : T} : (s.procs i).fsRecycled ≠ 0 → t ∈ (s.procs i).threads → ∃ code, s.pc t = .recycled code
  space : (s.procs i).ptRecycled ≠ 0 → (s.procs i).threads = []
  last : (s.procs i).threads = [] → (∀ t, s.pc t ≠ .forking i) → (s.procs i).status = .zombie ∧
    (s.procs i).zombied = 1 ∧ (s.procs i).fsRecycled = 1 ∧ (s.procs i).ptRecycled = 1

def Pc.leaving : Pc → Bool
  | .tested .. => true
  | _ => false

def Apart (s : State T) : Event T → Prop
  | .exit t _ => ∀ u ∈ (s.procs (s.proc t)).threads, ¬ (s.pc u).leaving
  | _ => True

instance (s : State T) : (ev : Event T) → Decidable (Apart s ev)
  | .exit t _ => inferInstanceAs (Decidable (∀ u ∈ (s.procs (s.proc t)).threads, ¬ (s.pc u).leaving))
  | .create _ | .fork _ | .child .. | .spawn .. | .wait .. | .run _ => .isTrue trivial

lemma exists_ne {l : List T} (hl : l.Nodup) (h : l.head? ≠ l.getLast?) (t : T) : ∃ u, u ≠ t ∧ u ∈ l := by
  match l with
  | [] => exact absurd rfl h
  | [u] => exact absurd rfl h
  | u :: v :: r =>
    have huv : u ≠ v := fun heq => (List.nodup_cons.mp hl).1 (heq ▸ List.mem_cons_self)
    by_cases hu : u = t
    · exact ⟨v, hu ▸ huv.symm, by simp⟩
    · exact ⟨u, hu, by simp⟩

structure Company (s : State T) : Prop where
  unique {t u : T} : (s.pc t).leaving → (s.pc u).leaving → s.proc t = s.proc u → t = u
  other {t : T} {code : BitVec 32} : s.pc t = .tested code false → ∃ u, u ≠ t ∧ s.pc u ≠ .free ∧ s.proc u = s.proc t
  used {i : ℕ} : (s.procs i).status = .used → (∃ t, s.pc t = .forking i) ∨ ∃ t, s.pc t ≠ .free ∧ s.proc t = i

namespace Company

variable {n : ℕ} {s s' : State T} {t : T}

lemma stay (h : Company s) (hstay : ∀ u, s.pc u ≠ .free → s'.pc u ≠ .free ∧ s'.proc u = s.proc u)
    (hleaving : ∀ u, (s'.pc u).leaving → s'.pc u = s.pc u)
    (hfork : ∀ u i, s.pc u = .forking i → s'.pc u = .forking i ∨ ∃ t, s'.pc t ≠ .free ∧ s'.proc t = i)
    (hused : ∀ i, (s'.procs i).status = .used → (s.procs i).status = .used ∨ (∃ t, s'.pc t = .forking i) ∨
      ∃ t, s'.pc t ≠ .free ∧ s'.proc t = i) : Company s' where
  unique {t u} ht hu hp := by
    have htt := hleaving t ht
    have huu := hleaving u hu
    rw [htt] at ht
    rw [huu] at hu
    rw [(hstay t fun h => by simp [h, Pc.leaving] at ht).2, (hstay u fun h => by simp [h, Pc.leaving] at hu).2] at hp
    exact h.unique ht hu hp
  other {t code} ht := by
    rw [hleaving t (by rw [ht]; rfl)] at ht
    obtain ⟨u, hne, hu, hp⟩ := h.other ht
    have hpt := (hstay t (by simp [ht])).2
    exact ⟨u, hne, (hstay u hu).1, by rw [(hstay u hu).2, hpt, hp]⟩
  used {i} hi := by
    obtain hi | hi := hused i hi
    · obtain ⟨t, ht⟩ | ⟨t, ht, hp⟩ := h.used hi
      · exact (hfork t i ht).imp_left fun h => ⟨t, h⟩
      · exact .inr ⟨t, (hstay t ht).1, by rw [(hstay t ht).2, hp]⟩
    · exact hi

lemma start (n : ℕ) : Company (init n : State T) := ⟨nofun, nofun, nofun⟩

lemma destroyed_used (hf : Forest n none s) (h : Company s) (hi : (s.procs i).status = .used) : Destroyed s i := by
  obtain ⟨hz, hpt, hfs⟩ := hf.used hi
  have hfs' : (s.procs i).fsRecycled ≤ 1 := by
    obtain h0 | ⟨t, code, ht, rfl⟩ := hfs
    · omega
    · exact Nat.le_of_eq (hf.recycled ht)
  refine ⟨⟨by omega, hfs', by omega⟩, fun {t} h0 hmem => ?_, fun h0 => absurd hpt h0, fun hnil hfork => ?_⟩
  · obtain ⟨u, code, hu, rfl⟩ := hfs.resolve_left h0
    rw [hf.alone (.inr hu), List.mem_singleton] at hmem
    exact ⟨code, hmem ▸ hu⟩
  · obtain ⟨t, ht⟩ | ⟨t, ht⟩ := h.used hi
    · exact absurd ht (hfork t)
    · rw [← hf.mem_threads, hnil] at ht
      cases ht

lemma destroyed (hf : Forest n none s) (h : Company s) (hi : (s.procs i).status ≠ .unused) : Destroyed s i := by
  cases hs : (s.procs i).status with
  | unused => exact absurd hs hi
  | used => exact h.destroyed_used hf hs
  | zombie =>
    obtain ⟨hz, hpt, hfs⟩ := hf.zombie hs
    have hnil : (s.procs i).threads = [] := by
      by_contra hne
      cases hs.symm.trans (hf.threads_used hne)
    refine ⟨⟨by omega, by omega, by omega⟩, fun {t} _ hmem => ?_, fun _ => hnil, fun _ _ => ⟨hs, hz, hfs, hpt⟩⟩
    rw [hnil] at hmem
    cases hmem

lemma aux (h : Company s) (exits : List Exit) (returns : List Return) (panicked : Bool) :
    Company { s with exits := exits, returns := returns, panicked := panicked } :=
  ⟨h.unique, h.other, h.used⟩

lemma wakeup (h : Company s) (j : ℕ) : Company (s.wakeup j) := by
  refine h.stay (fun u hu => ?_) (fun u hu => ?_) (fun u i hu => ?_) fun i hi => .inl hi <;>
    simp only [State.wakeup] at * <;> grind [Pc.leaving]

lemma shrink (h : Company s) (hpc : s'.pc = s.pc) (hproc : s'.proc = s.proc)
    (hused : ∀ i, (s'.procs i).status = .used → (s.procs i).status = .used) : Company s' := by
  refine h.stay (fun u hu => ?_) (fun u _ => ?_) (fun u i hu => .inl ?_) fun i hi => .inl (hused i hi)
  · rw [hpc, hproc]
    exact ⟨hu, rfl⟩
  · rw [hpc]
  · rw [hpc, hu]

variable [DecidableEq T]

section

variable (h : Company s)
include h

lemma gone (hpc : s'.pc = update s.pc t .free) (hproc : s'.proc = s.proc)
    (hfork : ∀ c, s.pc t ≠ .forking c) (hapart : ∀ u, u ≠ t → (s.pc u).leaving → s.proc u ≠ s.proc t)
    (hused : ∀ i, (s'.procs i).status = .used → (s.procs i).status = .used ∧
      (i = s.proc t → ∃ u, u ≠ t ∧ s.pc u ≠ .free ∧ s.proc u = i)) : Company s' where
  unique {u v} hu hv hp := by
    rw [hpc] at hu hv
    rw [hproc] at hp
    have hut : u ≠ t := by rintro rfl; simp [Pc.leaving] at hu
    have hvt : v ≠ t := by rintro rfl; simp [Pc.leaving] at hv
    rw [update_of_ne hut] at hu
    rw [update_of_ne hvt] at hv
    exact h.unique hu hv hp
  other {u code} hu := by
    rw [hpc] at hu ⊢
    rw [hproc]
    have hut : u ≠ t := by rintro rfl; simp at hu
    rw [update_of_ne hut] at hu
    obtain ⟨v, hne, hv, hp⟩ := h.other hu
    have hvt : v ≠ t := by
      rintro rfl
      exact hapart u hut (by rw [hu]; rfl) hp.symm
    exact ⟨v, hne, by rwa [update_of_ne hvt], hp⟩
  used {i} hi := by
    rw [hpc, hproc]
    obtain ⟨hi, ht⟩ := hused i hi
    obtain ⟨u, hu⟩ | ⟨u, hu, hp⟩ := h.used hi
    · have hut : u ≠ t := by rintro rfl; exact hfork i hu
      exact .inl ⟨u, by rwa [update_of_ne hut]⟩
    · by_cases hut : u = t
      · subst hut
        obtain ⟨v, hvt, hv, hvp⟩ := ht hp.symm
        exact .inr ⟨v, by rwa [update_of_ne hvt], hvp⟩
      · exact .inr ⟨u, by rwa [update_of_ne hut], hp⟩

lemma goto {a : Pc} (hf : ∀ c, s.pc t ≠ .forking c) (ha : a ≠ .free)
    (hl : a.leaving = false) : Company (s.goto t a) := by
  refine h.stay (fun u hu => ?_) (fun u hu => ?_) (fun u i hu => ?_) fun i hi => .inl hi <;>
    simp only [State.goto] at * <;> grind

lemma create (htd : s.pc td = .free) : Company ((s.procAlloc c rest).procAddtd c td) := by
  refine h.stay (fun u hu => ?_) (fun u hu => ?_) (fun u i hu => .inl ?_) fun i hi => ?_
  case refine_4 =>
    by_cases hic : i = c
    · exact .inr (.inr ⟨td, by simp, by simp [hic, State.procAddtd]⟩)
    · rw [status_procAddtd, State.procAlloc, State.modify_ne hic] at hi
      exact .inl hi
  all_goals
    simp only [State.procAddtd, State.procAlloc, State.modify] at *
    grind [Pc.leaving]

lemma fork (ht : s.pc t = .user) : Company ((s.procAlloc c rest).goto t (.forking c)) := by
  refine h.stay (fun u hu => ?_) (fun u hu => ?_) (fun u i hu => .inl ?_) fun i hi => ?_
  case refine_4 =>
    by_cases hic : i = c
    · exact .inr (.inl ⟨t, by simp [hic]⟩)
    · rw [State.procAlloc, State.goto, State.modify_ne hic] at hi
      exact .inl hi
  all_goals
    simp only [State.goto, State.procAlloc, State.modify] at *
    grind [Pc.leaving]

lemma child (ht : s.pc t = .forking c) (htd : s.pc td = .free) :
    Company (((s.procAddtd c td).link (s.proc t) c).goto t .user) := by
  refine h.stay (fun u hu => ?_) (fun u hu => ?_) (fun u i hu => ?_) fun i hi => .inl ?_
  case refine_3 =>
    by_cases hut : u = t
    · cases (hut ▸ hu).symm.trans ht
      exact .inr ⟨td, by simp [State.goto, State.link, State.procAddtd, State.modify, update_apply],
        by simp [State.goto, State.link, State.procAddtd, State.modify]⟩
    · have hutd : u ≠ td := by rintro rfl; cases htd.symm.trans hu
      exact .inl ((State.goto_ne hut).trans ((State.procAddtd_pc_ne (i := c) hutd).trans hu))
  all_goals
    simp only [State.goto, State.procAddtd, State.link, State.modify] at *
    grind [Pc.leaving]

lemma spawn (htd : s.pc td = .free) : Company (s.procAddtd (s.proc t) td) := by
  refine h.stay (fun u hu => ?_) (fun u hu => ?_) (fun u i hu => .inl ?_) fun i hi => .inl ?_ <;>
    simp only [State.procAddtd, State.modify] at * <;> grind [Pc.leaving]

lemma exit (hf : Forest n none s) (ht : s.pc t = .user)
    (hok : ∀ u ∈ (s.procs (s.proc t)).threads, ¬ (s.pc u).leaving) :
    Company (s.goto t (.tested code
      ((s.procs (s.proc t)).threads.head? = (s.procs (s.proc t)).threads.getLast?))) := by
  have hmem := (hf.mem_threads t _).mpr ⟨by simp [ht], rfl⟩
  have hapart (u : T) (hu : (s.pc u).leaving) : s.proc u ≠ s.proc t := fun hp =>
    hok u ((hf.mem_threads u _).mpr ⟨fun hfree => by simp [hfree, Pc.leaving] at hu, hp⟩) hu
  refine ⟨fun {u v} hu hv hp => ?_, fun {u code'} hu => ?_, fun {i} hi => ?_⟩
  · by_cases hut : u = t <;> by_cases hvt : v = t
    · rw [hut, hvt]
    · rw [State.goto_ne hvt] at hv
      exact absurd (hut ▸ hp).symm (hapart v hv)
    · rw [State.goto_ne hut] at hu
      exact absurd (hvt ▸ hp) (hapart u hu)
    · rw [State.goto_ne hut] at hu
      rw [State.goto_ne hvt] at hv
      exact h.unique hu hv hp
  · by_cases hut : u = t
    · subst hut
      rw [goto_self, Pc.tested.injEq, decide_eq_false_iff_not] at hu
      obtain ⟨v, hne, hv⟩ := exists_ne (hf.threads_nodup _) hu.2 u
      obtain ⟨hv, hp⟩ := (hf.mem_threads v _).mp hv
      exact ⟨v, hne, goto_ne_free nofun hv, hp⟩
    · rw [State.goto_ne hut] at hu
      obtain ⟨v, hne, hv, hp⟩ := h.other hu
      exact ⟨v, hne, goto_ne_free nofun hv, hp⟩
  · obtain ⟨u, hu⟩ | ⟨u, hu, hp⟩ := h.used hi
    · have hut : u ≠ t := by rintro rfl; cases ht.symm.trans hu
      exact .inl ⟨u, (State.goto_ne hut).trans hu⟩
    · exact .inr ⟨u, goto_ne_free nofun hu, hp⟩

lemma leave (ht : s.pc t = .tested code false) : Company (s.leave t) := by
  have hl : (s.pc t).leaving = true := by rw [ht]; rfl
  refine h.gone (t := t) rfl rfl (by simp [ht]) (fun u hut hu hp => hut (h.unique hu hl hp)) fun i hi => ?_
  rw [status_leave] at hi
  exact ⟨hi, fun hip => hip ▸ h.other ht⟩

lemma destroy (hf : Forest n none s) (ht : s.pc t = .recycled code) :
    Company ((s.leave t).procDestroy (s.proc t) code) := by
  refine hf.procDestroy (P := fun s' => s'.pc = update s.pc t .free ∧ s'.proc = s.proc ∧
    ∀ i, (s'.procs i).status = .used → (s.procs i).status = .used ∧ i ≠ s.proc t) ht ?_ ?_ ?_ fun _ j h => h.wakeup j
  · refine ⟨rfl, rfl, fun i hi => ?_⟩
    simp only [State.bury, State.leave, State.goto, State.modify] at hi
    grind
  · rintro s' c - - ⟨hpc, hproc, hused⟩
    unfold State.dropChild
    dsimp only
    split_ifs
    all_goals
      refine ⟨hpc, hproc, fun i hi => hused i ?_⟩
      simp only [State.listRemove, State.procFree, State.modify] at hi
      grind
  · rintro s' - ⟨hpc, hproc, hused⟩
    have h' : Company s' := by
      refine h.gone hpc hproc (by simp [ht]) (fun u hut hu hp => ?_) fun i hi => ?_
      · have hmem := (hf.mem_threads u _).mpr ⟨fun hfree => by simp [hfree, Pc.leaving] at hu, hp⟩
        rw [hf.alone (.inr ht), List.mem_singleton] at hmem
        exact hut hmem
      · exact (hused i hi).imp_right fun hne heq => absurd heq hne
    exact h'.aux ..

lemma recycle (ht : s.pc t = .tested code true) :
    Company ((s.modify (s.proc t) fun p => { p with fsRecycled := p.fsRecycled + 1 }).goto t (.recycled code)) := by
  have h1 : Company (s.modify (s.proc t) fun p => { p with fsRecycled := p.fsRecycled + 1 }) := by
    refine h.shrink rfl rfl fun i hi => ?_
    simp only [State.modify] at hi
    grind
  exact h1.goto (fun c => ne_of_eq_of_ne ht (by simp)) (by simp) rfl

lemma waitExit (hfork : ∀ c, s.pc t ≠ .forking c) {w : Call} : Company (s.waitExit t w c) := by
  have h1 : Company (((s.modify (s.proc t) fun p =>
      { p with times := p.times.reap (s.procs c).times }).unlink c).procFree c) := by
    refine h.shrink rfl rfl fun i hi => ?_
    simp only [State.procFree, State.unlink, State.modify] at hi
    grind
  exact (h1.goto (a := .user) hfork (by simp) rfl).aux ..

theorem effect {ev : Event T} (hf : Forest n none s) (hok : Apart s ev) (he : Effect s ev s') : Company s' := by
  cases he with
  | idle => exact h
  | panic => exact h.aux ..
  | create hfree htd => exact h.create htd
  | fork hfree ht => exact h.fork ht
  | child ht htd => exact h.child ht htd
  | spawn ht htd => exact h.spawn htd
  | exit ht => exact h.exit hf ht hok
  | recycle ht => exact h.recycle ht
  | leave ht => exact h.leave ht
  | destroy ht => exact h.destroy hf ht
  | echild hc => exact (h.goto (a := .user) hc.ne_forking nofun rfl).aux ..
  | nohang hc => exact (h.goto (a := .user) hc.ne_forking nofun rfl).aux ..
  | sleepAny hc => exact h.goto hc.ne_forking nofun rfl
  | sleepFor hc => exact h.goto hc.ne_forking nofun rfl
  | reapAny hc _ _ hz => exact h.waitExit hc.ne_forking
  | reap hc _ hz => exact h.waitExit hc.ne_forking

end

end Company

variable [DecidableEq T]

theorem last_thread_destroys (n : ℕ) (evs : List (Event T)) (hev : Meets step Apart (init n) evs) (i : ℕ)
    (hi : ((run (init n) evs).procs i).status ≠ .unused) : Destroyed (run (init n) evs) i := by
  have h := hev.invariant (P := fun s => Forest n none s ∧ Company s) ⟨.start n, .start n⟩ fun s ev h hok =>
    ⟨h.1.effect (step_effect s ev), h.2.effect h.1 hok (step_effect s ev)⟩
  exact h.2.destroyed h.1 hi

local instance raceNeZero : NeZero 2 := ⟨two_ne_zero⟩

def race : List (Event (Fin 2)) :=
  [.create 0, .spawn 0 1, .exit 0 0, .exit 1 0, .run 0, .run 1]

theorem racing_threads_lose_process :
    ((run (init 1) race).procs 0).status ≠ .unused ∧ ¬ Destroyed (run (init 1) race) 0 := by
  have hs : ((run (init 1) race).procs 0).status = .used := by decide +kernel
  refine ⟨by rw [hs]; nofun, fun h => ?_⟩
  have hl := h.last (by decide +kernel) fun t => by revert t; decide +kernel
  cases hs.symm.trans hl.1

def orderlyExit : List (Event (Fin 2)) :=
  [.create 0, .spawn 0 1, .exit 0 0, .run 0, .exit 1 7, .run 1, .run 1]

theorem orderly_threads_destroy_process :
    ((run (init 1) orderlyExit).procs 0).status = .zombie ∧ Destroyed (run (init 1) orderlyExit) 0 :=
  ⟨by decide +kernel, last_thread_destroys 1 orderlyExit (by decide +kernel) 0 (by decide +kernel)⟩

end FarmOS.Process

import FarmOS.Lib.Run
import FarmOS.Process.Forest

/-! What `wait` returns. A thread that sleeps in `wait` keeps the slot of the child it waits for; the results are right
in every run in which no such slot is freed, and no child that is a zombie is asked for with `WNOHANG` and its pid. -/

namespace FarmOS.Process

open Lib List State

variable {T : Type} {exits : List Exit} {returns : List Return}

def Outcome.child : Outcome → Option ℕ
  | .reaped _ _ born => some born
  | _ => none

structure Return.Right (exits : List Exit) (r : Return) : Prop where
  child {pid status born} : r.outcome = .reaped pid status born →
    ∃ e ∈ exits, e.born = born ∧ e.pid = pid ∧ e.parent = some r.caller ∧ waitStatus e.code = status
  pid {pid status born} : r.outcome = .reaped pid status born → r.call.pid ≠ -1 → r.call.pid = pid
  ready : r.call.ready = true → ∃ pid status born, r.outcome = .reaped pid status born

structure Served (exits : List Exit) (returns : List Return) : Prop where
  right {r : Return} : r ∈ returns → r.Right exits
  once : (returns.filterMap fun r => r.outcome.child).Nodup

def Pc.sleeper : Pc → Option (Call × Option ℕ)
  | .asleep w c => some (w, c)
  | .woken w c => some (w, c)
  | _ => none

def Pc.child (a : Pc) : Option ℕ := a.sleeper.bind Prod.snd

def Undisturbed (s : State T) : Prop := ∀ t, ∀ c ∈ (s.pc t).child, (s.procs c).status ≠ .unused

instance [Fintype T] (s : State T) : Decidable (Undisturbed s) :=
  inferInstanceAs (Decidable (∀ t, ∀ c ∈ (s.pc t).child, (s.procs c).status ≠ .unused))

def Hanging (s : State T) : Event T → Prop
  | .wait t pid nohang => nohang = true → pid ≠ -1 → s.ready t pid = false
  | _ => True

instance (s : State T) : (ev : Event T) → Decidable (Hanging s ev)
  | .wait t pid nohang => inferInstanceAs (Decidable (nohang = true → pid ≠ -1 → s.ready t pid = false))
  | .create _ | .fork _ | .child .. | .spawn .. | .exit .. | .run _ => .isTrue trivial

structure Waits (s : State T) : Prop where
  born_le {i : ℕ} : (s.procs i).status ≠ .unused → (s.procs i).born ≤ s.cnt
  born_inj {i j : ℕ} : (s.procs i).status ≠ .unused → (s.procs j).status ≠ .unused →
    (s.procs i).born = (s.procs j).born → i = j
  pid_slot {i : ℕ} : (s.procs i).status ≠ .unused → (s.procs i).pid % 0x10000 = i
  calls {t : T} {w : Call} {c : Option ℕ} : (s.pc t).sleeper = some (w, c) → w.nohang = false ∧ w.ready = false
  child {t : T} {w : Call} {c : ℕ} : (s.pc t).sleeper = some (w, some c) →
    c ∈ (s.procs (s.proc t)).children ∧ w.pid ≠ -1 ∧ w.pid = (s.procs c).pid
  exited {i c : ℕ} : c ∈ (s.procs i).children → (s.procs c).status = .zombie →
    ⟨(s.procs c).born, (s.procs c).pid, some (s.procs i).born, (s.procs c).exitcode⟩ ∈ s.exits
  past {r : Return} {b : ℕ} : r ∈ s.returns → r.outcome.child = some b →
    b ≤ s.cnt ∧ ∀ i, (s.procs i).status ≠ .unused → (s.procs i).born ≠ b

lemma pidGenerate_mod (cnt : ℕ) {i : ℕ} (hi : i < 0x10000) : pidGenerate cnt i % 0x10000 = i := by
  rw [pidGenerate, show 0x10000 = 2 ^ 16 from rfl, Nat.or_mod_two_pow, Nat.shiftLeft_eq, Nat.mul_mod_left, Nat.or_zero]
  exact Nat.mod_eq_of_lt hi

namespace State

variable {s : State T} {i c : ℕ}

lemma status_procFree : ((s.procFree c).procs c).status = .unused := by
  simp [State.procFree, State.modify]

lemma dropChild_exits (e : Exit) : { s.dropChild i c with exits := e :: (s.dropChild i c).exits } =
    State.dropChild i { s with exits := e :: s.exits } c := by
  have h' : ((State.listRemove { s with exits := e :: s.exits } i c).procs c).status =
      ((s.listRemove i c).procs c).status := rfl
  unfold State.dropChild
  dsimp only
  rw [h']
  split_ifs <;> rfl

lemma dropChild_frame : (s.dropChild i c).pc = s.pc ∧ (s.dropChild i c).proc = s.proc ∧
    ∀ j, ((s.dropChild i c).procs j).born = (s.procs j).born := by
  unfold State.dropChild
  dsimp only
  split_ifs
  all_goals
    refine ⟨rfl, rfl, fun j => ?_⟩
    simp only [State.procFree, State.listRemove, State.modify]
    grind

end State

namespace Waits

variable {n i c : ℕ} {s s' : State T} {t td : T} {rest : List ℕ} {code : BitVec 32} {w : Call}

section

variable (h : Waits s)
include h

lemma congr (hstatus : ∀ i, (s'.procs i).status = (s.procs i).status)
    (hborn : ∀ i, (s'.procs i).born = (s.procs i).born) (hpid : ∀ i, (s'.procs i).pid = (s.procs i).pid)
    (hcode : ∀ i, (s'.procs i).exitcode = (s.procs i).exitcode)
    (hchildren : ∀ i, (s'.procs i).children = (s.procs i).children) (hcnt : s'.cnt = s.cnt)
    (hexits : s'.exits = s.exits) (hreturns : s'.returns = s.returns)
    (hpc : ∀ t x, (s'.pc t).sleeper = some x → (s.pc t).sleeper = some x ∧ s'.proc t = s.proc t) : Waits s' where
  born_le := by
    simp only [hstatus, hborn, hcnt]
    exact h.born_le
  born_inj := by
    simp only [hstatus, hborn]
    exact h.born_inj
  pid_slot := by
    simp only [hstatus, hpid]
    exact h.pid_slot
  calls ht := h.calls (hpc _ _ ht).1
  child {t w c} ht := by
    obtain ⟨ht, hp⟩ := hpc t _ ht
    rw [hp, hchildren, hpid]
    exact h.child ht
  exited := by
    simp only [hstatus, hborn, hpid, hcode, hchildren, hexits]
    exact h.exited
  past := by
    simp only [hstatus, hborn, hcnt, hreturns]
    exact h.past

lemma panic : Waits { s with panicked := true } :=
  h.congr (fun _ => rfl) (fun _ => rfl) (fun _ => rfl) (fun _ => rfl) (fun _ => rfl) rfl rfl rfl fun _ _ hx => ⟨hx, rfl⟩

lemma wakeup (j : ℕ) : Waits (s.wakeup j) := by
  refine h.congr (fun _ => rfl) (fun _ => rfl) (fun _ => rfl) (fun _ => rfl) (fun _ => rfl) rfl rfl rfl fun t x hx => ?_
  refine ⟨?_, rfl⟩
  simp only [State.wakeup] at hx
  grind [Pc.sleeper]

lemma procAlloc (hf : Forest n none s) (hn : n ≤ 0x10000) (hfree : s.freelist = c :: rest) :
    Waits (s.procAlloc c rest) := by
  obtain ⟨hc, hu⟩ := (hf.mem_free c).mp (hfree ▸ mem_cons_self)
  have hpid := pidGenerate_mod (s.cnt + 1) (i := c) (by omega)
  have hchildren := hf.children_used (i := c)
  have hlisted (i c : ℕ) := hf.listed (i := i) (c := c)
  cases h
  constructor <;> simp only [State.procAlloc, State.modify] <;> grind

lemma link (hne : i ≠ c) (hc : (s.procs c).status ≠ .zombie) : Waits (s.link i c) := by
  cases h
  constructor <;> simp only [State.link, State.modify] <;> grind

lemma listRemove (hs : ∀ u x, (s.pc u).sleeper = some x → s.proc u ≠ i) : Waits (s.listRemove i c) := by
  have hmem (x : ℕ) (l : List ℕ) : x ∈ l.erase c → x ∈ l := mem_of_mem_erase
  cases h
  constructor <;> simp only [State.listRemove, State.modify] <;> grind

lemma procFree (hl : ∀ j, c ∉ (s.procs j).children) : Waits (s.procFree c) := by
  cases h
  constructor <;> simp only [State.procFree, State.modify] <;> grind

lemma unlink (hs : ∀ u w, (s.pc u).sleeper ≠ some (w, some c)) : Waits (s.unlink c) := by
  have hmem (x : ℕ) (l : List ℕ) : x ∈ l.erase c → x ∈ l := mem_of_mem_erase
  cases h
  constructor <;> simp only [State.unlink] <;> grind

lemma returned (r : Return)
    (hr : ∀ b, r.outcome.child = some b → b ≤ s.cnt ∧ ∀ i, (s.procs i).status ≠ .unused → (s.procs i).born ≠ b) :
    Waits { s with returns := r :: s.returns } := by
  cases h
  constructor <;> dsimp only <;> try assumption
  grind

lemma modify (i : ℕ) {f : Proc T → Proc T}
    (hf : ∀ p, (f p).status = p.status ∧ (f p).born = p.born ∧ (f p).pid = p.pid ∧ (f p).exitcode = p.exitcode ∧
      (f p).children = p.children) : Waits (s.modify i f) := by
  refine h.congr (fun j => ?_) (fun j => ?_) (fun j => ?_) (fun j => ?_) (fun j => ?_) rfl rfl rfl
    fun u x hx => ⟨hx, rfl⟩ <;> simp only [State.modify] <;> grind

lemma times (i : ℕ) (g : Times → Times) : Waits (s.modify i fun p => { p with times := g p.times }) :=
  h.modify i fun _ => ⟨rfl, rfl, rfl, rfl, rfl⟩

lemma dropChild (hf : Forest n (some i) s) (hc : c ∈ (s.procs i).children)
    (hs : ∀ u x, (s.pc u).sleeper = some x → s.proc u ≠ i) : Waits (s.dropChild i c) := by
  have h1 : Waits (s.listRemove i c) := h.listRemove hs
  have hl := hf.not_mem_listRemove hc
  unfold State.dropChild
  dsimp only
  split_ifs
  · refine (h1.times i (·.reap ((s.listRemove i c).procs c).times)).procFree fun j => ?_
    rw [children_times (·.reap ((s.listRemove i c).procs c).times)]
    exact hl j
  · refine h1.congr (fun j => ?_) (fun j => ?_) (fun j => ?_) (fun j => ?_) (fun j => ?_) rfl rfl rfl
      fun u x hx => ⟨hx, rfl⟩ <;> simp only [State.modify] at * <;> grind

end

variable [DecidableEq T]

section

variable (h : Waits s)
include h

lemma goto {a : Pc} (ha : a.sleeper = none) : Waits (s.goto t a) := by
  refine h.congr (fun _ => rfl) (fun _ => rfl) (fun _ => rfl) (fun _ => rfl) (fun _ => rfl) rfl rfl rfl fun u x hx => ?_
  by_cases hu : u = t
  · rw [hu, State.goto_self, ha] at hx
    cases hx
  · rw [goto_ne hu] at hx
    exact ⟨hx, rfl⟩

lemma procAddtd (td : T) : Waits (s.procAddtd i td) := by
  refine h.congr (fun i => ?_) (fun i => ?_) (fun i => ?_) (fun i => ?_) (fun i => ?_) rfl rfl rfl fun u x hx => ?_ <;>
    simp only [State.procAddtd, State.modify] at * <;> grind [Pc.sleeper]

lemma leave (t : T) : Waits (s.leave t) := by
  have hm : Waits (s.modify (s.proc t) fun p => { p with threads := p.threads.erase t }) :=
    h.modify _ fun _ => ⟨rfl, rfl, rfl, rfl, rfl⟩
  exact hm.goto rfl

lemma recycle (t : T) :
    Waits ((s.modify (s.proc t) fun p => { p with fsRecycled := p.fsRecycled + 1 }).goto t (.recycled code)) := by
  have hm : Waits (s.modify (s.proc t) fun p => { p with fsRecycled := p.fsRecycled + 1 }) :=
    h.modify _ fun _ => ⟨rfl, rfl, rfl, rfl, rfl⟩
  exact hm.goto rfl

lemma sleep {child : Option ℕ} (hw : w.nohang = false ∧ w.ready = false)
    (hc : ∀ c, child = some c → c ∈ (s.procs (s.proc t)).children ∧ w.pid ≠ -1 ∧ w.pid = (s.procs c).pid) :
    Waits (s.goto t (.asleep w child)) := by
  cases h
  constructor <;> simp only [State.goto] <;> grind [Pc.sleeper]

lemma bury (hf : Forest n none s) (ht : s.pc t = .recycled code) :
    Waits { s.bury t code with exits := s.exit (s.procs (s.proc t)) code :: s.exits } := by
  have hlisted (i c : ℕ) := hf.listed (i := i) (c := c)
  have hu := hf.proc_used (t := t) (by simp [ht])
  cases h
  constructor <;> simp only [State.bury, State.exit, State.leave, State.goto, State.modify] <;> grind [Pc.sleeper]

lemma destroy (hf : Forest n none s) (ht : s.pc t = .recycled code) :
    Waits ((s.leave t).procDestroy (s.proc t) code) := by
  refine hf.procDestroy (P := fun s' =>
    Waits { s' with exits := s.exit (s.procs (s.proc t)) code :: s'.exits } ∧
      (∀ j, (s'.procs j).born = (s.procs j).born) ∧
      ∀ u x, (s'.pc u).sleeper = some x → s'.proc u ≠ s.proc t) ht ⟨h.bury hf ht, ?_, ?_⟩ ?_ ?_ fun _ j h => h.wakeup j
  · intro j
    simp only [State.bury, State.leave, State.goto, State.modify]
    grind
  · intro u x hx hp
    have hut : u ≠ t := by
      rintro rfl
      rw [State.bury, State.leave] at hx
      cases (congrArg Pc.sleeper State.goto_self).symm.trans hx
    have hmem := (hf.mem_threads u (s.proc t)).mpr ⟨fun hfree => ?_, hp⟩
    · rw [hf.alone (.inr ht), mem_singleton] at hmem
      exact hut hmem
    · have hx' : (s.pc u).sleeper = some x := (congrArg Pc.sleeper (goto_ne hut)).symm.trans hx
      rw [hfree] at hx'
      cases hx'
  · rintro s' c hf' hmem ⟨h', hborn, hs⟩
    obtain ⟨hpc, hproc, hb⟩ := s'.dropChild_frame (i := s.proc t) (c := c)
    refine ⟨?_, fun j => (hb j).trans (hborn j), ?_⟩
    · rw [dropChild_exits]
      exact h'.dropChild (hf'.aux (s.exit (s.procs (s.proc t)) code :: s'.exits) s'.returns s'.panicked) hmem hs
    · rw [hpc, hproc]
      exact hs
  · rintro s' - ⟨h', hborn, -⟩
    have heq : s'.exit (s.procs (s.proc t)) code = s.exit (s.procs (s.proc t)) code := by
      simp only [State.exit, hborn]
    rwa [heq]

lemma waitExit (hf : Forest n none s) (hz : (s.procs c).status = .zombie)
    (hs : ∀ u w, u ≠ t → (s.pc u).sleeper ≠ some (w, some c)) : Waits (s.waitExit t w c) := by
  have h1 : Waits (s.goto t .user) := h.goto rfl
  have h2 := h1.times (s.proc t) (·.reap (s.procs c).times)
  have h3 : Waits (((s.goto t .user).modify (s.proc t) fun p =>
      { p with times := p.times.reap (s.procs c).times }).unlink c) := by
    refine h2.unlink fun u w hu => ?_
    by_cases hut : u = t
    · subst hut
      exact nomatch (congrArg Pc.sleeper State.goto_self).symm.trans hu
    · exact hs u w hut ((congrArg Pc.sleeper (goto_ne hut)).symm.trans hu)
  have h4 := h3.procFree (c := c) fun j => (hf.times (s.proc t) (·.reap (s.procs c).times)).not_mem_unlink c j
  refine h4.returned _ fun b hb => ?_
  cases hb
  refine ⟨h.born_le (by simp [hz]), fun i hi hb => ?_⟩
  have hic : i ≠ c := by
    rintro rfl
    exact hi status_procFree
  have hinj := h.born_inj (i := i) (j := c)
  simp only [State.procFree, State.unlink, State.goto, State.modify] at hi hb
  grind

end

end Waits

lemma Served.exit (h : Served exits returns) (e : Exit) : Served (e :: exits) returns where
  right {r} hr := by
    obtain ⟨hchild, hpid, hready⟩ := h.right hr
    refine ⟨fun ho => ?_, hpid, hready⟩
    obtain ⟨e', he', heq⟩ := hchild ho
    exact ⟨e', mem_cons_of_mem _ he', heq⟩
  once := h.once

lemma Served.cons (h : Served exits returns) {r : Return}
    (hr : r.Right exits) (hb : ∀ b, r.outcome.child = some b → ∀ r' ∈ returns, r'.outcome.child ≠ some b) :
    Served exits (r :: returns) where
  right {r'} hr' := by
    obtain rfl | hr' := mem_cons.mp hr'
    · exact hr
    · exact h.right hr'
  once := by
    cases hc : r.outcome.child with
    | none =>
      simp only [filterMap_cons, hc]
      exact h.once
    | some b =>
      simp only [filterMap_cons, hc, nodup_cons, mem_filterMap]
      refine ⟨?_, h.once⟩
      rintro ⟨r', hr', heq⟩
      exact hb b hc r' hr' heq

structure Good (n : ℕ) (s : State T) : Prop where
  forest : Forest n none s
  waits : Waits s
  served : Served s.exits s.returns

lemma Good.start (n : ℕ) : Good n (init n : State T) :=
  ⟨.start n, ⟨nofun, nofun, nofun, nofun, nofun, nofun, nofun⟩, ⟨nofun, nodup_nil⟩⟩

namespace Good

variable {n c : ℕ} {s s' : State T} {t : T} {code : BitVec 32} {w : Call} {ev : Event T}

lemma ready_false (h : Good n s) (hc : Calls s ev t w)
    (hz : ∀ c ∈ (s.procs (s.proc t)).children, (s.procs c).status = .zombie → w.pid ≠ -1 ∧ w.pid ≠ (s.procs c).pid) :
    w.ready = false := by
  cases hc with
  | again ht => exact (h.waits.calls (by rw [ht]; rfl)).2
  | call ht =>
    refine any_eq_false.mpr fun c hmem => ?_
    rw [decide_eq_true_eq]
    rintro ⟨hs, hpid | hpid⟩
    · exact (hz c hmem hs).1 hpid
    · exact (hz c hmem hs).2 hpid

lemma target (h : Good n s) (htarget : Target s t w c) :
    c ∈ (s.procs (s.proc t)).children ∧ w.pid ≠ -1 ∧ w.pid = (s.procs c).pid := by
  cases htarget with
  | found hpid hc heq => exact ⟨hc, hpid, heq⟩
  | kept ht => exact h.waits.child (by rw [ht]; rfl)

lemma sleepFor (h : Good n s) (hc : Calls s ev t w) (htarget : Target s t w c)
    (hz : (s.procs c).status ≠ .zombie) : w.nohang = false ∧ w.ready = false := by
  obtain ⟨hmem, hne, hpid⟩ := h.target htarget
  constructor
  · cases htarget with
    | found _ _ _ hw => exact hw
    | kept ht => exact (h.waits.calls (by rw [ht]; rfl)).1
  · refine h.ready_false hc fun c' hmem' hz' => ⟨hne, fun hpid' => hz ?_⟩
    rwa [← h.waits.pid_slot (h.forest.listed hmem).2.2, Int.natCast_inj.mp (hpid.symm.trans hpid'),
      h.waits.pid_slot (h.forest.listed hmem').2.2]

lemma nohang (h : Good n s) (hok : Hanging s ev) (hc : Calls s ev t w) (hw : w.nohang = true)
    (hz : w.pid = -1 → ∀ c ∈ (s.procs (s.proc t)).children, (s.procs c).status ≠ .zombie) : w.ready = false := by
  cases hc with
  | again ht => exact (h.waits.calls (by rw [ht]; rfl)).2
  | @call t pid nohang ht =>
    by_cases hpid : pid = -1
    · exact h.ready_false (.call ht) fun c hmem hs => absurd hs (hz hpid c hmem)
    · exact hok hw hpid

variable [DecidableEq T]

lemma unready (h : Good n s) (hready : w.ready = false) {o : Outcome} (ho : o.child = none) :
    Served (s.ret t w o).exits (s.ret t w o).returns := by
  refine h.served.cons ⟨fun heq => ?_, fun heq => ?_, fun heq => ?_⟩ fun b hb => ?_
  · cases ho.symm.trans (congrArg Outcome.child heq)
  · cases ho.symm.trans (congrArg Outcome.child heq)
  · cases hready.symm.trans heq
  · cases ho.symm.trans hb

lemma reap (h : Good n s) (hc : c ∈ (s.procs (s.proc t)).children) (hz : (s.procs c).status = .zombie)
    (hpid : w.pid ≠ -1 → w.pid = (s.procs c).pid) :
    Served (s.waitExit t w c).exits (s.waitExit t w c).returns := by
  have hu : (s.procs c).status ≠ .unused := by simp [hz]
  refine h.served.cons ⟨fun heq => ?_, fun heq => ?_, fun _ => ⟨_, _, _, rfl⟩⟩ fun b hb r hr hb' => ?_
  · cases heq
    refine ⟨_, h.waits.exited hc hz, rfl, rfl, ?_, rfl⟩
    simp only [State.procFree, State.unlink, State.modify]
    grind
  · cases heq
    exact hpid
  · cases hb
    exact (h.waits.past hr hb').2 c hu rfl

lemma destroy (h : Good n s) (ht : s.pc t = .recycled code) :
    Served ((s.leave t).procDestroy (s.proc t) code).exits ((s.leave t).procDestroy (s.proc t) code).returns := by
  refine h.forest.procDestroy (P := fun s' => s'.exits = s.exits ∧ s'.returns = s.returns)
    (Q := fun s' => Served s'.exits s'.returns) ht ⟨rfl, rfl⟩ ?_ ?_ fun _ _ => id
  · rintro s' c - - hs
    unfold State.dropChild
    dsimp only
    split_ifs <;> exact hs
  · rintro s' - ⟨he, hr⟩
    dsimp only
    rw [he, hr]
    exact h.served.exit _

lemma waits_reap (h : Good n s) (hz : (s.procs c).status = .zombie) (hd : Undisturbed (s.waitExit t w c)) :
    Waits (s.waitExit t w c) := by
  refine h.waits.waitExit h.forest hz fun u w' hut hu => hd u c ?_ status_procFree
  have hpc : (s.waitExit t w c).pc u = s.pc u := goto_ne hut
  rw [hpc, Pc.child, hu]
  rfl

theorem effect (hn : n ≤ 0x10000) (h : Good n s) (hok : Hanging s ev) (hd : Undisturbed s') (he : Effect s ev s') :
    Good n s' := by
  refine ⟨h.forest.effect he, ?_, ?_⟩
  · cases he with
    | idle => exact h.waits
    | panic => exact h.waits.panic
    | create hfree htd => exact (h.waits.procAlloc h.forest hn hfree).procAddtd _
    | fork hfree ht => exact (h.waits.procAlloc h.forest hn hfree).goto rfl
    | child ht htd =>
      refine ((h.waits.procAddtd _).link (h.forest.proc_ne_of_forking ht (by simp [ht])) ?_).goto rfl
      rw [status_procAddtd, (h.forest.forking ht).1]
      nofun
    | spawn ht htd => exact h.waits.procAddtd _
    | exit ht => exact h.waits.goto rfl
    | recycle ht => exact h.waits.recycle _
    | leave ht => exact h.waits.leave _
    | destroy ht => exact h.waits.destroy h.forest ht
    | echild hc => exact (h.waits.goto rfl).returned _ nofun
    | nohang hc => exact (h.waits.goto rfl).returned _ nofun
    | sleepAny hc hw hz => exact h.waits.sleep ⟨hw, h.ready_false hc fun c hmem hz' => absurd hz' (hz c hmem)⟩ nofun
    | sleepFor hc htarget hz =>
      refine h.waits.sleep (h.sleepFor hc htarget hz) ?_
      rintro c ⟨⟩
      exact h.target htarget
    | reapAny hc hpid hmem hz => exact h.waits_reap hz hd
    | reap hc htarget hz => exact h.waits_reap hz hd
  · cases he with
    | destroy ht => exact h.destroy ht
    | echild hc hnone =>
      refine h.unready (h.ready_false hc fun c hmem _ => ?_) rfl
      obtain hnil | ⟨hpid, hne⟩ := hnone
      · rw [hnil] at hmem
        cases hmem
      · exact ⟨hpid, hne c hmem⟩
    | nohang hc hw hz => exact h.unready (h.nohang hok hc hw hz) rfl
    | reapAny hc hpid hmem hz => exact h.reap hmem hz fun hne => absurd hpid hne
    | reap hc htarget hz =>
      obtain ⟨hmem, -, hpid⟩ := h.target htarget
      exact h.reap hmem hz fun _ => hpid
    | _ => exact h.served

end Good

variable [DecidableEq T]

theorem wait_reaps_own_children {n : ℕ} (hn : n ≤ 0x10000) (evs : List (Event T))
    (hev : Meets step (fun s ev => Hanging s ev ∧ Undisturbed (step s ev)) (init n) evs) :
    Served (run (init n) evs).exits (run (init n) evs).returns :=
  (hev.invariant (P := Good n) (.start n) fun s ev h hok => h.effect hn hok.1 hok.2 (step_effect s ev)).served

local instance reapNeZero : NeZero 2 := ⟨two_ne_zero⟩

local instance staleNeZero : NeZero 4 := ⟨four_ne_zero⟩

def unhung : List (Event (Fin 2)) :=
  [.create 0, .fork 0, .child 0 1, .exit 1 0, .run 1, .run 1, .wait 0 131073 true]

def stale : List (Event (Fin 4)) :=
  [.create 0, .spawn 0 2, .fork 0, .child 0 1, .fork 0, .child 0 3, .wait 0 131073 false, .wait 2 (-1) false,
    .exit 1 0, .run 1, .run 1, .run 2, .fork 3, .child 3 1, .exit 1 5, .run 1, .run 1, .run 0]

theorem wait_misses_and_mistakes_children : ¬ Served (run (init 2) unhung).exits (run (init 2) unhung).returns ∧
      ¬ Served (run (init 3) stale).exits (run (init 3) stale).returns := by
  constructor
  · intro h
    have hr : ⟨1, ⟨131073, true, true⟩, .nohang⟩ ∈ (run (init 2) unhung).returns := by decide +kernel
    obtain ⟨_, _, _, ho⟩ := (h.right hr).ready rfl
    cases ho
  · intro h
    have hr : ⟨1, ⟨131073, false, false⟩, .reaped 262145 0x500 4⟩ ∈ (run (init 3) stale).returns := by decide +kernel
    exact absurd ((h.right hr).pid rfl (by decide)) (by decide)

def reaped : List (Event (Fin 2)) :=
  [.create 0, .fork 0, .child 0 1, .wait 0 131073 false, .exit 1 7, .run 1, .run 1, .run 0]

theorem wait_reaps_the_only_child :
    (run (init 2) reaped).returns = [⟨1, ⟨131073, false, false⟩, .reaped 131073 0x700 2⟩] ∧
      Served (run (init 2) reaped).exits (run (init 2) reaped).returns :=
  ⟨by decide +kernel, wait_reaps_own_children (by decide) reaped (by decide +kernel)⟩

end FarmOS.Process

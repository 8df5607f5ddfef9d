import FarmOS.Process.Table

/-! What a step of the process table can do. -/

namespace FarmOS.Process

variable {T : Type}

inductive Calls (s : State T) : Event T → T → Call → Prop
  | call {t pid nohang} : s.pc t = .user → Calls s (.wait t pid nohang) t ⟨pid, nohang, s.ready t pid⟩
  | again {t w c} : s.pc t = .woken w c → Calls s (.run t) t w

section

variable {s : State T} {ev : Event T} {t : T} {w : Call} (h : Calls s ev t w)
include h

lemma Calls.pc_eq : s.pc t = .user ∨ ∃ c, s.pc t = .woken w c := by
  cases h with
  | call ht => exact .inl ht
  | again ht => exact .inr ⟨_, ht⟩

lemma Calls.ne_free : s.pc t ≠ .free := by
  obtain ht | ⟨c, ht⟩ := h.pc_eq <;> simp [ht]

lemma Calls.ne_recycled (code : BitVec 32) : s.pc t ≠ .recycled code := by
  obtain ht | ⟨c, ht⟩ := h.pc_eq <;> simp [ht]

lemma Calls.ne_forking (c : ℕ) : s.pc t ≠ .forking c := by
  obtain ht | ⟨c, ht⟩ := h.pc_eq <;> simp [ht]

end

inductive Target (s : State T) (t : T) (w : Call) (c : ℕ) : Prop
  | found (hpid : w.pid ≠ -1) (hc : c ∈ (s.procs (s.proc t)).children) (h : w.pid = (s.procs c).pid)
      (hw : w.nohang = false)
  | kept (ht : s.pc t = .woken w (some c))

variable [DecidableEq T]

inductive Effect (s : State T) : Event T → State T → Prop
  | idle {ev} : Effect s ev s
  | panic {ev} : Effect s ev { s with panicked := true }
  | create {td c rest} (hfree : s.freelist = c :: rest) (htd : s.pc td = .free) :
      Effect s (.create td) ((s.procAlloc c rest).procAddtd c td)
  | fork {t c rest} (hfree : s.freelist = c :: rest) (ht : s.pc t = .user) :
      Effect s (.fork t) ((s.procAlloc c rest).goto t (.forking c))
  | child {t td c} (ht : s.pc t = .forking c) (htd : s.pc td = .free) :
      Effect s (.child t td) (((s.procAddtd c td).link (s.proc t) c).goto t .user)
  | spawn {t td} (ht : s.pc t = .user) (htd : s.pc td = .free) :
      Effect s (.spawn t td) (s.procAddtd (s.proc t) td)
  | exit {t code} (ht : s.pc t = .user) :
      Effect s (.exit t code) (s.goto t (.tested code
        ((s.procs (s.proc t)).threads.head? = (s.procs (s.proc t)).threads.getLast?)))
  | recycle {t code} (ht : s.pc t = .tested code true) :
      Effect s (.run t) ((s.modify (s.proc t) fun p => { p with fsRecycled := p.fsRecycled + 1 }).goto t
        (.recycled code))
  | leave {t code} (ht : s.pc t = .tested code false) : Effect s (.run t) (s.leave t)
  | destroy {t code} (ht : s.pc t = .recycled code) : Effect s (.run t) ((s.leave t).procDestroy (s.proc t) code)
  | echild {ev t w} (hc : Calls s ev t w)
      (h : (s.procs (s.proc t)).children = [] ∨
        w.pid ≠ -1 ∧ ∀ c ∈ (s.procs (s.proc t)).children, w.pid ≠ (s.procs c).pid) :
      Effect s ev (s.ret t w .echild)
  | nohang {ev t w} (hc : Calls s ev t w) (hw : w.nohang = true)
      (h : w.pid = -1 → ∀ c ∈ (s.procs (s.proc t)).children, (s.procs c).status ≠ .zombie) :
      Effect s ev (s.ret t w .nohang)
  | sleepAny {ev t w} (hc : Calls s ev t w) (hw : w.nohang = false)
      (h : ∀ c ∈ (s.procs (s.proc t)).children, (s.procs c).status ≠ .zombie) :
      Effect s ev (s.goto t (.asleep w none))
  | sleepFor {ev t w c} (hc : Calls s ev t w) (h : Target s t w c) (hz : (s.procs c).status ≠ .zombie) :
      Effect s ev (s.goto t (.asleep w (some c)))
  | reapAny {ev t w c} (hc : Calls s ev t w) (hpid : w.pid = -1) (h : c ∈ (s.procs (s.proc t)).children)
      (hz : (s.procs c).status = .zombie) : Effect s ev (s.waitExit t w c)
  | reap {ev t w c} (hc : Calls s ev t w) (h : Target s t w c) (hz : (s.procs c).status = .zombie) :
      Effect s ev (s.waitExit t w c)

lemma waitLoop_effect {s : State T} {ev : Event T} {t : T} {w : Call} {c : ℕ} (hc : Calls s ev t w)
    (h : Target s t w c) : Effect s ev (s.waitLoop t w c) := by
  unfold State.waitLoop
  split_ifs with hz
  · exact .reap hc h hz
  · exact .sleepFor hc h hz

lemma waitScan_effect {s : State T} {ev : Event T} {t : T} {w : Call} (hc : Calls s ev t w) :
    Effect s ev (s.waitScan t w) := by
  unfold State.waitScan
  split
  next c hfind =>
    have hmem := List.mem_of_find?_eq_some hfind
    have hw : s.Wanted w c := by simpa using List.find?_some hfind
    split_ifs with hpid hu
    · exact .reapAny hc hpid hmem (hw.resolve_left fun h => h.1 hpid).2
    · exact .panic
    · have heq := (hw.resolve_right fun h => hpid h.1).2
      unfold State.waitTilExit
      split_ifs with hn
      · exact .nohang hc hn fun h => absurd h hpid
      · exact waitLoop_effect hc (.found hpid hmem heq (Bool.eq_false_iff.mpr hn))
  next hfind =>
    have hnone (c : ℕ) (hmem : c ∈ (s.procs (s.proc t)).children) : ¬ s.Wanted w c := by
      simpa using List.find?_eq_none.mp hfind c hmem
    split_ifs with hpid hn
    · exact .echild hc (.inr ⟨hpid, fun c hmem h => hnone c hmem (.inl ⟨hpid, h⟩)⟩)
    · exact .nohang hc hn fun h c hmem hz => hnone c hmem (.inr ⟨h, hz⟩)
    · exact .sleepAny hc (Bool.eq_false_iff.mpr hn) fun c hmem hz => hnone c hmem (.inr ⟨not_not.mp hpid, hz⟩)

lemma step_effect (s : State T) (ev : Event T) : Effect s ev (step s ev) := by
  unfold step
  split_ifs
  · exact .idle
  cases ev with
  | create td =>
    dsimp only
    split_ifs with htd
    · exact .idle
    · split
      next => exact .panic
      next c rest hfree => exact .create hfree (not_not.mp htd)
  | fork t =>
    dsimp only
    split_ifs with ht
    · exact .idle
    · split
      next => exact .panic
      next c rest hfree => exact .fork hfree (not_not.mp ht)
  | child t td =>
    dsimp only
    split
    next c hc =>
      split_ifs with htd
      · exact .idle
      · exact .child hc (not_not.mp htd)
    next => exact .idle
  | spawn t td =>
    dsimp only
    split_ifs with h
    · exact .idle
    · rw [not_or, not_not, not_not] at h
      exact .spawn h.1 h.2
  | exit t code =>
    dsimp only
    split_ifs with ht
    · exact .idle
    · exact .exit (not_not.mp ht)
  | wait t pid nohang =>
    dsimp only
    split_ifs with ht
    · exact .idle
    · have hc : Calls s (.wait t pid nohang) t ⟨pid, nohang, s.ready t pid⟩ := .call (not_not.mp ht)
      unfold State.wait
      dsimp only
      split_ifs with he
      · exact .echild hc (.inl he)
      · exact waitScan_effect hc
  | run t =>
    dsimp only
    split
    next code ht => exact .recycle ht
    next code ht => exact .leave ht
    next code ht => exact .destroy ht
    next w ht => exact waitScan_effect (.again ht)
    next w c ht => exact waitLoop_effect (.again ht) (.kept ht)
    next => exact .idle

end FarmOS.Process

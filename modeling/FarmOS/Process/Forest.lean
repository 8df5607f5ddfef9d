import FarmOS.Process.Effect

/-! What holds of the process table in every run: the free list, the lists of children and of threads, and how often a
process has been destroyed. -/

namespace FarmOS.Process

open Function List

structure Forest {T : Type} (n : ℕ) (x : Option ℕ) (s : State T) : Prop where
  free_nodup : s.freelist.Nodup
  mem_free (i : ℕ) : i ∈ s.freelist ↔ i < n ∧ (s.procs i).status = .unused
  lt {i : ℕ} : (s.procs i).status ≠ .unused → i < n
  unused {i : ℕ} : (s.procs i).status = .unused → (s.procs i).parent = none
  listed {i c : ℕ} : c ∈ (s.procs i).children → c ≠ i ∧ (s.procs c).parent = some i ∧ (s.procs c).status ≠ .unused
  children_nodup (i : ℕ) : (s.procs i).children.Nodup
  children_used {i : ℕ} : (s.procs i).children ≠ [] → (s.procs i).status = .used ∨ some i = x
  mem_threads (t : T) (i : ℕ) : t ∈ (s.procs i).threads ↔ s.pc t ≠ .free ∧ s.proc t = i
  threads_nodup (i : ℕ) : (s.procs i).threads.Nodup
  threads_used {i : ℕ} : (s.procs i).threads ≠ [] → (s.procs i).status = .used
  forking {t : T} {c : ℕ} : s.pc t = .forking c → (s.procs c).status = .used ∧ (s.procs c).parent = none ∧
    (s.procs c).children = [] ∧ (s.procs c).threads = []
  forking_unique {t u : T} {c : ℕ} : s.pc t = .forking c → s.pc u = .forking c → t = u
  alone {t : T} {code : BitVec 32} : s.pc t = .tested code true ∨ s.pc t = .recycled code →
    (s.procs (s.proc t)).threads = [t]
  recycled {t : T} {code : BitVec 32} : s.pc t = .recycled code → (s.procs (s.proc t)).fsRecycled = 1
  used {i : ℕ} : (s.procs i).status = .used → (s.procs i).zombied = 0 ∧ (s.procs i).ptRecycled = 0 ∧
    ((s.procs i).fsRecycled = 0 ∨ ∃ t code, s.pc t = .recycled code ∧ s.proc t = i)
  zombie {i : ℕ} : (s.procs i).status = .zombie →
    (s.procs i).zombied = 1 ∧ (s.procs i).ptRecycled = 1 ∧ (s.procs i).fsRecycled = 1

def State.bury {T : Type} [DecidableEq T] (s : State T) (t : T) (code : BitVec 32) : State T :=
  (s.leave t).modify (s.proc t) fun p =>
    { p with exitcode := code, status := .zombie, zombied := p.zombied + 1, ptRecycled := p.ptRecycled + 1 }

def State.exit {T : Type} (s : State T) (p : Proc T) (code : BitVec 32) : Exit :=
  ⟨p.born, p.pid, p.parent.map fun j => (s.procs j).born, code⟩

namespace State

variable {T : Type} {s : State T} {i j c : ℕ} {f : Proc T → Proc T} {a : Pc}

@[simp] lemma modify_self : (s.modify i f).procs i = f (s.procs i) := update_self ..

lemma modify_ne (h : j ≠ i) : (s.modify i f).procs j = s.procs j := update_of_ne h ..

lemma field_modify {β : Type} (g : Proc T → β) (f : Proc T → Proc T) (hf : ∀ p, g (f p) = g p) (i j : ℕ) :
    g ((s.modify i f).procs j) = g (s.procs j) := by
  by_cases h : j = i
  · rw [h, modify_self, hf]
  · rw [modify_ne h]

lemma children_procFree (c : ℕ) : ((s.procFree c).procs j).children = (s.procs j).children :=
  field_modify Proc.children (fun p => { p with status := .unused, pid := 0, parent := none }) (fun _ => rfl) c j

lemma status_procAddtd [DecidableEq T] (td : T) : ((s.procAddtd i td).procs j).status = (s.procs j).status :=
  field_modify Proc.status (fun p => { p with threads := td :: p.threads }) (fun _ => rfl) i j

lemma status_leave [DecidableEq T] (t : T) : ((s.leave t).procs j).status = (s.procs j).status :=
  field_modify Proc.status (fun p => { p with threads := p.threads.erase t }) (fun _ => rfl) (s.proc t) j

lemma parent_procAddtd [DecidableEq T] (td : T) : ((s.procAddtd i td).procs j).parent = (s.procs j).parent :=
  field_modify Proc.parent (fun p => { p with threads := td :: p.threads }) (fun _ => rfl) i j

@[simp] lemma goto_self [DecidableEq T] {t : T} : (s.goto t a).pc t = a := update_self ..

lemma goto_ne [DecidableEq T] {t u : T} (h : u ≠ t) : (s.goto t a).pc u = s.pc u :=
  update_of_ne h ..

lemma goto_ne_free [DecidableEq T] {t u : T} (ha : a ≠ .free) (hu : s.pc u ≠ .free) :
    (s.goto t a).pc u ≠ .free := by
  by_cases h : u = t
  · rwa [h, goto_self]
  · rwa [goto_ne h]

@[simp] lemma procAddtd_pc_self [DecidableEq T] {td : T} : (s.procAddtd i td).pc td = .user := update_self ..

lemma procAddtd_pc_ne [DecidableEq T] {td u : T} (h : u ≠ td) : (s.procAddtd i td).pc u = s.pc u :=
  update_of_ne h ..

lemma status_times (g : Times → Times) :
    ((s.modify i fun p => { p with times := g p.times }).procs j).status = (s.procs j).status :=
  field_modify Proc.status (fun p => { p with times := g p.times }) (fun _ => rfl) i j

lemma children_times (g : Times → Times) :
    ((s.modify i fun p => { p with times := g p.times }).procs j).children = (s.procs j).children :=
  field_modify Proc.children (fun p => { p with times := g p.times }) (fun _ => rfl) i j

end State

namespace Forest

variable {T : Type} {n i c : ℕ} {x : Option ℕ} {s s' : State T} {t td u : T} {rest : List ℕ} {w : Call}
  {code : BitVec 32}

section

variable (h : Forest n x s)
include h

lemma aux (exits : List Exit) (returns : List Return) (panicked : Bool) :
    Forest n x { s with exits := exits, returns := returns, panicked := panicked } := by
  cases h
  constructor <;> assumption

lemma proc_used (ht : s.pc t ≠ .free) : (s.procs (s.proc t)).status = .used :=
  h.threads_used (ne_nil_of_mem ((h.mem_threads t _).mpr ⟨ht, rfl⟩))

lemma proc_ne_of_forking (hu : s.pc u = .forking c) (ht : s.pc t ≠ .free) : s.proc t ≠ c := by
  rintro rfl
  exact ne_nil_of_mem ((h.mem_threads t _).mpr ⟨ht, rfl⟩) (h.forking hu).2.2.2

lemma fsRecycled_eq_zero (ht : s.pc t ≠ .free) (hr : ∀ code, s.pc t ≠ .recycled code)
    (hu : ∀ u code, s.pc u = .recycled code → s.proc u ≠ s.proc t ∨ u = t) :
    (s.procs (s.proc t)).fsRecycled = 0 := by
  obtain h0 | ⟨u, code, hu', hp⟩ := (h.used (h.proc_used ht)).2.2
  · exact h0
  · obtain h1 | rfl := hu u code hu'
    · exact absurd hp h1
    · exact absurd hu' (hr code)

lemma wakeup (j : ℕ) : Forest n x (s.wakeup j) := by
  cases h
  constructor <;> simp only [State.wakeup] <;> first | assumption | grind

lemma unlink (c : ℕ) : Forest n x (s.unlink c) := by
  have hmem {i j : ℕ} (hj : j ∈ (s.procs i).children.erase c) : j ∈ (s.procs i).children := mem_of_mem_erase hj
  cases h
  constructor <;> simp only [State.unlink] <;> first | assumption | grind

omit h in
lemma close (h : Forest n (some i) s) (hi : (s.procs i).children = []) : Forest n none s :=
  { h with
    children_used := fun {j} hj => by
      obtain hu | hij := h.children_used hj
      · exact .inl hu
      · cases hij
        exact absurd hi hj }

lemma not_mem_unlink (c j : ℕ) : c ∉ ((s.unlink c).procs j).children :=
  (h.children_nodup j).not_mem_erase

lemma not_mem_listRemove (hc : c ∈ (s.procs i).children) (j : ℕ) : c ∉ ((s.listRemove i c).procs j).children := by
  unfold State.listRemove
  by_cases hj : j = i
  · rw [hj, State.modify_self]
    exact (h.children_nodup i).not_mem_erase
  · rw [State.modify_ne hj]
    intro hcj
    exact hj (Option.some.inj ((h.listed hcj).2.1.symm.trans (h.listed hc).2.1))

lemma children_dropChild (hc : (s.procs i).children = c :: rest) :
    ((s.dropChild i c).procs i).children = rest := by
  have hne : i ≠ c := (h.listed (hc ▸ mem_cons_self)).1.symm
  have hrest : ((s.listRemove i c).procs i).children = rest := by
    rw [State.listRemove, State.modify_self, hc, erase_cons_head]
  unfold State.dropChild
  dsimp only
  split_ifs
  · rwa [State.children_procFree, State.modify_self]
  · rwa [State.modify_ne hne]

end

lemma start (n : ℕ) : Forest n none (init n : State T) where
  free_nodup := nodup_range
  mem_free i := by simp [init]
  lt h := absurd rfl h
  unused _ := rfl
  listed := nofun
  children_nodup _ := nodup_nil
  children_used h := absurd rfl h
  mem_threads t i := by simp [init]
  threads_nodup _ := nodup_nil
  threads_used h := absurd rfl h
  forking := nofun
  forking_unique := nofun
  alone := by simp [init]
  recycled := nofun
  used := nofun
  zombie := nofun

variable [DecidableEq T]

section

variable (h : Forest n x s)
include h

lemma procAlloc (hfree : s.freelist = c :: rest) : Forest n x (s.procAlloc c rest) := by
  obtain ⟨hc, hu⟩ := (h.mem_free c).mp (hfree ▸ mem_cons_self)
  have hnodup := h.free_nodup
  rw [hfree, nodup_cons] at hnodup
  have hpu (t : T) := h.proc_used (t := t)
  cases h
  constructor <;> simp only [State.procAlloc, State.modify] <;> first | assumption | grind

lemma procAddtd (hi : (s.procs i).status = .used) (htd : s.pc td = .free)
    (hf : ∀ u, s.pc u ≠ .forking i) (ha : ∀ u code, s.proc u = i → s.pc u ≠ .tested code true ∧
      s.pc u ≠ .recycled code) :
    Forest n x (s.procAddtd i td) := by
  have hrec {j : ℕ} (hj : ∃ u code, s.pc u = .recycled code ∧ s.proc u = j) :
      ∃ u code, (s.procAddtd i td).pc u = .recycled code ∧ (s.procAddtd i td).proc u = j := by
    obtain ⟨u, code, hu, hj⟩ := hj
    have hne : u ≠ td := by rintro rfl; cases htd.symm.trans hu
    exact ⟨u, code, (update_of_ne hne ..).trans hu, (update_of_ne hne ..).trans hj⟩
  obtain ⟨_, _, _, _, _, _, _, _, _, _, _, _, _, _, hused, _⟩ := h
  constructor
  case used =>
    intro j hj
    have hused := @hused j
    simp only [State.procAddtd, State.modify] at hj hrec ⊢
    by_cases hji : j = i
    · grind
    · rw [update_of_ne hji] at hj ⊢
      exact (hused hj).imp_right fun h => h.imp_right fun h => h.imp_right hrec
  all_goals
    simp only [State.procAddtd, State.modify]
    grind

lemma goto {a : Pc} (ht : s.pc t ≠ .free) (ha : a ≠ .free) (hf : ∀ c, a ≠ .forking c)
    (hr : ∀ code, s.pc t ≠ .recycled code ∧ a ≠ .recycled code)
    (hl : ∀ code, a = .tested code true → (s.procs (s.proc t)).threads = [t]) : Forest n x (s.goto t a) := by
  cases h
  constructor <;> simp only [State.goto] <;> first | assumption | grind

lemma fork (hfree : s.freelist = c :: rest) (ht : s.pc t = .user) (hx : some c ≠ x) :
    Forest n x ((s.procAlloc c rest).goto t (.forking c)) := by
  have hu := ((h.mem_free c).mp (hfree ▸ mem_cons_self)).2
  obtain ⟨_, _, _, _, _, _, _, _, _, _, _, _, _, _, _, _⟩ := h.procAlloc hfree
  cases h
  constructor <;> simp only [State.goto, State.procAlloc, State.modify] at * <;> first | assumption | grind

lemma leave (ht : ∃ code, s.pc t = .tested code false) : Forest n x (s.leave t) := by
  cases h
  constructor <;> simp only [State.leave, State.goto, State.modify] <;> first | assumption | grind

lemma recycle (ht : s.pc t = .tested code true) :
    Forest n x ((s.modify (s.proc t) fun p => { p with fsRecycled := p.fsRecycled + 1 }).goto t (.recycled code)) := by
  have h0 : (s.procs (s.proc t)).fsRecycled = 0 := by
    refine h.fsRecycled_eq_zero (by simp [ht]) (by simp [ht]) fun u code hu => ?_
    by_cases hp : s.proc u = s.proc t
    · have hmem : t ∈ (s.procs (s.proc u)).threads := (h.mem_threads t _).mpr ⟨by simp [ht], hp.symm⟩
      rw [h.alone (.inr hu), mem_singleton] at hmem
      exact .inr hmem.symm
    · exact .inl hp
  cases h
  constructor <;> simp only [State.goto, State.modify] <;> first | assumption | grind

lemma link (hi : (s.procs i).status = .used) (hne : i ≠ c) (hc : (s.procs c).status = .used)
    (hp : (s.procs c).parent = none) (hf : ∀ u, s.pc u ≠ .forking c ∧ s.pc u ≠ .forking i) :
    Forest n x (s.link i c) := by
  cases h
  constructor <;> simp only [State.link, State.modify] <;> first | assumption | grind

lemma times (i : ℕ) (g : Times → Times) : Forest n x (s.modify i fun p => { p with times := g p.times }) := by
  cases h
  constructor <;> simp only [State.modify] <;> first | assumption | grind

lemma listRemove (i c : ℕ) : Forest n x (s.listRemove i c) := by
  have hmem {i j : ℕ} (hj : j ∈ (s.procs i).children.erase c) : j ∈ (s.procs i).children := mem_of_mem_erase hj
  cases h
  constructor <;> simp only [State.listRemove, State.modify] <;> first | assumption | grind

lemma procFree (hz : (s.procs c).status = .zombie) (hl : ∀ i, c ∉ (s.procs i).children) :
    Forest n x (s.procFree c) := by
  have hpu (t : T) := h.proc_used (t := t)
  have hlt := h.lt (i := c) (by simp [hz])
  cases h
  constructor <;> simp only [State.procFree, State.modify] <;> first | assumption | grind

lemma orphan (hu : (s.procs c).status = .used) (hp : (s.procs c).parent ≠ none)
    (hl : ∀ i, c ∉ (s.procs i).children) : Forest n x (s.modify c fun p => { p with parent := some initSlot }) := by
  cases h
  constructor <;> simp only [State.modify] <;> first | assumption | grind

end

lemma bury (h : Forest n none s) (ht : s.pc t = .recycled code) : Forest n (some (s.proc t)) (s.bury t code) := by
  have hu := h.proc_used (t := t) (by simp [ht])
  have hthreads := h.alone (.inr ht)
  have hfs := h.recycled ht
  have hf (u : T) : s.pc u ≠ .forking (s.proc t) := by
    intro hu
    rw [(h.forking hu).2.2.2] at hthreads
    cases hthreads
  cases h
  constructor <;> simp only [State.bury, State.leave, State.goto, State.modify] <;> first | assumption | grind

lemma dropChild (h : Forest n x s) (hc : c ∈ (s.procs i).children) : Forest n x (s.dropChild i c) := by
  obtain ⟨hne, hp, hu⟩ := h.listed hc
  have hprocs : (s.listRemove i c).procs c = s.procs c := State.modify_ne hne
  have h1 := h.listRemove i c
  have hl := h.not_mem_listRemove hc
  unfold State.dropChild
  dsimp only
  split_ifs with hz
  · refine (h1.times i (·.reap ((s.listRemove i c).procs c).times)).procFree ?_ fun j => ?_
    · rwa [State.modify_ne hne]
    · rw [State.children_times (·.reap ((s.listRemove i c).procs c).times)]
      exact hl j
  · refine h1.orphan ?_ (by simp [hprocs, hp]) hl
    rw [hprocs] at hz ⊢
    cases hs : (s.procs c).status
    case used => rfl
    case unused => exact absurd hs hu
    case zombie => exact absurd hs hz

lemma drop (P : State T → Prop)
    (hP : ∀ s c, Forest n (some i) s → c ∈ (s.procs i).children → P s → P (s.dropChild i c))
    (h : Forest n (some i) s) (hs : P s) :
    Forest n none ((s.procs i).children.foldl (State.dropChild i) s) ∧
      P ((s.procs i).children.foldl (State.dropChild i) s) := by
  generalize hl : (s.procs i).children = l
  induction l generalizing s with
  | nil => exact ⟨h.close hl, hs⟩
  | cons c rest ih =>
    have hc : c ∈ (s.procs i).children := hl ▸ mem_cons_self
    exact ih (h.dropChild hc) (hP s c h hc hs) (h.children_dropChild hl)

lemma procDestroy {P Q : State T → Prop} (h : Forest n none s) (ht : s.pc t = .recycled code) (hb : P (s.bury t code))
    (hd : ∀ s' c, Forest n (some (s.proc t)) s' → c ∈ (s'.procs (s.proc t)).children → P s' →
      P (s'.dropChild (s.proc t) c))
    (hq : ∀ s', Forest n none s' → P s' →
      Q { s' with exits := s'.exit (s.procs (s.proc t)) code :: s'.exits })
    (hw : ∀ s' j, Q s' → Q (s'.wakeup j)) : Q ((s.leave t).procDestroy (s.proc t) code) := by
  obtain ⟨hf, hp⟩ := drop P hd (h.bury ht) hb
  have hl : (s.leave t).procs (s.proc t) = { s.procs (s.proc t) with
      threads := (s.procs (s.proc t)).threads.erase t } := update_self ..
  rw [State.bury, State.modify_self] at hf hp
  unfold State.procDestroy
  dsimp only
  split_ifs
  · split
    · refine hw _ _ ?_
      rw [hl]
      rw [hl] at hf hp
      exact hq _ hf hp
    · rw [hl] at hf hp ⊢
      exact hq _ hf hp
  · rw [hl] at hf hp ⊢
    exact hq _ hf hp

section

variable (h : Forest n x s)
include h

lemma ret (ht : s.pc t ≠ .free) (hr : ∀ code, s.pc t ≠ .recycled code) (o : Outcome) :
    Forest n x (s.ret t w o) :=
  (h.goto (a := .user) ht nofun nofun (fun code => ⟨hr code, nofun⟩) nofun).aux ..

lemma waitExit (ht : s.pc t ≠ .free) (hr : ∀ code, s.pc t ≠ .recycled code)
    (hz : (s.procs c).status = .zombie) : Forest n x (s.waitExit t w c) := by
  have h1 := h.times (s.proc t) (·.reap (s.procs c).times)
  refine ((h1.unlink c).procFree ?_ (h1.not_mem_unlink c)).ret ht hr _
  rw [← hz]
  exact State.status_times (·.reap (s.procs c).times)

lemma child (ht : s.pc t = .forking c) (htd : s.pc td = .free) :
    Forest n x (((s.procAddtd c td).link (s.proc t) c).goto t .user) := by
  obtain ⟨hu, hp, -, -⟩ := h.forking ht
  have hne : td ≠ t := by
    rintro rfl
    cases htd.symm.trans ht
  have heq : ((s.procAddtd c td).link (s.proc t) c).goto t .user =
      ((s.goto t .user).procAddtd c td).link (s.proc t) c := by
    simp only [State.goto, State.procAddtd, State.link, State.modify, update_comm hne]
  have h1 : Forest n x (s.goto t .user) := h.goto (by simp [ht]) nofun nofun (by simp [ht]) nofun
  have hf (u : T) : (s.goto t .user).pc u ≠ .forking c := by
    intro hu
    by_cases hut : u = t
    · rw [hut, State.goto_self] at hu
      cases hu
    · rw [State.goto_ne hut] at hu
      exact hut (h.forking_unique hu ht)
  have ha (u : T) (code : BitVec 32) (hu : s.proc u = c) :
      (s.goto t .user).pc u ≠ .tested code true ∧ (s.goto t .user).pc u ≠ .recycled code := by
    have hfree : s.pc u = .free := by_contra fun hfree => h.proc_ne_of_forking ht hfree hu
    rw [State.goto_ne (by rintro rfl; cases hfree.symm.trans ht), hfree]
    exact ⟨nofun, nofun⟩
  have hpne : s.proc t ≠ c := h.proc_ne_of_forking ht (by simp [ht])
  have hft (u : T) : ((s.goto t .user).procAddtd c td).pc u ≠ .forking c ∧
      ((s.goto t .user).procAddtd c td).pc u ≠ .forking (s.proc t) := by
    by_cases hu : u = td
    · rw [hu, State.procAddtd_pc_self]
      exact ⟨nofun, nofun⟩
    · rw [State.procAddtd_pc_ne hu]
      exact ⟨hf u, fun hu => h1.proc_ne_of_forking (t := t) hu (by simp) rfl⟩
  rw [heq]
  refine (h1.procAddtd hu ((State.goto_ne hne).trans htd) hf ha).link ?_ hpne ?_ ?_ hft
  · exact (State.status_procAddtd td).trans (h.proc_used (by simp [ht]))
  · exact (State.status_procAddtd td).trans hu
  · exact (State.parent_procAddtd td).trans hp

lemma exit (ht : s.pc t = .user) (code : BitVec 32) :
    Forest n x (s.goto t (.tested code ((s.procs (s.proc t)).threads.head? =
      (s.procs (s.proc t)).threads.getLast?))) := by
  refine h.goto (by simp [ht]) nofun nofun (by simp [ht]) fun code' hcode => ?_
  have hmem := (h.mem_threads t _).mpr ⟨by simp [ht], rfl⟩
  have hnodup := h.threads_nodup (s.proc t)
  rw [Pc.tested.injEq, decide_eq_true_eq] at hcode
  match hl : (s.procs (s.proc t)).threads with
  | [] =>
    rw [hl] at hmem
    cases hmem
  | [u] =>
    rw [hl, mem_singleton] at hmem
    rw [hmem]
  | u :: v :: r =>
    rw [hl, getLast?_cons_cons] at hcode
    rw [hl, nodup_cons] at hnodup
    exact absurd (mem_of_getLast? hcode.2.symm) hnodup.1

lemma create (hfree : s.freelist = c :: rest) (htd : s.pc td = .free) :
    Forest n x ((s.procAlloc c rest).procAddtd c td) := by
  have hu := ((h.mem_free c).mp (hfree ▸ mem_cons_self)).2
  refine (h.procAlloc hfree).procAddtd (congrArg Proc.status State.modify_self) htd (fun u hf => ?_) fun u code hp => ?_
  · cases hu.symm.trans (h.forking hf).1
  · have hpc : (s.procAlloc c rest).pc u = .free := by
      by_contra hpc
      change s.proc u = c at hp
      rw [← hp, h.proc_used hpc] at hu
      cases hu
    rw [hpc]
    exact ⟨nofun, nofun⟩

lemma spawn (ht : s.pc t = .user) (htd : s.pc td = .free) :
    Forest n x (s.procAddtd (s.proc t) td) := by
  have hne : s.pc t ≠ .free := by simp [ht]
  refine h.procAddtd (h.proc_used hne) htd (fun u hf => h.proc_ne_of_forking hf hne rfl) fun u code hp => ?_
  have hmem := (h.mem_threads t (s.proc u)).mpr ⟨hne, hp.symm⟩
  constructor
  · intro hu
    rw [h.alone (.inl hu), mem_singleton] at hmem
    cases ht.symm.trans (hmem ▸ hu)
  · intro hu
    rw [h.alone (.inr hu), mem_singleton] at hmem
    cases ht.symm.trans (hmem ▸ hu)

end

theorem effect {ev : Event T} (h : Forest n none s) (he : Effect s ev s') : Forest n none s' := by
  cases he with
  | idle => exact h
  | panic => exact h.aux ..
  | create hfree htd => exact h.create hfree htd
  | fork hfree ht => exact h.fork hfree ht nofun
  | child ht htd => exact h.child ht htd
  | spawn ht htd => exact h.spawn ht htd
  | exit ht => exact h.exit ht _
  | recycle ht => exact h.recycle ht
  | leave ht => exact h.leave ⟨_, ht⟩
  | destroy ht =>
    exact h.procDestroy (P := fun _ => True) ht trivial (fun _ _ _ _ => id) (fun _ hf _ => hf.aux ..)
      fun _ j hf => hf.wakeup j
  | echild hc => exact h.ret hc.ne_free hc.ne_recycled _
  | nohang hc => exact h.ret hc.ne_free hc.ne_recycled _
  | sleepAny hc => exact h.goto hc.ne_free nofun nofun (fun code => ⟨hc.ne_recycled code, nofun⟩) nofun
  | sleepFor hc => exact h.goto hc.ne_free nofun nofun (fun code => ⟨hc.ne_recycled code, nofun⟩) nofun
  | reapAny hc _ _ hz => exact h.waitExit hc.ne_free hc.ne_recycled hz
  | reap hc _ hz => exact h.waitExit hc.ne_free hc.ne_recycled hz

end Forest

end FarmOS.Process

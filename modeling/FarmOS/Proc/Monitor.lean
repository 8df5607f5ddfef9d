import FarmOS.Proc.Settled

/-! A condition guarded by a spin lock: it is waited for with `sleep` and announced with `wakeup`. If every change
that makes it true is followed by a `wakeup` before the lock is released, no wakeup is lost. -/

set_option linter.unusedSectionVars false

namespace FarmOS.Proc

open Lib Function List

variable {C T X Ch L G E : Type} [DecidableEq C] [Fintype C] [DecidableEq T] [DecidableEq X] [DecidableEq Ch]
  {cl : Client T X Ch L G E} {s s' : State C T X Ch L G} {st : Store C T X Ch L G} {c c' : C} {e : E} {t : T}
  {n p : Pos T X Ch L} {m : X} {ch : Ch} {w : Wakeup T Ch} {hs : List X} {l : L} {chan : Ch} {mtx : X}
  {st' : Store C T X Ch L G}

def Do.Serves (ch : Ch) (due : L → Prop) : Do T X Ch L G → Prop
  | .wakeup chan _ => chan = ch
  | .mtxLock _ l | .mtxUnlock _ l => due l
  | .compute _ _ | .fail | .rest => True
  | _ => False

-- `cond t` is what `t` waits for, and `due` are the locations at which a condition has been made true and the
-- `wakeup` is still to be called. `A` holds wherever the client is in its own code and takes a turn.
structure Monitor (cl : Client T X Ch L G E) (held : L → List X) (A : T → L → G → E → Prop) (m : X) (ch : Ch)
    (cond : T → G → Prop) (due : L → Prop) : Prop where
  disciplined : cl.Disciplined held
  sleep {t : T} {l l' : L} {g : G} {e : E} {x : X} : A t l g e → cl.act t l g e = .sleep ch x l' → x = m ∧ ¬ cond t g
  guarded {t u : T} {l l' : L} {g g' : G} {e : E} :
    A t l g e → cl.act t l g e = .compute l' g' → m ∈ held l ∨ (cond u g' ↔ cond u g)
  announced {t u : T} {l l' : L} {g g' : G} {e : E} :
    A t l g e → cl.act t l g e = .compute l' g' → due l ∨ ¬ cond u g → cond u g' → due l'
  due_held {l : L} : due l → m ∈ held l
  due_serves {t : T} {l : L} {g : G} {e : E} : due l → (cl.act t l g e).Serves ch due

def Pos.Due (m : X) (ch : Ch) (due : L → Prop) : Pos T X Ch L → Prop
  | .thread _ (.user _ l) => due l
  | .thread _ (.wakeup w hs _) => w.chan = ch ∧ m ∈ hs
  | _ => False

def Pos.Falling (ch : Ch) (t : T) : Pos T X Ch L → Prop
  | .thread u (.sleep .lockTd chan _ _ _) | .thread u (.sleep .enqueue chan _ _ _) => u = t ∧ chan = ch
  | _ => False

def Store.Waits (st : Store C T X Ch L G) (ch : Ch) (t : T) : Prop := t ∈ st.sleepq ∧ st.wchan t = some ch

structure Off (ch : Ch) (s : State C T X Ch L G) (t : T) : Prop where
  asleep : ¬ s.store.Waits ch t
  falling (c : C) : ¬ (s.pos c).Falling ch t

def Clear (ch : Ch) (s : State C T X Ch L G) : Prop := ∀ t, Off ch s t

def Wakeup.Scanned (ch : Ch) (s : State C T X Ch L G) : Wakeup T Ch → Prop
  | ⟨.enter, _, _⟩ | ⟨.first, _, _⟩ => True
  | ⟨.scan rest, _, _⟩ | ⟨.unlockTd _ rest, _, _⟩ => ∀ t, s.store.Waits ch t → t ∈ rest
  | ⟨.check td rest, _, _⟩ => ∀ t, s.store.Waits ch t → t ∈ td :: rest
  | ⟨.exitSleepq, _, _⟩ | ⟨.concat, _, _⟩ | ⟨.exitRunq, _, _⟩ => Clear ch s

def Pos.Before (m : X) (ch : Ch) (P : T → Prop) : Pos T X Ch L → Prop
  | .thread t (.sleep .enter chan x _ _) | .thread t (.sleep .unlockMtx chan x _ _) => chan = ch → x = m ∧ ¬ P t
  | .thread _ (.sleep _ chan x _ _) => chan = ch → x = m
  | _ => True

def Pos.Scanned (m : X) (ch : Ch) (s : State C T X Ch L G) : Pos T X Ch L → Prop
  | .thread _ (.wakeup w hs _) => w.chan = ch → m ∈ hs → w.Scanned ch s
  | _ => True

structure Watched (m : X) (ch : Ch) (cond : T → G → Prop) (due : L → Prop) (s : State C T X Ch L G) : Prop where
  before (c : C) : (s.pos c).Before m ch (cond · s.store.glob)
  told {t : T} : cond t s.store.glob → (∃ c, (s.pos c).Due m ch due) ∨ Off ch s t
  scanned (c : C) : (s.pos c).Scanned m ch s

def Through (m : X) (ch : Ch) (cond : T → G → Prop) (due : L → Prop) (s : State C T X Ch L G) (c : C)
    (st : Store C T X Ch L G) (n : Pos T X Ch L) : Prop :=
  ∀ s' : State C T X Ch L G, s'.pos = update s.pos c n → s'.store = st → Watched m ch cond due s'

section

variable {held : L → List X} {A : T → L → G → E → Prop} {cond : T → G → Prop} {due : L → Prop}

lemma Wakeup.Scanned.mono (h : w.Scanned ch s)
    (hw : .sleepq ∈ w.held (X := X) → ∀ t, s'.store.Waits ch t → s.store.Waits ch t)
    (hc : Clear ch s → Clear ch s') : w.Scanned ch s' := by
  obtain ⟨pc, chan, readyq⟩ := w
  cases pc with
  | enter | first => trivial
  | scan | unlockTd | check => exact fun t ht => h t (hw (by simp [Wakeup.held]) t ht)
  | exitSleepq | concat | exitRunq => exact hc h

lemma Pos.Scanned.mono (h : p.Scanned m ch s)
    (hw : .sleepq ∈ p.held → ∀ t, s'.store.Waits ch t → s.store.Waits ch t)
    (hc : .mtx m ∈ p.held → Clear ch s → Clear ch s') : p.Scanned m ch s' := by
  cases p with
  | own o => trivial
  | thread t k =>
    cases k with
    | wakeup w hs l =>
      exact fun hch hm => (h hch hm).mono (fun hq => hw (mem_append_left _ hq))
        (hc (mem_append_right _ (mem_map_of_mem hm)))
    | _ => trivial

lemma Pos.Before.change {P Q : T → Prop} (h : p.Before m ch P) (hn : p.Noted held)
    (hP : .mtx m ∈ p.held → ∀ t, Q t → P t) : p.Before m ch Q := by
  cases p with
  | own o => trivial
  | thread t k =>
    cases k with
    | sleep pc chan x hs l =>
      obtain ⟨hk, -⟩ : hs = pc.keeps x ∧ held l = [x] := hn
      cases pc with
      | enter | unlockMtx =>
        intro hch
        obtain ⟨rfl, hnot⟩ := h hch
        refine ⟨rfl, fun hq => hnot (hP ?_ t hq)⟩
        simp [Pos.held, Ctl.held, hk, SleepPc.keeps, mtxs]
      | lockTd | enqueue => exact h
    | _ => trivial

lemma Pos.Falling.sleepq_mem (h : p.Falling ch t) : .sleepq ∈ p.held := by
  cases p with
  | own o => exact absurd h id
  | thread u k =>
    cases k with
    | sleep pc chan x hs l => cases pc <;> first | exact absurd h id | simp [Pos.held, Ctl.held]
    | _ => exact absurd h id

namespace Watched

section

variable (h : Watched m ch cond due s) (hl : Locked s)
include h hl

lemma move (hp : s'.pos = update s.pos c n) (hg : s'.store.glob = s.store.glob)
    (hw : ∀ t, s'.store.Waits ch t → s.store.Waits ch t) (hdue : (s.pos c).Due m ch due → n.Due m ch due ∨ Clear ch s)
    (hfall : ∀ t, n.Falling ch t → (s.pos c).Falling ch t ∨ ¬ cond t s.store.glob ∧ .mtx m ∈ s.held c)
    (hbefore : n.Before m ch (cond · s.store.glob)) (hscan : n.Scanned m ch s') : Watched m ch cond due s' := by
  have hself : s'.pos c = n := by rw [hp, update_self]
  have hother : ∀ {c'}, c' ≠ c → s'.pos c' = s.pos c' := fun hc => by rw [hp, update_of_ne hc]
  have hoff : ∀ {t}, Off ch s t → (cond t s.store.glob ∨ .mtx m ∉ s.held c) → Off ch s' t := by
    refine fun {t} hc hor => ⟨fun ht => hc.asleep (hw t ht), fun c' hf => ?_⟩
    by_cases he : c' = c
    · subst he
      rw [hself] at hf
      rcases hfall t hf with hf' | ⟨hn, hm⟩
      · exact hc.falling c' hf'
      · exact hor.elim hn fun hm' => hm' hm
    · rw [hother he] at hf
      exact hc.falling c' hf
  refine ⟨fun c' => ?_, fun {t} hcond => ?_, fun c' => ?_⟩
  · rw [hg]
    by_cases he : c' = c
    · subst he
      rwa [hself]
    · rw [hother he]
      exact h.before c'
  · rw [hg] at hcond
    rcases h.told hcond with ⟨c1, hd⟩ | hc
    · by_cases he : c1 = c
      · subst he
        rcases hdue hd with hd' | hc
        · exact .inl ⟨c1, hself ▸ hd'⟩
        · exact .inr (hoff (hc t) (.inl hcond))
      · exact .inl ⟨c1, hother he ▸ hd⟩
    · exact .inr (hoff hc (.inl hcond))
  · by_cases he : c' = c
    · subst he
      rwa [hself]
    · rw [hother he]
      exact (h.scanned c').mono (fun _ => hw) fun hm hc t => hoff (hc t) (.inr fun hm' => he (hl.exclusive hm hm'))

lemma pass (hp : s'.pos = update s.pos c n) (hg : s'.store.glob = s.store.glob)
    (hw : ∀ t, s'.store.Waits ch t → s.store.Waits ch t) (hd : ¬ (s.pos c).Due m ch due)
    (hn : n.call ≠ some .sleep ∧ n.call ≠ some .wakeup) : Watched m ch cond due s' := by
  refine h.move hl hp hg hw (fun hd' => absurd hd' hd) (fun t hf => ?_) ?_ ?_
  · cases n with
    | own o => exact absurd hf id
    | thread u k =>
      cases k with
      | sleep => exact absurd rfl hn.1
      | _ => exact absurd hf id
  · cases n with
    | own o => trivial
    | thread u k =>
      cases k with
      | sleep => exact absurd rfl hn.1
      | _ => trivial
  · cases n with
    | own o => trivial
    | thread u k =>
      cases k with
      | wakeup => exact absurd rfl hn.2
      | _ => trivial

lemma compute {l' : L} {g' : G} (hm : Monitor cl held A m ch cond due) (hn : Noted held s)
    (hc : s.pos c = .thread t (.user hs l)) (hA : A t l s.store.glob e)
    (ha : cl.act t l s.store.glob e = .compute l' g')
    (hp : s'.pos = update s.pos c (.thread t (.user hs l'))) (hst : s'.store = { s.store with glob := g' }) :
    Watched m ch cond due s' := by
  have hself : s'.pos c = .thread t (.user hs l') := by rw [hp, update_self]
  have hother : ∀ {c'}, c' ≠ c → s'.pos c' = s.pos c' := fun hc => by rw [hp, update_of_ne hc]
  have hheld : held l = hs := by
    have := hn.pos c
    rw [hc] at this
    exact Eq.symm this
  have hwaits : ∀ t, s'.store.Waits ch t → s.store.Waits ch t := fun t ht => by
    rw [hst] at ht
    exact ht
  have hoff : ∀ {t}, Off ch s t → Off ch s' t := by
    refine fun {t} hcl => ⟨fun ht => hcl.asleep (hwaits t ht), fun c' hf => ?_⟩
    by_cases he : c' = c
    · subst he
      rw [hself] at hf
      exact hf
    · rw [hother he] at hf
      exact hcl.falling c' hf
  have hg : s'.store.glob = g' := by rw [hst]
  refine ⟨fun c' => ?_, fun {u} hcond => ?_, fun c' => ?_⟩
  · rw [hg]
    by_cases he : c' = c
    · subst he
      rw [hself]
      trivial
    · rw [hother he]
      refine (h.before c').change (hn.pos c') fun hm' u hg' => ?_
      rcases hm.guarded hA ha with hmem | hiff
      · refine absurd (hl.exclusive hm' ?_) he
        rw [State.held, hc]
        exact mem_map_of_mem (hheld ▸ hmem)
      · exact hiff.mp hg'
  · rw [hg] at hcond
    by_cases hd : due l ∨ ¬ cond u s.store.glob
    · exact .inl ⟨c, hself ▸ hm.announced hA ha hd hcond⟩
    · obtain ⟨hnd, hcg⟩ := not_or.mp hd
      rcases h.told (not_not.mp hcg) with ⟨c1, hd1⟩ | hcl
      · by_cases he : c1 = c
        · subst he
          rw [hc] at hd1
          exact absurd hd1 hnd
        · exact .inl ⟨c1, hother he ▸ hd1⟩
      · exact .inr (hoff hcl)
  · by_cases he : c' = c
    · subst he
      rw [hself]
      trivial
    · rw [hother he]
      exact (h.scanned c').mono (fun _ => hwaits) fun _ hcl t => hoff (hcl t)

lemma enqueue {o : Own T X Ch}
    (hc : s.pos c = .thread t (.sleep .enqueue chan mtx hs l)) (hp : s'.pos = update s.pos c (.own o))
    (hg : s'.store.glob = s.store.glob) (hq : s'.store.sleepq = t :: s.store.sleepq)
    (hw : s'.store.wchan = update s.store.wchan t (some chan)) : Watched m ch cond due s' := by
  have hwaits : ∀ u, s'.store.Waits ch u → u = t ∧ chan = ch ∨ s.store.Waits ch u := by
    intro u ⟨h1, h2⟩
    rw [hq] at h1
    rw [hw] at h2
    by_cases hu : u = t
    · subst hu
      rw [update_self] at h2
      exact .inl ⟨rfl, Option.some.inj h2⟩
    · rw [update_of_ne hu] at h2
      exact .inr ⟨(mem_cons.mp h1).resolve_left hu, h2⟩
  by_cases hch : chan = ch
  swap
  · exact h.pass hl hp hg (fun u hu => (hwaits u hu).resolve_left fun hx => hch hx.2)
      (by rw [hc]; exact id) ⟨nofun, nofun⟩
  have hfalling : (s.pos c).Falling ch t := by
    rw [hc]
    exact ⟨rfl, hch⟩
  have hother : ∀ {c'}, c' ≠ c → s'.pos c' = s.pos c' := fun hc => by rw [hp, update_of_ne hc]
  have hself : s'.pos c = .own o := by rw [hp, update_self]
  refine ⟨fun c' => ?_, fun {u} hcond => ?_, fun c' => ?_⟩
  · by_cases he : c' = c
    · subst he
      rw [hself]
      trivial
    · rw [hother he, hg]
      exact h.before c'
  · rw [hg] at hcond
    rcases h.told hcond with ⟨c1, hd⟩ | hoff
    · refine .inl ⟨c1, ?_⟩
      rwa [hother fun he => ?_]
      subst he
      rw [hc] at hd
      exact hd
    · have hu : u ≠ t := fun hu => hoff.falling c (hu ▸ hfalling)
      refine .inr ⟨fun hw' => hoff.asleep ((hwaits u hw').resolve_left fun hx => hu hx.1), fun c' hf => ?_⟩
      by_cases he : c' = c
      · subst he
        rw [hself] at hf
        exact hf
      · rw [hother he] at hf
        exact hoff.falling c' hf
  · by_cases he : c' = c
    · subst he
      rw [hself]
      trivial
    · rw [hother he]
      exact (h.scanned c').mono (fun hq' => absurd (hl.exclusive hq' hfalling.sleepq_mem) he)
        fun _ hcl => absurd hfalling ((hcl t).falling c)

lemma wakeup (hn : s.store.sleepq.Nodup) (hc : s.pos c = .thread t (.wakeup w hs l)) :
    (wakeupStmt s.store (fun w => .thread t (.wakeup w hs l)) (.thread t (.user hs l)) w).Moves
    (Through m ch cond due s c) s.store := by
  have hscan := h.scanned c
  have hheld : .sleepq ∈ w.held (X := X) → .sleepq ∈ s.held c := fun hq => by
    rw [State.held, hc]
    exact mem_append_left _ hq
  rw [hc] at hscan
  have hnext : ∀ {w' : Wakeup T Ch} {s' : State C T X Ch L G},
      s'.pos = update s.pos c (.thread t (.wakeup w' hs l)) → w'.chan = w.chan →
      s'.store.glob = s.store.glob → (∀ u, s'.store.Waits ch u → s.store.Waits ch u) →
      (w.chan = ch → w.Scanned ch s → (Clear ch s → Clear ch s') → w'.Scanned ch s') → Watched m ch cond due s' := by
    intro w' s' hp hch hg hw hs'
    refine h.move hl hp hg hw (fun hd => .inl ?_) (fun _ hf => absurd hf id) trivial fun hch' hm =>
      hs' (hch ▸ hch') (hscan (hch ▸ hch') hm) fun hcl u => ⟨fun hu => (hcl u).asleep (hw u hu), fun c' hf => ?_⟩
    · rw [hc] at hd
      exact ⟨hch.trans hd.1, hd.2⟩
    · by_cases he : c' = c
      · subst he
        rw [hp, update_self] at hf
        exact hf
      · rw [hp, update_of_ne he] at hf
        exact (hcl u).falling c' hf
  obtain ⟨pc, chan, readyq⟩ := w
  cases pc with
  | enter => exact fun s' hp hst => hnext hp rfl (hst ▸ rfl) (hst ▸ fun _ hu => hu) fun _ _ _ => trivial
  | first =>
    exact fun s' hp hst => hnext hp rfl (hst ▸ rfl) (hst ▸ fun _ hu => hu) fun _ _ _ u hu => (hst ▸ hu).1
  | scan rest =>
    cases rest with
    | nil =>
      refine fun s' hp hst => hnext hp rfl (hst ▸ rfl) (hst ▸ fun _ hu => hu) fun _ hs' _ u =>
        ⟨fun hu => ?_, fun c' hf => ?_⟩
      · exact absurd (hs' u (hst ▸ hu)) not_mem_nil
      · by_cases he : c' = c
        · subst he
          rw [hp, update_self] at hf
          exact hf
        · rw [hp, update_of_ne he] at hf
          exact he (hl.exclusive hf.sleepq_mem (hheld (by simp [Wakeup.held])))
    | cons td rest =>
      exact fun s' hp hst => hnext hp rfl (hst ▸ rfl) (hst ▸ fun _ hu => hu) fun _ hs' _ u hu => hs' u (hst ▸ hu)
  | check td rest =>
    rw [wakeupStmt]
    split_ifs with hs1 hs2
    · trivial
    · refine fun s' hp hst => hnext hp rfl (hst ▸ rfl) (fun u hu => ?_) fun _ hs' _ u hu => ?_
      · rw [hst] at hu
        exact ⟨mem_of_mem_erase hu.1, hu.2⟩
      · rw [hst] at hu
        obtain ⟨hne, hmem⟩ := hn.mem_erase_iff.mp hu.1
        exact (mem_cons.mp (hs' u ⟨hmem, hu.2⟩)).resolve_left hne
    · refine fun s' hp hst => hnext hp rfl (hst ▸ rfl) (hst ▸ fun _ hu => hu) fun hch hs' _ u hu => ?_
      rw [hst] at hu
      refine (mem_cons.mp (hs' u hu)).resolve_left fun he => hs2 ?_
      rw [← he, hu.2]
      exact congrArg some hch.symm
  | unlockTd td rest =>
    exact fun s' hp hst => hnext hp rfl (hst ▸ rfl) (hst ▸ fun _ hu => hu) fun _ hs' _ u hu => hs' u (hst ▸ hu)
  | exitSleepq => exact fun s' hp hst => hnext hp rfl (hst ▸ rfl) (hst ▸ fun _ hu => hu) fun _ hs' hcl => hcl hs'
  | concat =>
    refine fun s' hp hst => hnext hp rfl (hst ▸ rfl) (fun u hu => ?_) fun _ hs' hcl => hcl hs'
    rw [hst] at hu
    exact hu
  | exitRunq =>
    refine fun s' hp hst => h.move hl hp (hst ▸ rfl) (hst ▸ fun _ hu => hu) (fun hd => .inr ?_)
      (fun _ hf => absurd hf id)
      trivial trivial
    rw [hc] at hd
    exact hscan hd.1 hd.2

lemma user (hm : Monitor cl held A m ch cond due) (hn : Noted held s)
    (hc : s.pos c = .thread t (.user hs l)) (hA : A t l s.store.glob e) (d : Do T X Ch L G)
    (ha : cl.act t l s.store.glob e = d) :
    (userStmt s.store t hs d).Moves (Through m ch cond due s c) s.store := by
  have hheld : hs = held l := by
    have := hn.pos c
    rwa [hc] at this
  have hserves : (s.pos c).Due m ch due → d.Serves ch due ∧ m ∈ hs := by
    intro hd
    rw [hc] at hd
    exact ⟨ha ▸ hm.due_serves hd, hheld ▸ hm.due_held hd⟩
  cases d with
  | fail | rest => trivial
  | compute l' g' => exact fun s' hp hst => h.compute hl hm hn hc hA ha hp hst
  | sleep chan x l' =>
    refine fun s' hp hst => h.move hl hp (hst ▸ rfl) (hst ▸ fun _ hu => hu) (fun hd => absurd (hserves hd).1 id)
      (fun _ hf => absurd hf id) ?_ trivial
    rintro rfl
    exact hm.sleep hA ha
  | wakeup chan l' =>
    exact fun s' hp hst => h.move hl hp (hst ▸ rfl) (hst ▸ fun _ hu => hu) (fun hd => .inl (hserves hd))
      (fun _ hf => absurd hf id) trivial fun _ _ => trivial
  | mtxLock x l' | mtxUnlock x l' =>
    exact fun s' hp hst => h.move hl hp (hst ▸ rfl) (hst ▸ fun _ hu => hu) (fun hd => .inl (hserves hd).1)
      (fun _ hf => absurd hf id) trivial trivial
  | _ =>
    exact fun s' hp hst => h.pass hl hp (hst ▸ rfl) (hst ▸ fun _ hu => hu) (fun hd => (hserves hd).1) ⟨nofun, nofun⟩

lemma sleep {pc : SleepPc} (hn : Noted held s) (hc : s.pos c = .thread t (.sleep pc chan mtx hs l)) :
    (sleepStmt s.store t chan mtx hs l pc).Moves (Through m ch cond due s c) s.store := by
  have hbefore := h.before c
  have hnoted := hn.pos c
  have hnot : ¬ (s.pos c).Due m ch due := by
    rw [hc]
    exact id
  rw [hc] at hbefore hnoted
  cases pc with
  | enter =>
    exact fun s' hp hst => h.move hl hp (hst ▸ rfl) (hst ▸ fun _ hu => hu) (fun hd => absurd hd hnot)
      (fun _ hf => absurd hf id) hbefore trivial
  | unlockMtx =>
    refine fun s' hp hst => h.move hl hp (hst ▸ rfl) (hst ▸ fun _ hu => hu) (fun hd => absurd hd hnot)
      (fun _ hf => .inr ?_) (fun hch => (hbefore hch).1) trivial
    obtain ⟨rfl, hch⟩ := hf
    obtain ⟨rfl, hcond⟩ := hbefore hch
    obtain ⟨rfl, -⟩ : hs = SleepPc.unlockMtx.keeps mtx ∧ held l = [mtx] := hnoted
    refine ⟨hcond, ?_⟩
    rw [State.held, hc]
    simp [Pos.held, Ctl.held, SleepPc.keeps, mtxs]
  | lockTd =>
    rw [sleepStmt]
    split_ifs
    · trivial
    · exact fun s' hp hst => h.move hl hp (hst ▸ rfl) (hst ▸ fun _ hu => hu) (fun hd => absurd hd hnot)
        (fun _ hf => .inl (hc ▸ hf)) hbefore trivial
  | enqueue => exact fun s' hp hst => h.enqueue hl hc hp (hst ▸ rfl) (hst ▸ rfl) (hst ▸ rfl)

end

end Watched

def Store.Fewer (ch : Ch) (st st' : Store C T X Ch L G) : Prop :=
  st'.glob = st.glob ∧ ∀ t, st'.Waits ch t → st.Waits ch t

lemma Store.Fewer.refl (ch : Ch) (st : Store C T X Ch L G) : st.Fewer ch st := ⟨rfl, fun _ h => h⟩

lemma Store.Fewer.erase (td : T) (hg : st'.glob = st.glob) (hw : st'.wchan = st.wchan)
    (hq : st'.sleepq = st.sleepq.erase td) : st.Fewer ch st' :=
  ⟨hg, fun _ h => ⟨mem_of_mem_erase (hq ▸ h.1), hw ▸ h.2⟩⟩

lemma Store.Fewer.clear (td : T) (hg : st'.glob = st.glob)
    (hw : st'.wchan = update st.wchan td none) (hq : st'.sleepq = st.sleepq) : st.Fewer ch st' := by
  refine ⟨hg, fun u ⟨h1, h2⟩ => ⟨hq ▸ h1, ?_⟩⟩
  rw [hw] at h2
  by_cases hu : u = td
  · subst hu
    rw [update_self] at h2
    cases h2
  · rwa [update_of_ne hu] at h2

lemma threadStmt_fewer (k : Ctl T X Ch L) (hk : k.call ≠ some .sleep) (hu : ∀ hs l, k ≠ .user hs l) :
    (threadStmt cl st t e k).Writes (st.Fewer ch) := by
  cases k with
  | user hs l => exact absurd rfl (hu hs l)
  | sleep => exact absurd rfl hk
  | woken pc mtx l =>
    cases pc with
    | clear => exact .clear t rfl rfl rfl
    | _ => trivial
  | yield pc hs l =>
    cases pc with
    | lockTd => trivial
    | setStatus => exact .refl ch st
  | wakeup w hs l =>
    rw [threadStmt]
    exact wakeupStmt_writes w (.refl ch st) (fun td _ => .erase td rfl rfl rfl) fun _ => .refl ch st
  | wakeupTd pc td hs l =>
    rw [threadStmt]
    exact wakeupTdStmt_writes (.refl ch st) (.erase td rfl rfl rfl) (.refl ch st) pc
  | tdFork pc hs l =>
    cases pc with
    | first =>
      rw [threadStmt, tdForkStmt]
      split
      all_goals trivial
    | init td => exact .clear td rfl rfl rfl
    | remove | setStatus | insert => exact .refl ch st
    | _ => trivial
  | tdDestroy pc hs =>
    cases pc with
    | lockTd => trivial
    | reset => exact .refl ch st
  | resumed l => trivial
  | destroyed => trivial

lemma ownStmt_fewer {locks : Locks C (Lock T X)} (o : Own T X Ch) : (ownStmt cl locks st c e o).Writes
    (st.Fewer ch) := by
  cases o with
  | schedule | requeue | probe =>
    rw [ownStmt]
    split_ifs
    all_goals first | trivial | exact .refl ch st
  | look | idle =>
    rw [ownStmt]
    split
    all_goals first | trivial | exact .refl ch st
  | wakeup w =>
    rw [ownStmt]
    exact wakeupStmt_writes w (.refl ch st) (fun td _ => .erase td rfl rfl rfl) fun _ => .refl ch st
  | insertFreeq | schedSwitch | removeNext | enter => exact .refl ch st
  | _ => trivial

lemma threadStmt_leaves (k : Ctl T X Ch L) (hk : k.call ≠ some .sleep ∧ k.call ≠ some .wakeup)
    (hu : ∀ hs l, k ≠ .user hs l) :
    (threadStmt cl st t e k).Next fun n => n.call ≠ some .sleep ∧ n.call ≠ some .wakeup := by
  cases k with
  | user hs l => exact absurd rfl (hu hs l)
  | sleep => exact absurd rfl hk.1
  | wakeup => exact absurd rfl hk.2
  | woken pc mtx l => cases pc <;> exact ⟨by rintro ⟨⟩, by rintro ⟨⟩⟩
  | yield pc hs l => cases pc <;> exact ⟨by rintro ⟨⟩, by rintro ⟨⟩⟩
  | resumed l => exact ⟨by rintro ⟨⟩, by rintro ⟨⟩⟩
  | wakeupTd pc td hs l =>
    rw [threadStmt]
    exact wakeupTdStmt_next (fun _ => ⟨by rintro ⟨⟩, by rintro ⟨⟩⟩) ⟨by rintro ⟨⟩, by rintro ⟨⟩⟩ pc
  | tdFork pc hs l =>
    rw [threadStmt]
    exact tdForkStmt_next (fun _ => ⟨by rintro ⟨⟩, by rintro ⟨⟩⟩) ⟨by rintro ⟨⟩, by rintro ⟨⟩⟩ pc
  | tdDestroy pc hs => cases pc <;> exact ⟨by rintro ⟨⟩, by rintro ⟨⟩⟩
  | destroyed => trivial

section

variable (h : Watched m ch cond due s)
include h

lemma Watched.stmt (hm : Monitor cl held A m ch cond due) (hn : Noted held s)
    (hq : s.store.sleepq.Nodup) (hA : ∀ {t hs l}, s.pos c = .thread t (.user hs l) → A t l s.store.glob e) :
    (stmt cl s c e).Moves (Through m ch cond due s c) s.store := by
  have hpass : ¬ (s.pos c).Due m ch due → ∀ (st : Store C T X Ch L G) (n : Pos T X Ch L), s.store.Fewer ch st →
      n.call ≠ some .sleep ∧ n.call ≠ some .wakeup → Through m ch cond due s c st n := by
    rintro hd st n ⟨hg, hw⟩ hcall s' hp rfl
    exact h.pass hn.locked hp hg hw hd hcall
  rw [Proc.stmt]
  cases hc : s.pos c with
  | thread t k =>
    cases k with
    | user hs l => exact h.user hn.locked hm hn hc (hA hc) _ rfl
    | sleep pc chan mtx hs l => exact h.sleep hn.locked hn hc
    | wakeup w hs l => exact h.wakeup hn.locked hq hc
    | _ =>
      refine (threadStmt_leaves _ ?_ ?_).moves (threadStmt_fewer _ ?_ ?_) (.refl ch s.store) (hpass (hc ▸ id))
      · exact ⟨by rintro ⟨⟩, by rintro ⟨⟩⟩
      · rintro _ _ ⟨⟩
      · rintro ⟨⟩
      · rintro _ _ ⟨⟩
  | own o =>
    exact (ownStmt_call (S := fun _ => False) o).moves (ownStmt_fewer o) (.refl ch s.store)
      fun st n hf hcall => hpass (hc ▸ id) st n hf ⟨fun hx => hcall _ hx, fun hx => hcall _ hx⟩

lemma Watched.congr (hp : s'.pos = s.pos) (hst : s'.store = s.store) :
    Watched m ch cond due s' := by
  obtain ⟨pos, locks, store, stop⟩ := s
  obtain ⟨pos', locks', store', stop'⟩ := s'
  obtain rfl : pos' = pos := hp
  obtain rfl : store' = store := hst
  have hoff : ∀ {t}, Off ch (⟨pos', locks, store', stop⟩ : State C T X Ch L G) t →
      Off ch (⟨pos', locks', store', stop'⟩ : State C T X Ch L G) t := fun hc => ⟨hc.asleep, hc.falling⟩
  exact ⟨h.before, fun hcond => (h.told hcond).imp_right hoff,
    fun c => (h.scanned c).mono (fun _ _ hw => hw) fun _ hc t => hoff (hc t)⟩

lemma Watched.step (hm : Monitor cl held A m ch cond due) (hn : Noted held s)
    (hq : s.store.sleepq.Nodup) (hA : ∀ {t hs l}, s.pos c = .thread t (.user hs l) → A t l s.store.glob e) :
    Watched m ch cond due (step cl s (c, e)) := by
  rcases hn.locked.moves (h.stmt hm hn hq hA) with ⟨hp, hst⟩ | ⟨n, hp, hr⟩
  · exact h.congr hp hst
  · exact hr _ hp rfl

end

lemma Watched.start (glob : G) (created free : List T) :
    Watched m ch cond due (start cl glob created free : State C T X Ch L G) :=
  ⟨fun _ => trivial, fun _ => .inr ⟨fun h => absurd h.1 not_mem_nil, fun _ => id⟩, fun _ => trivial⟩

structure Monitored (held : L → List X) (m : X) (ch : Ch) (cond : T → G → Prop) (due : L → Prop)
    (s : State C T X Ch L G) : Prop where
  noted : Noted held s
  placed : ∃ place, Inv s place
  watched : Watched m ch cond due s

lemma Monitored.step (h : Monitored held m ch cond due s) (hm : Monitor cl held (fun _ _ _ _ => True)
    m ch cond due) (c : C)
    (e : E) (hp : Prompt s c) : Monitored held m ch cond due (step cl s (c, e)) := by
  obtain ⟨place, hi⟩ := h.placed
  exact ⟨h.noted.step hm.disciplined c e, hi.step cl c e hp,
    h.watched.step hm h.noted (hi.nodup .sleepq) fun _ => trivial⟩

lemma Monitor.run {created free : List T} (hm : Monitor cl held (fun _ _ _ _ => True) m ch cond due)
    {S : Call → Prop} (hcl : cl.Only S)
    (hS : ¬ S .wakeupTd) (glob : G) (hn : (created ++ free).Nodup) (ha : ∀ t, t ∈ created ++ free)
    (evs : List (C × E)) : Monitored held m ch cond due (run cl (start cl glob created free) evs) := by
  induction evs using reverseRecOn with
  | nil => exact ⟨.start hm.disciplined glob created free, ⟨_, .start cl glob hn ha⟩, .start glob created free⟩
  | append_singleton evs ev ih =>
    rw [run_snoc]
    exact ih.step hm ev.1 ev.2 (promptRun_of_only hcl hS (.start cl glob created free) (fun _ => rfl) (evs ++ [ev])
      evs ev.1 ev.2 [] rfl)

lemma Watched.off (h : Watched m ch cond due s) (hcond : cond t s.store.glob) (hd : ∀ c, ¬ (s.pos c).Due m ch due) :
    Off ch s t :=
  (h.told hcond).resolve_left fun ⟨c, hc⟩ => hd c hc

lemma Noted.due_held (h : Noted held s) (hm : Monitor cl held A m ch cond due) (hd : (s.pos c).Due m ch due) :
    .mtx m ∈ s.held c := by
  have hn := h.pos c
  rw [State.held]
  cases hp : s.pos c with
  | own o =>
    rw [hp] at hd
    exact absurd hd id
  | thread t k =>
    rw [hp] at hd hn
    cases k with
    | user hs l =>
      obtain rfl : hs = held l := hn
      exact mem_map_of_mem (hm.due_held hd)
    | wakeup w hs l => exact mem_append_right _ (mem_map_of_mem hd.2)
    | _ => exact absurd hd id

lemma Monitored.off (h : Monitored held m ch cond due s) (hm : Monitor cl held A m ch cond due)
    (hcond : cond t s.store.glob) (hfree : s.locks.owner (.mtx m) = none) : Off ch s t :=
  h.watched.off hcond fun c hd => h.noted.locked.not_mem hfree c (h.noted.due_held hm hd)

end

end FarmOS.Proc

import FarmOS.Proc.Monitor

/-! Where every thread is in its client's code, on a CPU or not, and proof outlines: an assertion at each location
that the thread itself establishes and the threads that may run at the same time keep. -/

set_option linter.unusedSectionVars false

namespace FarmOS.Proc

open Lib Function Store List Option

variable {C T X Ch L G E : Type}

inductive Phase (Ch : Type)
  | awake
  | waking (chan : Ch)
  | asleep (chan : Ch)
  | woken

def Phase.Holds : Phase Ch → Prop
  | .awake | .waking _ => True
  | .asleep _ | .woken => False

def Ctl.loc : Ctl T X Ch L → Option (L × Phase Ch)
  | .user _ l | .yield _ _ l | .resumed l | .wakeupTd _ _ _ l | .tdFork _ _ l => some (l, .awake)
  | .wakeup w _ l => some (l, .waking w.chan)
  | .sleep _ chan _ _ l => some (l, .asleep chan)
  | .woken _ _ l => some (l, .woken)
  | .tdDestroy _ _ | .destroyed => none

def Do.loc : Do T X Ch L G → Option (L × Phase Ch)
  | .mtxLock _ l | .mtxUnlock _ l | .yield l | .wakeupTd _ l | .tdFork l | .compute l _ => some (l, .awake)
  | .wakeup chan l => some (l, .waking chan)
  | .sleep chan _ l => some (l, .asleep chan)
  | .tdDestroy | .fail | .rest => none

def Do.glob (g : G) : Do T X Ch L G → G
  | .compute _ g' => g'
  | _ => g

def Pos.Wakes (chan : Ch) : Pos T X Ch L → Prop
  | .thread _ (.wakeup w _ _) | .own (.wakeup w) => w.chan = chan
  | _ => False

variable [DecidableEq C] [Fintype C] [DecidableEq T] [DecidableEq X] [DecidableEq Ch]

def Store.phase (st : Store C T X Ch L G) (t : T) : Phase Ch :=
  match st.wchan t with
  | some chan => if t ∈ st.sleepq then .asleep chan else .woken
  | none => .woken

def Store.loc (st : Store C T X Ch L G) (t : T) : Option (L × Phase Ch) :=
  match st.ctx t with
  | .woken _ l => some (l, st.phase t)
  | .resumed l => some (l, .awake)
  | .destroyed => none

inductive At (s : State C T X Ch L G) (t : T) (p : L × Phase Ch) : Prop
  | cpu {c : C} {k : Ctl T X Ch L} : s.pos c = .thread t k → k.loc = some p → At s t p
  | saved : (∀ c k, s.pos c ≠ .thread t k) → s.store.loc t = some p → At s t p

variable {cl : Client T X Ch L G E} {s s' : State C T X Ch L G} {st st' : Store C T X Ch L G} {c c' : C}
  {e : E} {t u : T}
  {n : Pos T X Ch L} {k k' : Ctl T X Ch L} {p : L × Phase Ch} {place : T → Place C} {held : L → List X}
    {hs : List X} {o : Own T X Ch} {chan : Ch} {l : L} {S : Call → Prop} {ph : Phase Ch}

lemma Store.phase_of_not_mem (h : t ∉ st.sleepq) : st.phase t = .woken := by
  rw [phase]
  split
  · exact if_neg h
  · rfl

lemma Store.loc_congr (hx : st'.ctx t = st.ctx t) (hw : st'.wchan t = st.wchan t)
    (hq : t ∈ st'.sleepq ↔ t ∈ st.sleepq) : st'.loc t = st.loc t := by
  have hph : st'.phase t = st.phase t := by
    rw [phase, phase, hw]
    split
    · exact if_congr hq rfl rfl
    · rfl
  rw [loc, loc, hx, hph]

lemma Store.loc_woken {mtx : X} (hx : st.ctx t = .woken mtx l) (hph : st.phase t = ph) :
    st.loc t = some (l, ph) := by
  rw [loc, hx, hph]

lemma Store.phase_asleep (hw : st.wchan t = some chan) (hq : t ∈ st.sleepq) : st.phase t = .asleep chan := by
  rw [phase, hw]
  exact if_pos hq

lemma Store.loc_ctl (h : t ∉ st.sleepq) : ((st.ctx t).ctl : Ctl T X Ch L).loc = st.loc t := by
  rw [loc, phase_of_not_mem h]
  cases st.ctx t <;> rfl

def Store.Roused (chan : Ch) (st st' : Store C T X Ch L G) (t : T) : Prop :=
  ∃ l, st.loc t = some (l, .asleep chan) ∧ st'.loc t = some (l, .woken)

def Keeps (s : State C T X Ch L G) (c : C) (st : Store C T X Ch L G) (t : T) : Prop :=
  st.loc t = s.store.loc t ∨ ∃ chan, (s.pos c).Wakes chan ∧ s.store.Roused chan st t

lemma Keeps.erase {td : T} (hn : s.store.sleepq.Nodup) (hp : (s.pos c).Wakes chan)
    (htd : s.store.wchan td = some chan) (t : T) :
    Keeps s c { s.store.setStatus td .runnable with sleepq := s.store.sleepq.erase td } t := by
  by_cases ht : t = td
  · subst ht
    by_cases hq : t ∈ s.store.sleepq
    · cases hx : s.store.ctx t with
      | woken mtx l =>
        refine .inr ⟨chan, hp, l, ?_, ?_⟩
        · exact loc_woken hx (phase_asleep htd hq)
        · exact loc_woken hx (phase_of_not_mem hn.not_mem_erase)
      | _ => exact .inl (by simp only [loc, setStatus, hx])
    · exact .inl (loc_congr rfl rfl ((erase_of_not_mem hq).symm ▸ Iff.rfl))
  · exact .inl (loc_congr rfl rfl (mem_erase_of_ne ht))

lemma Inv.alone (h : Inv s place) (hc : s.pos c = .thread t k) (hc' : s.pos c' = .thread t k') : c = c' := by
  have hp := (h.cargo c t .active).mp (hc ▸ mem_cons_self)
  have hp' := (h.cargo c' t .active).mp (hc' ▸ mem_cons_self)
  exact (Place.cpu.inj (hp.symm.trans hp')).1

lemma Inv.away (h : Inv s place) (hc : s.pos c = .own (.enter t)) (c' : C) (k : Ctl T X Ch L) :
    s.pos c' ≠ .thread t k := by
  intro hc'
  have hp := (h.cargo c t .ready).mp (hc ▸ mem_cons_self)
  have hp' := (h.cargo c' t .active).mp (hc' ▸ mem_cons_self)
  exact absurd (Place.cpu.inj (hp.symm.trans hp')).2 nofun

lemma Inv.not_asleep (h : Inv s place) (hc : s.pos c = .own (.enter t)) : t ∉ s.store.sleepq := by
  intro hq
  have hp := (h.cargo c t .ready).mp (hc ▸ mem_cons_self)
  exact absurd (hp.symm.trans ((h.mem .sleepq t).mp hq)) nofun

inductive Shift (cl : Client T X Ch L G E) (s : State C T X Ch L G) (c : C) (e : E) :
    Store C T X Ch L G → Pos T X Ch L → Prop
  | act {t : T} {hs : List X} {l : L} {k : Ctl T X Ch L} {p : L × Phase Ch} {st : Store C T X Ch L G} :
      s.pos c = .thread t (.user hs l) → (cl.act t l s.store.glob e).loc = some p → k.loc = some p →
      (∀ u, st.loc u = s.store.loc u) → st.glob = (cl.act t l s.store.glob e).glob s.store.glob →
      Shift cl s c e st (.thread t k)
  | keep {t : T} {k k' : Ctl T X Ch L} {st : Store C T X Ch L G} : s.pos c = .thread t k → k'.loc = k.loc →
      (∀ u, u ≠ t → Keeps s c st u) → st.glob = s.store.glob → Shift cl s c e st (.thread t k')
  | back {t : T} {k k' : Ctl T X Ch L} {l : L} {st : Store C T X Ch L G} : s.pos c = .thread t k →
      k.loc = some (l, .woken) ∨ (∃ chan, k.loc = some (l, .waking chan)) → k'.loc = some (l, .awake) →
      (∀ u, u ≠ t → Keeps s c st u) → st.glob = s.store.glob → Shift cl s c e st (.thread t k')
  | leave {t : T} {k : Ctl T X Ch L} {o : Own T X Ch} {st : Store C T X Ch L G} : s.pos c = .thread t k →
      st.loc t = k.loc → (∀ u, u ≠ t → st.loc u = s.store.loc u) → st.glob = s.store.glob → (∀ w, o ≠ .wakeup w) →
      Shift cl s c e st (.own o)
  | own {o o' : Own T X Ch} {st : Store C T X Ch L G} : s.pos c = .own o → (∀ u, Keeps s c st u) →
      st.glob = s.store.glob → (∀ w, o' = .wakeup w → (s.pos c).Wakes w.chan ∨ cl.interrupt e = some w.chan) →
      Shift cl s c e st (.own o')
  | enter {t : T} {k : Ctl T X Ch L} {st : Store C T X Ch L G} : s.pos c = .own (.enter t) →
      k.loc = s.store.loc t → (∀ u, st.loc u = s.store.loc u) → st.glob = s.store.glob →
      Shift cl s c e st (.thread t k)

lemma userStmt_shift (hp : s.pos c = .thread t (.user hs l)) (d : Do T X Ch L G)
    (ha : cl.act t l s.store.glob e = d) (hd : d ≠ .tdDestroy) :
    (userStmt s.store t hs d).Moves (Shift cl s c e) s.store := by
  cases d with
  | tdDestroy => exact absurd rfl hd
  | fail | rest => trivial
  | _ => exact .act hp (by rw [ha]; rfl) rfl (fun _ => rfl) (by rw [ha]; rfl)

lemma wakeupStmt_keeps {cont : Wakeup T Ch → Pos T X Ch L} {ret : Pos T X Ch L} {w : Wakeup T Ch} (hi : Inv s place)
    (hp : (s.pos c).Wakes w.chan) :
    (wakeupStmt s.store cont ret w).Writes fun st => (∀ u, Keeps s c st u) ∧ st.glob = s.store.glob :=
  wakeupStmt_writes w ⟨fun _ => .inl rfl, rfl⟩ (fun _ htd => ⟨Keeps.erase (hi.nodup .sleepq) hp htd, rfl⟩)
    fun _ => ⟨fun _ => .inl rfl, rfl⟩

lemma threadStmt_shift (hi : Inv s place) (hp : s.pos c = .thread t k)
    (hcall : k.call ≠ some .tdFork ∧ k.call ≠ some .tdDestroy ∧ k.call ≠ some .wakeupTd)
    (hact : ∀ hs l, k = .user hs l → cl.act t l s.store.glob e ≠ .tdDestroy) :
    (threadStmt cl s.store t e k).Moves (Shift cl s c e) s.store := by
  cases k with
  | user hs l => exact userStmt_shift hp _ rfl (hact hs l rfl)
  | sleep pc chan mtx hs l =>
    cases pc with
    | lockTd =>
      rw [threadStmt, sleepStmt]
      split_ifs
      · trivial
      · exact .keep hp rfl (fun _ _ => .inl rfl) rfl
    | enqueue =>
      refine .leave hp ?_ (fun u hu => ?_) rfl (by simp)
      · exact loc_woken (update_self ..) (phase_asleep (update_self ..) mem_cons_self)
      · exact loc_congr (update_of_ne hu ..) (update_of_ne hu ..)
          (mem_cons.trans (or_iff_right hu))
    | enter | unlockMtx => exact .keep hp rfl (fun _ _ => .inl rfl) rfl
  | woken pc mtx l =>
    cases pc with
    | lockMtx => exact .back hp (.inl rfl) rfl (fun _ _ => .inl rfl) rfl
    | clear =>
      refine .keep hp rfl (fun u hu => .inl ?_) rfl
      exact loc_congr rfl (update_of_ne hu ..) Iff.rfl
    | unlockTd => exact .keep hp rfl (fun _ _ => .inl rfl) rfl
  | yield pc hs l =>
    cases pc with
    | lockTd => exact .keep hp rfl (fun _ _ => .inl rfl) rfl
    | setStatus =>
      refine .leave hp ?_ (fun u hu => loc_congr (update_of_ne hu ..) rfl Iff.rfl) rfl (by simp)
      simp [loc, save, Ctl.loc]
  | resumed l => exact .keep hp rfl (fun _ _ => .inl rfl) rfl
  | wakeup w hs l =>
    have hwakes : (s.pos c).Wakes w.chan := by
      rw [hp]
      exact rfl
    rw [threadStmt]
    refine (wakeupStmt_next w (P := fun n => ∃ k, n = .thread t k ∧ (k.loc = some (l, .waking w.chan) ∨
      k.loc = some (l, .awake))) (fun w' hw' => ?_) ⟨_, rfl, .inr rfl⟩).moves
      (wakeupStmt_keeps hi hwakes) ⟨fun _ => .inl rfl, rfl⟩ ?_
    · rw [← hw']
      exact ⟨_, rfl, .inl rfl⟩
    rintro st _ ⟨hx, hg⟩ ⟨k, rfl, hk | hk⟩
    · exact .keep hp hk (fun u _ => hx u) hg
    · exact .back hp (.inr ⟨_, rfl⟩) hk (fun u _ => hx u) hg
  | wakeupTd => exact absurd rfl hcall.2.2
  | tdFork => exact absurd rfl hcall.1
  | tdDestroy => exact absurd rfl hcall.2.1
  | destroyed => trivial

lemma ownStmt_shift (hi : Inv s place) (hp : s.pos c = .own o) :
    (ownStmt cl s.locks s.store c e o).Moves (Shift cl s c e) s.store := by
  have hown : ∀ {o' : Own T X Ch} {st : Store C T X Ch L G}, (∀ w, o' ≠ .wakeup w) → (∀ u, st.loc u = s.store.loc u) →
      st.glob = s.store.glob → Shift cl s c e st (.own o') :=
    fun ho hx hg => .own hp (fun u => .inl (hx u)) hg fun w hw => absurd hw (ho w)
  cases o with
  | schedule | requeue | probe =>
    rw [ownStmt]
    split_ifs
    all_goals first | trivial | exact hown (by simp) (fun _ => rfl) rfl
  | look =>
    rw [ownStmt]
    split
    all_goals exact hown (by simp) (fun _ => rfl) rfl
  | idle =>
    rw [ownStmt]
    split
    · rename_i chan hchan
      refine .own hp (fun _ => .inl rfl) rfl fun w hw => .inr ?_
      cases hw
      exact hchan
    · exact hown (by simp) (fun _ => rfl) rfl
  | wakeup w =>
    have hwakes : (s.pos c).Wakes w.chan := by
      rw [hp]
      exact rfl
    rw [ownStmt]
    refine (wakeupStmt_next w (P := fun n => ∃ o, n = .own o ∧ ∀ w', o = .wakeup w' → w'.chan = w.chan)
      (fun w' hw' => ⟨_, rfl, ?_⟩) ⟨.idle, rfl, by simp⟩).moves (wakeupStmt_keeps hi hwakes) ⟨fun _ => .inl rfl, rfl⟩ ?_
    · rintro _ ⟨⟩
      exact hw'
    rintro st _ ⟨hx, hg⟩ ⟨o, rfl, ho⟩
    exact .own hp hx hg fun w' hw' => .inl (by rw [ho w' hw']; exact hwakes)
  | trySleepq => exact ⟨hown (by simp) (fun _ => rfl) rfl, hown (by simp) (fun _ => rfl) rfl⟩
  | enter td => exact .enter hp (loc_ctl (hi.not_asleep hp)) (fun _ => rfl) rfl
  | _ => exact hown (by simp) (fun _ => rfl) rfl

lemma stmt_shift (hi : Inv s place) (hcl : cl.Only S) (hS : ¬ S .tdFork ∧ ¬ S .tdDestroy ∧ ¬ S .wakeupTd)
    (hcall : ∀ a, (s.pos c).call = some a → S a) : (stmt cl s c e).Moves (Shift cl s c e) s.store := by
  rw [stmt]
  cases hp : s.pos c with
  | thread t k =>
    rw [hp] at hcall
    refine threadStmt_shift hi hp ⟨fun hk => hS.1 (hcall _ hk), fun hk => hS.2.1 (hcall _ hk),
      fun hk => hS.2.2 (hcall _ hk)⟩ fun hs l _ ha => hS.2.1 ?_
    exact hcl t l s.store.glob e .tdDestroy (by rw [ha]; rfl)
  | own o => exact ownStmt_shift hi hp

section

variable (hp : s'.pos = update s.pos c n)
include hp

lemma At.other (h : At s' u p) (hn : ∀ k, n ≠ .thread u k) (ho : ∀ k, s.pos c ≠ .thread u k) :
    At s u p ∨ (∀ c' k, s.pos c' ≠ .thread u k) ∧ s'.store.loc u = some p := by
  cases h with
  | @cpu c' k hc hk =>
    by_cases he : c' = c
    · subst he
      rw [hp, update_self] at hc
      exact absurd hc (hn k)
    · rw [hp, update_of_ne he] at hc
      exact .inl (.cpu hc hk)
  | saved hnot hk =>
    refine .inr ⟨fun c' k hc => ?_, hk⟩
    by_cases he : c' = c
    · exact ho k (he ▸ hc)
    · exact hnot c' k (by rw [hp, update_of_ne he, hc])

lemma At.still (h : At s' u p) (hx : s'.store.loc u = s.store.loc u) (hn : ∀ k, n ≠ .thread u k)
    (ho : ∀ k, s.pos c ≠ .thread u k) : At s u p :=
  (h.other hp hn ho).elim id fun ⟨hnot, hk⟩ => .saved hnot (hx ▸ hk)

lemma At.thread (hother : ∀ c' k, c' ≠ c → s.pos c' ≠ .thread t k) (hn : n = .thread t k) (h : At s' t p) :
    k.loc = some p := by
  subst hn
  cases h with
  | @cpu c' k' hc hk =>
    by_cases he : c' = c
    · subst he
      rw [hp, update_self] at hc
      obtain ⟨-, rfl⟩ := Pos.thread.inj hc
      exact hk
    · rw [hp, update_of_ne he] at hc
      exact absurd hc (hother c' k' he)
  | saved hnot _ => exact absurd (by rw [hp, update_self]) (hnot c k)

lemma At.own (hother : ∀ c' k, c' ≠ c → s.pos c' ≠ .thread t k) (hn : n = .own o) (h : At s' t p) :
    s'.store.loc t = some p := by
  subst hn
  cases h with
  | @cpu c' k' hc hk =>
    by_cases he : c' = c
    · subst he
      rw [hp, update_self] at hc
      cases hc
    · rw [hp, update_of_ne he] at hc
      exact absurd hc (hother c' k' he)
  | saved _ hk => exact hk

end

inductive Passes (s : State C T X Ch L G) (c : C) (t : T) : L × Phase Ch → Prop
  | stay {p : L × Phase Ch} : At s t p → Passes s c t p
  | resume {l : L} : At s t (l, .woken) → Passes s c t (l, .awake)
  | finish {l : L} {chan : Ch} : At s t (l, .waking chan) → Passes s c t (l, .awake)
  | rouse {l : L} {chan : Ch} : At s t (l, .asleep chan) → (s.pos c).Wakes chan → Passes s c t (l, .woken)

lemma Keeps.passes (h : Keeps s c s'.store u) (hp : s'.pos = update s.pos c n) (hn : ∀ k, n ≠ .thread u k)
    (ho : ∀ k, s.pos c ≠ .thread u k) (ha : At s' u p) : Passes s c u p := by
  rcases ha.other hp hn ho with ha' | ⟨hnot, hk⟩
  · exact .stay ha'
  · rcases h with hx | ⟨chan, hw, l, hl, hl'⟩
    · exact .stay (.saved hnot (hx ▸ hk))
    · obtain rfl := some.inj (hl'.symm.trans hk)
      exact .rouse (.saved hnot hl) hw

inductive Turned (cl : Client T X Ch L G E) (s : State C T X Ch L G) (c : C) (e : E) (s' : State C T X Ch L G) : Prop
  | quiet : s'.store.glob = s.store.glob → (∀ u p, At s' u p → Passes s c u p) → Turned cl s c e s'
  | act {t : T} {hs : List X} {l : L} : s.pos c = .thread t (.user hs l) →
      s'.store.glob = (cl.act t l s.store.glob e).glob s.store.glob →
      (∀ u p, At s' u p → u = t ∧ (cl.act t l s.store.glob e).loc = some p ∨ u ≠ t ∧ At s u p) → Turned cl s c e s'

lemma pos_ne {t u : T} {k : Ctl T X Ch L} (hc : s.pos c = .thread t k) (hu : u ≠ t) (k' : Ctl T X Ch L) :
    s.pos c ≠ .thread u k' := fun hc' => hu (Pos.thread.inj (hc'.symm.trans hc)).1

lemma Shift.turned (h : Shift cl s c e s'.store n) (hi : Inv s place) (hp : s'.pos = update s.pos c n) :
    Turned cl s c e s' := by
  have hother : ∀ {t : T} {k : Ctl T X Ch L}, s.pos c = .thread t k → ∀ c' k', c' ≠ c → s.pos c' ≠ .thread t k' :=
    fun hc c' k' hne hc' => hne (hi.alone hc' hc)
  have hnew : ∀ {t u : T} {k : Ctl T X Ch L}, u ≠ t → ∀ k', Pos.thread t k ≠ .thread u k' :=
    fun hu k' he => hu (Pos.thread.inj he).1.symm
  cases h with
  | @act t hs l k q _ hc hloc hk hx hg =>
    refine .act hc hg fun u p h => ?_
    by_cases hu : u = t
    · subst hu
      exact .inl ⟨rfl, hloc.trans (hk.symm.trans (h.thread hp (hother hc) rfl))⟩
    · exact .inr ⟨hu, h.still hp (hx u) (hnew hu) (pos_ne hc hu)⟩
  | @keep t k k' _ hc hloc hx hg =>
    refine .quiet hg fun u p h => ?_
    by_cases hu : u = t
    · subst hu
      exact .stay (.cpu hc (hloc ▸ h.thread hp (hother hc) rfl))
    · exact (hx u hu).passes hp (hnew hu) (pos_ne hc hu) h
  | @back t k k' l _ hc hloc hl hx hg =>
    refine .quiet hg fun u p h => ?_
    by_cases hu : u = t
    · subst hu
      obtain rfl := some.inj (hl.symm.trans (h.thread hp (hother hc) rfl))
      rcases hloc with hk | ⟨chan, hk⟩
      · exact .resume (.cpu hc hk)
      · exact .finish (.cpu hc hk)
    · exact (hx u hu).passes hp (hnew hu) (pos_ne hc hu) h
  | @leave t k o _ hc hloc hx hg _ =>
    refine .quiet hg fun u p h => .stay ?_
    by_cases hu : u = t
    · subst hu
      exact .cpu hc (hloc ▸ h.own hp (hother hc) rfl)
    · exact h.still hp (hx u hu) nofun (pos_ne hc hu)
  | own hc hx hg _ => exact .quiet hg fun u p h => (hx u).passes hp nofun (by rw [hc]; exact nofun) h
  | @enter t k _ hc hloc hx hg =>
    refine .quiet hg fun u p h => .stay ?_
    by_cases hu : u = t
    · subst hu
      exact .saved (hi.away hc) (hloc ▸ h.thread hp (fun c' k' _ => hi.away hc c' k') rfl)
    · exact h.still hp (hx u) (hnew hu) (by rw [hc]; exact nofun)

lemma Inv.turned (hi : Inv s place) (hcl : cl.Only S)
    (hS : ¬ S .tdFork ∧ ¬ S .tdDestroy ∧ ¬ S .wakeupTd) (hcall : ∀ a, (s.pos c).call = some a → S a) :
    Turned cl s c e (Proc.step cl s (c, e)) := by
  rcases hi.locked.moves (stmt_shift (e := e) hi hcl hS hcall) with ⟨hp, hst⟩ | ⟨n, hp, hr⟩
  · refine .quiet (hst ▸ rfl) fun u p h => .stay ?_
    cases h with
    | cpu hc hk => exact .cpu (hp ▸ hc) hk
    | saved hnot hk => exact .saved (hp ▸ hnot) (hst ▸ hk)
  · exact hr.turned hi hp

structure Outline (cl : Client T X Ch L G E) (held : L → List X) (ok : T → L → G → E → Prop)
    (A : T → L → Phase Ch → G → Prop) : Prop where
  act {t : T} {l l' : L} {ph : Phase Ch} {g : G} {e : E} : ok t l g e → A t l .awake g →
    (cl.act t l g e).loc = some (l', ph) → A t l' ph ((cl.act t l g e).glob g)
  resume {t : T} {l : L} {g : G} : A t l .woken g → A t l .awake g
  finish {t : T} {l : L} {chan : Ch} {g : G} : A t l (.waking chan) g → A t l .awake g
  wakeup {t u : T} {l m : L} {chan : Ch} {g : G} : A t l (.asleep chan) g → A u m (.waking chan) g → A t l .woken g
  interrupt {t : T} {l : L} {chan : Ch} {g : G} {e : E} : A t l (.asleep chan) g → cl.interrupt e = some chan →
    A t l .woken g
  stable {t u : T} {l m m' : L} {ph : Phase Ch} {g g' : G} {e : E} : t ≠ u → ok u m g e → A t l ph g →
    A u m .awake g → cl.act u m g e = .compute m' g' → (ph.Holds → ∀ x ∈ held l, x ∉ held m) → A t l ph g'

structure Outlined (A : T → L → Phase Ch → G → Prop) (s : State C T X Ch L G) : Prop where
  holds {t : T} {l : L} {ph : Phase Ch} : At s t (l, ph) → A t l ph s.store.glob

lemma Ctl.Noted.mem_held (h : k.Noted held) (hl : k.loc = some (l, ph)) (hph : ph.Holds) {x : X}
    (hx : x ∈ held l) : .mtx x ∈ k.held t := by
  cases k with
  | user hs l' =>
    cases hl
    obtain rfl : hs = held l := h
    exact mem_map_of_mem hx
  | wakeup w hs l' | wakeupTd pc td hs l' | tdFork pc hs l' =>
    cases hl
    obtain rfl : hs = held l := h
    exact mem_append_right _ (mem_map_of_mem hx)
  | yield pc hs l' =>
    cases hl
    rw [h.2] at hx
    cases hx
  | resumed l' =>
    cases hl
    rw [show held l = [] from h] at hx
    cases hx
  | sleep | woken =>
    cases hl
    exact absurd hph id
  | _ => cases hl

lemma Store.phase_not_holds (st : Store C T X Ch L G) (t : T) : ¬ (st.phase t).Holds := by
  rw [phase]
  split
  · split_ifs <;> exact id
  · exact id

lemma Noted.mem_held (h : Noted held s) (ha : At s t (l, ph)) (hph : ph.Holds) {x : X}
    (hx : x ∈ held l) : ∃ c k, s.pos c = .thread t k ∧ .mtx x ∈ s.held c := by
  cases ha with
  | @cpu c k hc hk =>
    have hn := h.pos c
    rw [hc] at hn
    refine ⟨c, k, hc, ?_⟩
    rw [State.held, hc]
    exact hn.mem_held hk hph hx
  | saved _ hk =>
    have hn := h.ctx t
    rw [loc] at hk
    cases hctx : s.store.ctx t with
    | resumed l' =>
      rw [hctx] at hk hn
      cases hk
      rw [show held l = [] from hn] at hx
      cases hx
    | woken mtx l' =>
      rw [hctx] at hk
      cases hk
      exact absurd hph (s.store.phase_not_holds t)
    | destroyed =>
      rw [hctx] at hk
      cases hk

lemma Store.waits_of_loc (h : st.loc t = some (l, .asleep chan)) : st.Waits chan t := by
  rw [loc] at h
  split at h
  · rw [some.injEq, Prod.mk.injEq, phase] at h
    split at h
    · rename_i hw
      split_ifs at h with hq
      · exact ⟨hq, hw.trans (congrArg some (Phase.asleep.inj h.2))⟩
      · cases h.2
    · cases h.2
  · cases h
  · cases h

lemma Noted.asleep (h : Noted held s) (ha : At s t (l, .asleep chan)) :
    s.store.Waits chan t ∨ (∃ c, (s.pos c).Falling chan t) ∨
      ∃ c k x, s.pos c = .thread t k ∧ held l = [x] ∧ .mtx x ∈ s.held c := by
  cases ha with
  | saved _ hk => exact .inl (waits_of_loc hk)
  | @cpu c k hc hk =>
    have hn := h.pos c
    rw [hc] at hn
    cases k with
    | sleep pc chan' x hs l' =>
      cases hk
      obtain ⟨rfl, hl⟩ : hs = pc.keeps x ∧ held l = [x] := hn
      cases pc with
      | lockTd | enqueue => exact .inr (.inl ⟨c, by rw [hc]; exact ⟨rfl, rfl⟩⟩)
      | enter | unlockMtx =>
        refine .inr (.inr ⟨c, _, x, hc, hl, ?_⟩)
        rw [State.held, hc]
        simp [Pos.held, Ctl.held, SleepPc.keeps, mtxs]
    | _ => cases hk

def Interrupted (cl : Client T X Ch L G E) (s : State C T X Ch L G) : Prop :=
  ∀ c w, s.pos c = .own (.wakeup w) → ∃ e, cl.interrupt e = some w.chan

lemma Shift.interrupted (h : Shift cl s c e s'.store n) (hint : Interrupted cl s)
    (hp : s'.pos = update s.pos c n) : Interrupted cl s' := by
  intro c' w hc'
  by_cases he : c' = c
  · subst he
    rw [hp, update_self] at hc'
    subst hc'
    cases h with
    | leave _ _ _ _ ho => exact absurd rfl (ho w)
    | @own o _ _ hc _ _ ho =>
      rcases ho w rfl with hw | hw
      · rw [hc] at hw
        cases o with
        | wakeup w' =>
          obtain ⟨e', he'⟩ := hint c' w' hc
          exact ⟨e', he'.trans (congrArg some hw)⟩
        | _ => exact absurd hw id
      · exact ⟨e, hw⟩
  · rw [hp, update_of_ne he] at hc'
    exact hint c' w hc'

lemma Interrupted.step (h : Interrupted cl s) (hi : Inv s place) (hcl : cl.Only S)
    (hS : ¬ S .tdFork ∧ ¬ S .tdDestroy ∧ ¬ S .wakeupTd) (hcall : ∀ a, (s.pos c).call = some a → S a) :
    Interrupted cl (step cl s (c, e)) := by
  rcases hi.locked.moves (stmt_shift (e := e) hi hcl hS hcall) with ⟨hp, -⟩ | ⟨n, hp, hr⟩
  · exact fun c w hc => h c w (hp ▸ hc)
  · exact hr.interrupted h hp

namespace Outlined

variable {A : T → L → Phase Ch → G → Prop} {ok : T → L → G → E → Prop}

lemma stable (h : Outlined A s) (ho : Outline cl held ok A) (hn : Noted held s) {l m : L}
    (hc : s.pos c = .thread u (.user hs m)) (hok : ok u m s.store.glob e) (ha : At s t (l, ph)) (hne : t ≠ u) :
    A t l ph ((cl.act u m s.store.glob e).glob s.store.glob) := by
  have hm : hs = held m := by
    have := hn.pos c
    rwa [hc] at this
  have hstay := h.holds ha
  cases hd : cl.act u m s.store.glob e with
  | compute m' g' =>
    refine ho.stable hne hok hstay (h.holds (.cpu hc rfl)) hd fun hph x hx hx' => ?_
    obtain ⟨c', k, hc', hheld⟩ := hn.mem_held ha hph hx
    have hmine : .mtx x ∈ s.held c := by
      rw [State.held, hc, hm]
      exact mem_map_of_mem hx'
    obtain rfl := hn.locked.exclusive hheld hmine
    exact hne (Pos.thread.inj (hc'.symm.trans hc)).1
  | _ => exact hstay

lemma passes (h : Outlined A s) (ho : Outline cl held ok A) (hint : Interrupted cl s)
    (hp : Passes s c t (l, ph)) : A t l ph s.store.glob := by
  cases hp with
  | stay ha => exact h.holds ha
  | resume ha => exact ho.resume (h.holds ha)
  | finish ha => exact ho.finish (h.holds ha)
  | @rouse _ chan ha hw =>
    cases hc : s.pos c with
    | thread u k =>
      rw [hc] at hw
      cases k with
      | wakeup w hs m =>
        obtain rfl : w.chan = chan := hw
        exact ho.wakeup (h.holds ha) (h.holds (.cpu hc rfl))
      | _ => exact absurd hw id
    | own o =>
      rw [hc] at hw
      cases o with
      | wakeup w =>
        obtain rfl : w.chan = chan := hw
        obtain ⟨e, he⟩ := hint c w hc
        exact ho.interrupt (h.holds ha) he
      | _ => exact absurd hw id

lemma step (h : Outlined A s) (ho : Outline cl held ok A) (hn : Noted held s) (hint : Interrupted cl s)
    (hok : ∀ {t hs l}, s.pos c = .thread t (.user hs l) → ok t l s.store.glob e) (ht : Turned cl s c e s') :
    Outlined A s' := by
  cases ht with
  | quiet hg hat =>
    refine ⟨fun {t l ph} ha => ?_⟩
    rw [hg]
    exact h.passes ho hint (hat t _ ha)
  | @act u hs m hc hg hat =>
    refine ⟨fun {t l ph} ha => ?_⟩
    rw [hg]
    rcases hat t _ ha with ⟨rfl, hloc⟩ | ⟨hne, ha'⟩
    · exact ho.act (hok hc) (h.holds (.cpu hc rfl)) hloc
    · exact h.stable ho hn hc (hok hc) ha' hne

lemma start {glob : G} {created free : List T} (hA : ∀ t, A t cl.entry .awake glob) :
    Outlined A (start cl glob created free : State C T X Ch L G) := by
  refine ⟨fun {t l ph} ha => ?_⟩
  cases ha with
  | cpu hc _ => cases hc
  | saved _ hk =>
    cases hk
    exact hA t

end Outlined

structure Alive (s : State C T X Ch L G) : Prop where
  pos {c : C} {t : T} {k : Ctl T X Ch L} : s.pos c = .thread t k → k.loc ≠ none
  saved {t : T} : (∀ c k, s.pos c ≠ .thread t k) → s.store.loc t ≠ none

lemma Keeps.ne_none (h : Keeps s c st t) (hl : s.store.loc t ≠ none) : st.loc t ≠ none := by
  rcases h with hx | ⟨chan, -, l, -, hl'⟩
  · exact hx ▸ hl
  · exact hl' ▸ nofun

lemma Shift.alive (h : Shift cl s c e s'.store n) (ha : Alive s) (hi : Inv s place)
    (hp : s'.pos = update s.pos c n) : Alive s' := by
  have hpos : (∀ t k, n = .thread t k → k.loc ≠ none) →
      ∀ {c' : C} {t : T} {k : Ctl T X Ch L}, s'.pos c' = .thread t k → k.loc ≠ none := by
    intro hn c' t k hc
    by_cases he : c' = c
    · subst he
      rw [hp, update_self] at hc
      exact hn t k hc
    · rw [hp, update_of_ne he] at hc
      exact ha.pos hc
  have hsaved : ∀ {u}, (∀ k, s.pos c ≠ .thread u k) → Keeps s c s'.store u → (∀ c k, s'.pos c ≠ .thread u k) →
      s'.store.loc u ≠ none := by
    intro u ho hx hnot
    refine hx.ne_none (ha.saved fun c' k hc => ?_)
    by_cases he : c' = c
    · exact ho k (he ▸ hc)
    · exact hnot c' k (by rw [hp, update_of_ne he, hc])
  have hthread : ∀ {t : T} {k k' : Ctl T X Ch L}, s.pos c = .thread t k → n = .thread t k' → k'.loc ≠ none →
      (∀ u, u ≠ t → Keeps s c s'.store u) → Alive s' := by
    rintro t k k' hc rfl hk hx
    refine ⟨hpos ?_, fun {u} hnot => ?_⟩
    · rintro _ _ ⟨⟩
      exact hk
    · have hu : u ≠ t := by
        rintro rfl
        exact hnot c k' (by rw [hp, update_self])
      exact hsaved (pos_ne hc hu) (hx u hu) hnot
  cases h with
  | act hc _ hk hx => exact hthread hc rfl (hk ▸ nofun) fun u _ => .inl (hx u)
  | keep hc hloc hx => exact hthread hc rfl (hloc ▸ ha.pos hc) hx
  | back hc _ hl hx => exact hthread hc rfl (hl ▸ nofun) hx
  | @leave t k o _ hc hloc hx =>
    refine ⟨hpos nofun, fun {u} hnot => ?_⟩
    by_cases hu : u = t
    · subst hu
      exact hloc ▸ ha.pos hc
    · exact hsaved (pos_ne hc hu) (.inl (hx u hu)) hnot
  | own hc hx => exact ⟨hpos nofun, fun {u} hnot => hsaved (hc ▸ nofun) (hx u) hnot⟩
  | enter hc hloc hx =>
    refine ⟨hpos ?_, fun {u} hnot => hsaved (hc ▸ nofun) (.inl (hx u)) hnot⟩
    rintro _ _ ⟨⟩
    exact hloc ▸ ha.saved (hi.away hc)

lemma Alive.step (ha : Alive s) (hi : Inv s place) (hcl : cl.Only S)
    (hS : ¬ S .tdFork ∧ ¬ S .tdDestroy ∧ ¬ S .wakeupTd) (hcall : ∀ a, (s.pos c).call = some a → S a) :
    Alive (step cl s (c, e)) := by
  rcases hi.locked.moves (stmt_shift (e := e) hi hcl hS hcall) with ⟨hp, hst⟩ | ⟨n, hp, hr⟩
  · exact ⟨fun hc => ha.pos (hp ▸ hc), fun hnot => hst ▸ ha.saved (hp ▸ hnot)⟩
  · exact hr.alive ha hi hp

lemma Alive.start (cl : Client T X Ch L G E) (glob : G) (created free : List T) :
    Alive (start cl glob created free : State C T X Ch L G) := ⟨nofun, fun _ => nofun⟩

lemma Alive.exists_at (h : Alive s) (t : T) : ∃ p, At s t p := by
  by_cases ht : ∃ c k, s.pos c = .thread t k
  · obtain ⟨c, k, hc⟩ := ht
    obtain ⟨p, hp⟩ := ne_none_iff_exists'.mp (h.pos hc)
    exact ⟨p, .cpu hc hp⟩
  · have hnot : ∀ c k, s.pos c ≠ .thread t k := fun c k hc => ht ⟨c, k, hc⟩
    obtain ⟨p, hp⟩ := ne_none_iff_exists'.mp (h.saved hnot)
    exact ⟨p, .saved hnot hp⟩

lemma Inv.at_unique (h : Inv s place) {q : L × Phase Ch} (hp : At s t p) (hq : At s t q) : p = q := by
  cases hp with
  | cpu hc hk =>
    cases hq with
    | cpu hc' hk' =>
      obtain rfl := h.alone hc hc'
      obtain ⟨-, rfl⟩ := Pos.thread.inj (hc.symm.trans hc')
      exact some.inj (hk.symm.trans hk')
    | saved hnot _ => exact absurd hc (hnot _ _)
  | saved hnot hk =>
    cases hq with
    | cpu hc' _ => exact absurd hc' (hnot _ _)
    | saved _ hk' => exact some.inj (hk.symm.trans hk')

end FarmOS.Proc

import FarmOS.Net.Udp

/-! Who may touch a slot of the table of sockets while calls are on their way. -/

namespace FarmOS.Net.Udp

def Phase.owns : Phase → Option ℕ
  | .creating i | .closing i | .draining i _ | .closed i => some i
  | _ => none

def Phase.drains : Phase → Option ℕ
  | .closing i | .draining i _ => some i
  | _ => none

def Phase.goal : Phase → Option (ℕ × ℕ)
  | .sending _ g | .holding _ g _ | .filled g _ => some (g.slot, g.sock)
  | .receiving a | .dozing a => some (a.l, a.sock)
  | _ => none

lemma of_wakeup {β : Type} (g : Phase → β) (hg : ∀ a, g (.receiving a) = g (.dozing a)) (ph : Phase) (i : ℕ) :
    g (ph.wakeup i) = g ph := by
  cases ph with
  | dozing a =>
    rw [Phase.wakeup]
    split
    · exact hg a
    · rfl
  | _ => rfl

variable {T : Type*}

structure Slots (s : State T) : Prop where
  owned (t : T) (i : ℕ) : (s.phase t).owns = some i → s.bitmap i = true ∧ (s.sockets i).used = false
  owner (t u : T) (i : ℕ) : (s.phase t).owns = some i → (s.phase u).owns = some i → t = u
  mapped (i : ℕ) : (s.sockets i).used = true → s.bitmap i = true
  locked (t : T) (i : ℕ) : (s.phase t).drains = some i → s.holder i = some t
  keeper (t : T) (i : ℕ) : s.holder i = some t → (s.phase t).drains = some i
  stale (i : ℕ) : (s.sockets i).used = false → s.holder i = none → (s.sockets i).messages = []
  goals (t : T) (i id : ℕ) : (s.phase t).goal = some (i, id) → (s.sockets i).used = true ∧ s.born i = id
  born_lt (i : ℕ) : (s.sockets i).used = true → s.born i < s.births
  born_inj (i j : ℕ) : (s.sockets i).used = true → (s.sockets j).used = true → s.born i = s.born j → i = j

lemma slots_init (mem : ℕ → UInt8) : Slots (State.init mem : State T) := by
  constructor <;> simp [State.init, Phase.owns, Phase.drains, Phase.goal, Socket.zero]

variable {s s' : State T} {t : T} {i m : ℕ} {q : List ℕ} {k : Socket}

namespace Slots

section

variable (h : Slots s)
include h

lemma congr (hs : s'.sockets = s.sockets) (hm : s'.bitmap = s.bitmap) (hh : s'.holder = s.holder)
    (hp : s'.phase = s.phase) (hb : s'.born = s.born) (hc : s'.births = s.births) : Slots s' := by
  cases h
  constructor <;> simp only [hs, hm, hh, hp, hb, hc] <;> assumption

lemma alloc (m : ℕ) (rest : List ℕ) (page : ℕ) : Slots (s.alloc m rest page) :=
  h.congr rfl rfl rfl rfl rfl rfl

lemma fill (r : Request) (g : Target) (m : ℕ) : Slots (s.fill r g m) := h.congr rfl rfl rfl rfl rfl rfl

lemma messageFree (m : ℕ) : Slots (s.messageFree m) := h.congr rfl rfl rfl rfl rfl rfl

lemma used_of_goal {ph : Phase} {id : ℕ} (hp : s.phase t = ph) (hg : ph.goal = some (i, id)) :
    (s.sockets i).used = true := (h.goals t i id (hp ▸ hg)).1

lemma setSocket (hu : k.used = (s.sockets i).used) (hm : k.messages = (s.sockets i).messages) :
    Slots (s.setSocket i k) := by
  cases h
  constructor <;> simp only [State.setSocket] <;> grind

lemma setQueue (hi : (s.sockets i).used = true ∨ s.holder i ≠ none) : Slots (s.setQueue i q) := by
  cases h
  constructor <;> simp only [State.setQueue, State.setSocket] <;> grind

lemma wakeup (i : ℕ) : Slots (s.wakeup i) := by
  cases h
  constructor <;> simp only [State.wakeup, of_wakeup Phase.owns fun _ => rfl,
    of_wakeup Phase.drains fun _ => rfl, of_wakeup Phase.goal fun _ => rfl] <;> assumption

lemma receive (a : Ask) (m : ℕ) (ha : (s.sockets a.l).used = true) : Slots (s.receive a m) :=
  (h.setQueue (q := (s.sockets a.l).messages.erase m) (.inl ha)).congr rfl rfl rfl rfl rfl rfl

lemma insert (hi : (s.sockets i).used = true) : Slots (s.insert i m) :=
  ((h.setQueue (q := (s.sockets i).messages ++ [m]) (.inl hi)).wakeup i).congr rfl rfl rfl rfl rfl rfl

end

variable [DecidableEq T]

section

variable (h : Slots s)
include h

lemma setPhase {ph : Phase} (ho : ph.owns = (s.phase t).owns) (hd : ph.drains = (s.phase t).drains)
    (hg : ∀ i id, ph.goal = some (i, id) → (s.sockets i).used = true ∧ s.born i = id) : Slots (s.setPhase t ph) := by
  cases h
  constructor <;> simp only [State.setPhase] <;> grind

lemma stay {old ph : Phase} (hp : s.phase t = old) (ho : ph.owns = old.owns) (hd : ph.drains = old.drains)
    (hg : ph.goal = old.goal ∨ ph.goal = none) : Slots (s.setPhase t ph) := by
  subst hp
  refine h.setPhase ho hd fun i id hi => h.goals t i id ?_
  rcases hg with hg | hg
  · exact hg ▸ hi
  · rw [hg] at hi
    cases hi

lemma map (hp : s.phase t = .idle) (hb : s.bitmap i = false) :
    Slots ((s.setMapped i true).setPhase t (.creating i)) := by
  cases h
  constructor <;> simp only [State.setPhase, State.setMapped] <;> grind [Phase.owns, Phase.drains, Phase.goal]

lemma create (hp : s.phase t = .creating i) (hu : k.used = true) : Slots ((s.create i k).setPhase t .idle) := by
  cases h
  constructor <;> simp only [State.setPhase, State.create, State.setSocket] <;>
    grind [Phase.owns, Phase.drains, Phase.goal]

omit h in
lemma uses_of_goal {ph : Phase} {id : ℕ} (h : ph.goal = some (i, id)) : ph.uses i = true := by
  cases ph <;> grind [Phase.goal, Phase.uses]

lemma shut (hp : s.phase t = .idle) (hu : (s.sockets i).used = true) (hh : s.holder i = none)
    (hn : ∀ u, (s.phase u).uses i = false) : Slots ((s.shut t i).setPhase t (.closing i)) := by
  have hfree (u : T) (id : ℕ) : (s.phase u).goal ≠ some (i, id) := fun hg => by
    have := uses_of_goal hg
    rw [hn u] at this
    cases this
  have hc : (s.sockets i).clear.used = false := rfl
  cases h
  constructor <;> simp only [State.setPhase, State.shut, State.setSocket] <;>
    grind [Phase.owns, Phase.drains, Phase.goal]

lemma unlock (hp : s.phase t = .closing i) (hq : (s.sockets i).messages = []) :
    Slots ((s.unlock i).setPhase t (.closed i)) := by
  cases h
  constructor <;> simp only [State.setPhase, State.unlock, State.setSocket] <;>
    grind [Phase.owns, Phase.drains, Phase.goal]

lemma unmap (hp : s.phase t = .closed i) : Slots ((s.setMapped i false).setPhase t .idle) := by
  cases h
  constructor <;> simp only [State.setPhase, State.setMapped] <;> grind [Phase.owns, Phase.drains, Phase.goal]

lemma effect (he : Effect s s') : Slots s' := by
  cases he with
  | call hp | pass hp | quit hp | fail hp | doze hp => exact h.stay hp rfl rfl (by simp [Phase.goal])
  | @found t r k hp hd =>
    refine h.setPhase (by rw [hp]; rfl) (by rw [hp]; rfl) ?_
    rintro i id ⟨⟩
    simp only [Socket.datagramAt, Bool.and_eq_true] at hd
    exact ⟨hd.1.1.1, rfl⟩
  | alloc hp => exact (h.alloc ..).stay hp rfl rfl (.inl rfl)
  | fill hp => exact (h.fill ..).stay hp rfl rfl (.inl rfl)
  | @insert t g m hp =>
    exact (h.insert (h.used_of_goal hp rfl)).stay (State.phase_insert hp) rfl rfl (.inr rfl)
  | @ask t a hp hu hs =>
    refine h.setPhase (by rw [hp]; rfl) (by rw [hp]; rfl) ?_
    rintro i id ⟨⟩
    exact ⟨hu, hs.symm⟩
  | @receive t a m ms hp => exact (h.receive a m (h.used_of_goal hp rfl)).stay hp rfl rfl (.inr rfl)
  | free hp => exact (h.messageFree _).stay hp rfl rfl (.inr rfl)
  | drained hp => exact (h.messageFree _).stay hp rfl rfl (.inr rfl)
  | map hp hb => exact h.map hp hb
  | create hp _ hu => exact h.create hp hu
  | shut hp hu hh hn => exact h.shut hp hu hh hn
  | @drain t i m ms hp hq =>
    have hh : s.holder i = some t := h.locked t i (by rw [hp]; rfl)
    exact (h.setQueue (.inr (by rw [hh]; nofun))).stay hp rfl rfl (.inr rfl)
  | unlock hp hq => exact h.unlock hp hq
  | unmap hp => exact h.unmap hp
  | address hu hm => exact h.setSocket hu hm

end

end Slots

end FarmOS.Net.Udp

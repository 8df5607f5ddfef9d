import FarmOS.Lib.Pool
import FarmOS.Net.UdpSlots

/-! Where each record of a message is. -/

namespace FarmOS.Net.Udp

open Lib Function State

def Phase.hand : Phase → Option ℕ
  | .holding _ _ m | .filled _ m | .freeing m | .draining _ m => some m
  | _ => none

variable {T : Type*} {ph old : Phase}

namespace State

def hand (s : State T) (t : T) : Option ℕ := (s.phase t).hand

def queue (s : State T) (i : ℕ) : List ℕ := (s.sockets i).messages

end State

def Pooled (s : State T) (loc : ℕ → Place T) : Prop := Pool messageCount s.free s.queue s.hand loc

variable {s s' : State T} {t : T} {i m : ℕ} {q : List ℕ} {k : Socket} {loc : ℕ → Place T}

lemma queue_setSocket (s : State T) (i : ℕ) (k : Socket) :
    (s.setSocket i k).queue = update s.queue i k.messages := by
  funext j
  by_cases hj : j = i
  · subst hj
    simp [queue, setSocket]
  · simp [queue, setSocket, hj]

lemma queue_setSocket_same (hk : k.messages = (s.sockets i).messages) : (s.setSocket i k).queue = s.queue := by
  rw [queue_setSocket, hk]
  exact update_eq_self i s.queue

lemma queue_setQueue (s : State T) (i : ℕ) (q : List ℕ) : (s.setQueue i q).queue = update s.queue i q :=
  queue_setSocket ..

lemma queue_insert (s : State T) (i m : ℕ) :
    (s.insert i m).queue = update s.queue i (s.queue i ++ [m]) := queue_setQueue ..

lemma queue_shut (s : State T) (t : T) (i : ℕ) : (s.shut t i).queue = s.queue := by
  have := queue_setSocket_same (s := s) (i := i) (k := (s.sockets i).clear) rfl
  exact this

lemma queue_unlock (s : State T) (i : ℕ) : (s.unlock i).queue = s.queue := by
  have := queue_setSocket_same (s := s) (i := i) (k := { s.sockets i with isClose := false }) rfl
  exact this

lemma queue_receive {a : Ask} {ms : List ℕ} (hq : (s.sockets a.l).messages = m :: ms) :
    (s.receive a m).queue = update s.queue a.l ms := by
  rw [← queue_setQueue, ← List.erase_cons_head m ms, ← hq]
  rfl

lemma hand_insert (s : State T) (i m : ℕ) : (s.insert i m).hand = s.hand :=
  funext fun _ => of_wakeup Phase.hand (fun _ => rfl) ..

lemma Pooled.queues (h : Pooled s loc) (hf : s'.free = s.free) (hq : s'.queue = s.queue) (hh : s'.hand = s.hand) :
    Pooled s' loc := by
  rw [Pooled, hf, hq, hh]
  exact h

lemma Pooled.hand_eq (hp : s.phase t = ph) : s.hand t = ph.hand := by rw [hand, hp]

variable [DecidableEq T]

lemma hand_setPhase (s : State T) (t : T) (ph : Phase) : (s.setPhase t ph).hand = update s.hand t ph.hand := by
  funext u
  by_cases hu : u = t
  · subst hu
    simp [hand, setPhase]
  · simp [hand, setPhase, hu]

namespace Pooled

lemma setPhase (h : Pool messageCount s.free s.queue (update s.hand t ph.hand) loc) :
    Pooled (s.setPhase t ph) loc := by
  rw [Pooled, hand_setPhase]
  exact h

lemma stay (h : Pooled s loc) (hp : s.phase t = old) (hh : ph.hand = old.hand) : Pooled (s.setPhase t ph) loc := by
  have : Pool messageCount s.free s.queue (s.setPhase t ph).hand loc := by
    have hsame : ph.hand = s.hand t := by rw [hand, hp, hh]
    rwa [hand_setPhase, hsame, update_eq_self]
  exact this

lemma effect (h : Pooled s loc) (hs : Slots s) (he : Effect s s') : ∃ loc', Pooled s' loc' := by
  cases he with
  | call hp | pass hp | found hp | quit hp | fail hp | ask hp | doze hp => exact ⟨loc, h.stay hp rfl⟩
  | @alloc t r g m page rest hp hf =>
    rw [Pooled, hf] at h
    have ha := Pool.alloc (t := t) h (hand_eq hp)
    exact ⟨_, setPhase (s := s.alloc m rest page) ha⟩
  | @fill t r g m hp =>
    have hq : Pooled (s.fill r g m) loc := h
    exact ⟨loc, hq.stay hp rfl⟩
  | @insert t g m hp =>
    have ha := Pool.enqueue (i := g.slot) h (hand_eq hp)
    rw [← queue_insert, ← hand_insert s g.slot m] at ha
    exact ⟨_, setPhase (s := s.insert g.slot m) ha⟩
  | @receive t a m ms hp hq =>
    have ha := Pool.dequeue (t := t) h hq (hand_eq hp)
    rw [← queue_receive hq] at ha
    exact ⟨_, setPhase (s := s.receive a m) ha⟩
  | @free t m hp =>
    exact ⟨_, setPhase (s := s.messageFree m) (Pool.release h (hand_eq hp))⟩
  | @drained t i m hp =>
    exact ⟨_, setPhase (s := s.messageFree m) (Pool.release h (hand_eq hp))⟩
  | @map t i hp =>
    have hq : Pooled (s.setMapped i true) loc := h
    exact ⟨loc, hq.stay hp rfl⟩
  | @unmap t i hp =>
    have hq : Pooled (s.setMapped i false) loc := h
    exact ⟨loc, hq.stay hp rfl⟩
  | @create t i k hp hh hu hm =>
    have hused := (hs.owned t i (by rw [hp]; rfl)).2
    have hq : Pooled (s.create i k) loc := h.queues rfl (queue_setSocket_same (hm.trans (hs.stale i hused hh).symm)) rfl
    exact ⟨loc, hq.stay hp rfl⟩
  | @shut t i hp =>
    have hq : Pooled (s.shut t i) loc := h.queues rfl (queue_shut s t i) rfl
    exact ⟨loc, hq.stay hp rfl⟩
  | @drain t i m ms hp hq =>
    have ha := Pool.dequeue (t := t) h hq (hand_eq hp)
    rw [← queue_setQueue] at ha
    exact ⟨_, setPhase (s := s.setQueue i ms) ha⟩
  | @unlock t i hp =>
    have hq : Pooled (s.unlock i) loc := h.queues rfl (queue_unlock s i) rfl
    exact ⟨loc, hq.stay hp rfl⟩
  | address _ hm => exact ⟨loc, h.queues rfl (queue_setSocket_same hm) rfl⟩

end Pooled

end FarmOS.Net.Udp

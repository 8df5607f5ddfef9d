import FarmOS.Net.Socket

/-! The ring of requests of one listening socket: `connect` and `accept`, one critical section of its lock at a time,
with the threads that sleep on the slots of the ring. The address of the ring is that of its slot 0. -/

namespace FarmOS.Net.Handshake

open Lib

structure Request where
  addr : SocketAddr
  tid : BitVec 64

-- `waiting` and `napping` are asleep, on a slot and on the ring; `woken` and `stirred` want the lock back. The number
-- is that of the client's own request.
inductive Phase
  | idle
  | connecting (r : Request)
  | waiting (chan : ℤ) (k : ℕ)
  | woken (k : ℕ)
  | accepting (nonblock : Bool)
  | napping
  | stirred

def Phase.wakeup (chan : ℤ) : Phase → Phase
  | .waiting c k => if c = chan then .woken k else .waiting c k
  | .napping => if chan = 0 then .stirred else .napping
  | ph => ph

structure State (T : Type*) where
  server : Socket
  holder : Option T
  phase : T → Phase
  queued : List Request
  accepted : List SocketAddr
  connected : List ℕ

inductive Event (T : Type*)
  | connect (t : T) (r : Request)
  | pend (t : T)
  | resume (t : T)
  | accept (t : T) (nonblock : Bool)
  | serve (t : T) (opened : Bool)

def State.init {T : Type*} (server : Socket) : State T where
  server := { server with waitingH := 0, waitingT := 0 }
  holder := none
  phase := fun _ => .idle
  queued := []
  accepted := []
  connected := []

variable {T : Type*} [DecidableEq T]

namespace State

def setPhase (s : State T) (t : T) (ph : Phase) : State T := { s with phase := Function.update s.phase t ph }

def wakeup (s : State T) (chan : ℤ) : State T := { s with phase := fun u => (s.phase u).wakeup chan }

def keepLock (s : State T) (t : T) : State T := { s.setPhase t .idle with holder := some t }

def enqueue (s : State T) (r : Request) : State T :=
  { s with server := s.server.pend r.addr, queued := s.queued ++ [r] }

def dequeue (s : State T) : State T :=
  { s with server := s.server.unpend, accepted := s.accepted ++ [s.server.nextPending] }

end State

def pend (s : State T) (t : T) (r : Request) : State T :=
  if s.server.pendingFull then s.keepLock t
  else
    let s' := (s.enqueue r).wakeup 0
    if r.tid ≠ s.server.tid then s'.setPhase t (.waiting s'.server.pendedSlot s.queued.length)
    else { s'.setPhase t .idle with connected := s.connected ++ [s.queued.length] }

def serve (s : State T) (t : T) (nonblock opened : Bool) : State T :=
  if s.server.pendingEmpty then if nonblock then s.setPhase t .idle else s.setPhase t .napping
  else if opened then (s.dequeue.wakeup s.server.unpend.unpendedSlot).setPhase t .idle
  else s.keepLock t

def next (s : State T) : Event T → Option (State T)
  | .connect t r =>
    match s.phase t with
    | .idle => some (s.setPhase t (.connecting r))
    | _ => none
  | .pend t =>
    match s.phase t, s.holder with
    | .connecting r, none => some (pend s t r)
    | _, _ => none
  | .resume t =>
    match s.phase t, s.holder with
    | .woken k, none => some { s.setPhase t .idle with connected := s.connected ++ [k] }
    | _, _ => none
  | .accept t nonblock =>
    match s.phase t with
    | .idle => some (s.setPhase t (.accepting nonblock))
    | _ => none
  | .serve t opened =>
    match s.phase t, s.holder with
    | .accepting nonblock, none => some (serve s t nonblock opened)
    | .stirred, none => some (serve s t false opened)
    | _, _ => none

def Step (s : State T) (e : Event T) (s' : State T) : Prop := next s e = some s'

inductive Effect (s : State T) : State T → Prop
  | phase {t : T} {ph : Phase} : (∀ c k, ph ≠ .waiting c k) → (∀ k, ph ≠ .woken k) → Effect s (s.setPhase t ph)
  | keep {t : T} : Effect s (s.keepLock t)
  | queue {t : T} {r : Request} : s.phase t = .connecting r → s.server.pendingFull = false → r.tid ≠ s.server.tid →
      Effect s (((s.enqueue r).wakeup 0).setPhase t (.waiting (s.server.pend r.addr).pendedSlot s.queued.length))
  | own {t : T} {r : Request} : s.phase t = .connecting r → s.server.pendingFull = false → r.tid = s.server.tid →
      Effect s { ((s.enqueue r).wakeup 0).setPhase t .idle with connected := s.connected ++ [s.queued.length] }
  | resume {t : T} {k : ℕ} : s.phase t = .woken k →
      Effect s { s.setPhase t .idle with connected := s.connected ++ [k] }
  | take {t : T} : s.server.pendingEmpty = false →
      Effect s ((s.dequeue.wakeup s.server.unpend.unpendedSlot).setPhase t .idle)

variable {s s' : State T} {t : T} {e : Event T}

lemma serve_effect (nonblock opened : Bool) : Effect s (serve s t nonblock opened) := by
  rw [serve]
  by_cases he : s.server.pendingEmpty = true
  · rw [if_pos he]
    split
    · exact .phase nofun nofun
    · exact .phase nofun nofun
  · rw [if_neg he]
    split
    · exact .take (by simpa using he)
    · exact .keep

lemma pend_effect {r : Request} (hp : s.phase t = .connecting r) : Effect s (pend s t r) := by
  rw [pend]
  by_cases hf : s.server.pendingFull = true
  · rw [if_pos hf]
    exact .keep
  · rw [if_neg hf]
    have hf' : s.server.pendingFull = false := by simpa using hf
    dsimp only
    by_cases ht : r.tid = s.server.tid
    · rw [if_neg (not_not.mpr ht)]
      exact .own hp hf' ht
    · rw [if_pos ht]
      exact .queue hp hf' ht

lemma Step.effect (h : Step s e s') : Effect s s' := by
  cases e with
  | connect t r =>
    simp only [Step, next] at h
    split at h
    · cases h
      exact .phase nofun nofun
    · cases h
  | pend t =>
    simp only [Step, next] at h
    split at h
    · next hp _ =>
      cases h
      exact pend_effect hp
    · cases h
  | resume t =>
    simp only [Step, next] at h
    split at h
    · next hp _ =>
      cases h
      exact .resume hp
    · cases h
  | accept t nonblock =>
    simp only [Step, next] at h
    split at h
    · cases h
      exact .phase nofun nofun
    · cases h
  | serve t opened =>
    simp only [Step, next] at h
    split at h
    · cases h
      exact serve_effect ..
    · cases h
      exact serve_effect ..
    · cases h

end FarmOS.Net.Handshake

import FarmOS.Lib.Prog
import FarmOS.Lib.Run

/-! The interval timers of `itimer.c` with the threads that come and go in the thread table, and what they are for. -/

namespace FarmOS.Signal.Itimer

open Lib Function

structure Timeval where
  sec : BitVec 64
  usec : BitVec 64
deriving DecidableEq

structure Itimerval where
  interval : Timeval
  value : Timeval
deriving DecidableEq

structure Info where
  start : BitVec 64
  lastTime : BitVec 64
  interval : BitVec 64
  td : ℕ
deriving DecidableEq

-- `slots` says which thread has a slot of `threads`, threads being numbered as `tid_alloc` counts them; an alarm is
-- sent to a slot and goes to the thread there, if any.
structure State where
  heap : ℕ → Option Info
  list : List ℕ
  slots : ℕ → Option ℕ
  cnt : ℕ
  clock : ℕ
  sent : List (Option ℕ × ℕ)

def State.init : State := ⟨fun _ => none, [], fun _ => none, 1, 0, []⟩

inductive Fault
  | freed (entry : ℕ)

abbrev M := Prog State Fault

def load (a : ℕ) : M Info := do
  let s ← get
  match s.heap a with
  | some i => pure i
  | none => throw (.freed a)

def store (a : ℕ) (f : Info → Info) : M Unit := do
  let i ← load a
  modify fun s => { s with heap := update s.heap a (some (f i)) }

def itimerRemove (a : ℕ) : M Unit := do
  let _ ← load a
  modify fun s => { s with list := s.list.erase a, heap := update s.heap a none }

def itimerAlloc (a : ℕ) (i : Info) : M Unit :=
  modify fun s => { s with list := a :: s.list, heap := update s.heap a (some i) }

def find (td : ℕ) : List ℕ → M (Option ℕ)
  | [] => pure none
  | a :: l => do
    let i ← load a
    if i.td = td then pure (some a) else find td l

def usecPerSec : BitVec 64 := 1000000

section

variable (freq : BitVec 64)

def clockPerUsec : BitVec 64 := freq / usecPerSec

def cycleToTimeval (cycles : BitVec 64) : Timeval :=
  ⟨cycles / freq, cycles / clockPerUsec freq % usecPerSec⟩

def timevalToCycle (val : Timeval) : BitVec 64 := val.sec * freq + val.usec * clockPerUsec freq

def itimerGet (td : ℕ) : M Itimerval := do
  let s ← get
  match ← find td s.list with
  | some a =>
    let i ← load a
    pure ⟨cycleToTimeval freq i.interval,
      cycleToTimeval freq (i.start + i.lastTime - BitVec.ofNat 64 s.clock)⟩
  | none => pure ⟨cycleToTimeval freq 0, cycleToTimeval freq 0⟩

def disarmOrSet (a : ℕ) (start lastTime : BitVec 64) : M Unit :=
  if lastTime = 0 then itimerRemove a else store a fun i => { i with start := start, lastTime := lastTime }

def itimerUpdate (td : ℕ) (itv : Itimerval) (fresh : ℕ) : M Unit := do
  let s ← get
  let start := BitVec.ofNat 64 s.clock
  let lastTime := timevalToCycle freq itv.value
  let interval := timevalToCycle freq itv.interval
  match ← find td s.list with
  | some a =>
    disarmOrSet a start lastTime
    store a fun i => { i with interval := interval }
  | none => if lastTime ≠ 0 then itimerAlloc fresh ⟨start, lastTime, interval, td⟩ else pure ()

end

def sigSendTd (td : ℕ) : M Unit := modify fun s => { s with sent := s.sent ++ [(s.slots td, s.clock)] }

def checkEntries (now : BitVec 64) : List ℕ → M Unit
  | [] => pure ()
  | a :: l => do
    let i ← load a
    if i.start + i.lastTime ≤ now then
      sigSendTd i.td
      if i.interval ≠ 0 then
        store a fun i => { i with lastTime := i.interval, start := now }
        checkEntries now l
      else
        itimerRemove a
        checkEntries now l
    else checkEntries now l

def itimerCheck : M Unit := do
  let s ← get
  checkEntries (BitVec.ofNat 64 s.clock) s.list

-- Each step holds the lock of what it changes. `sys_setitimer` is a `get`, if the old value is wanted, and then a
-- `set`.
inductive Event
  | create (slot : ℕ)
  | exit (slot : ℕ)
  | set (slot : ℕ) (itv : Itimerval) (fresh : ℕ)
  | get (slot : ℕ)
  | tick
  | pass (cycles : ℕ)

namespace Event

variable (freq : BitVec 64)

def Enabled (s : State) : Event → Prop
  | .create slot => s.slots slot = none
  | .exit slot => s.slots slot ≠ none
  | .set slot _ fresh => s.slots slot ≠ none ∧ s.heap fresh = none
  | .get slot => s.slots slot ≠ none
  | .tick | .pass _ => True

instance (s : State) : (e : Event) → Decidable (e.Enabled s)
  | .create slot => inferInstanceAs (Decidable (s.slots slot = none))
  | .exit slot | .get slot => inferInstanceAs (Decidable (s.slots slot ≠ none))
  | .set slot _ fresh => inferInstanceAs (Decidable (s.slots slot ≠ none ∧ s.heap fresh = none))
  | .tick | .pass _ => .isTrue trivial

def exec : Event → M Unit
  | .create slot =>
    modify fun s => { s with slots := update s.slots slot (some (s.cnt + 1)), cnt := s.cnt + 1 }
  | .exit slot => modify fun s => { s with slots := update s.slots slot none }
  | .set slot itv fresh => itimerUpdate freq slot itv fresh
  | .get slot => do
    let _ ← itimerGet freq slot
    pure ()
  | .tick => itimerCheck
  | .pass cycles => modify fun s => { s with clock := s.clock + cycles }

def Step (s : State) (e : Event) (s' : State) : Prop := e.Enabled s ∧ (e.exec freq).run s = .ok ((), s')

end Event

def State.Unarmed (s : State) (slot : ℕ) : Prop := ∀ a ∈ s.list, ∀ i ∈ s.heap a, i.td ≠ slot

structure Spec where
  slots : ℕ → Option ℕ
  cnt : ℕ
  now : ℕ
  armed : ℕ → Option (ℕ × ℕ)
  alarms : ℕ → List ℕ

namespace Spec

def init : Spec := ⟨fun _ => none, 1, 0, fun _ => none, fun _ => []⟩

def arm (x : Spec) (t : ℕ) (v : Option (ℕ × ℕ)) : Spec := { x with armed := update x.armed t v }

@[simp] lemma armed_arm (x : Spec) (t : ℕ) (v : Option (ℕ × ℕ)) : (x.arm t v).armed t = v := by
  simp [arm]

lemma armed_arm_of_ne (x : Spec) {t u : ℕ} (v : Option (ℕ × ℕ)) (h : u ≠ t) : (x.arm t v).armed u = x.armed u := by
  simp [arm, h]

def alarm (x : Spec) (t : ℕ) : Spec := { x with alarms := update x.alarms t (x.alarms t ++ [x.now]) }

def due (x : Spec) (t : ℕ) : Bool := (x.armed t).any fun v => v.1 ≤ x.now

def rearmed (now interval : ℕ) : Option (ℕ × ℕ) := if interval = 0 then none else some (now + interval, interval)

def fire (x : Spec) (t : ℕ) : Spec := (x.alarm t).arm t ((x.armed t).bind fun v => rearmed x.now v.2)

def cyclesOf (freq : BitVec 64) (val : Timeval) : ℕ :=
  val.sec.toNat * freq.toNat + val.usec.toNat * (clockPerUsec freq).toNat

def timeout (freq : BitVec 64) (now : ℕ) (itv : Itimerval) : Option (ℕ × ℕ) :=
  if cyclesOf freq itv.value = 0 then none
  else some (now + cyclesOf freq itv.value, cyclesOf freq itv.interval)

def apply (freq : BitVec 64) (x : Spec) : Event → Spec
  | .create slot => { x with slots := update x.slots slot (some (x.cnt + 1)), cnt := x.cnt + 1 }
  | .exit slot =>
    match x.slots slot with
    | some t => { x.arm t none with slots := update x.slots slot none }
    | none => x
  | .set slot itv _ =>
    match x.slots slot with
    | some t => x.arm t (timeout freq x.now itv)
    | none => x
  | .get _ => x
  | .tick =>
    { x with
      armed := fun t => if x.due t then (x.fire t).armed t else x.armed t
      alarms := fun t => if x.due t then x.alarms t ++ [x.now] else x.alarms t }
  | .pass cycles => { x with now := x.now + cycles }

end Spec

-- No armed timer is disarmed or outlived by its thread's slot, and no time is so far off that the sums wrap.
def Event.Careful (freq : BitVec 64) (s : State) : Event → Prop
  | .exit slot => s.Unarmed slot
  | .set slot itv _ => Spec.cyclesOf freq itv.value < 2 ^ 63 ∧ Spec.cyclesOf freq itv.interval < 2 ^ 63 ∧
      (Spec.cyclesOf freq itv.value = 0 → s.Unarmed slot)
  | .pass cycles => s.clock + cycles < 2 ^ 63
  | _ => True

def Event.CarefulStep (freq : BitVec 64) (s : State) (e : Event) (s' : State) : Prop :=
  e.Careful freq s ∧ e.Step freq s s'

end FarmOS.Signal.Itimer

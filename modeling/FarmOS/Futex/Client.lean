import FarmOS.Proc.Outline

/-! Futexes: `futex_wait` and `futex_wake` of `kern/futex` with the timed sleep of `kern/proc/tsleep.c`, as a client of
the scheduler. -/

namespace FarmOS.Futex

open Proc Function

inductive Mtx
  | feFree | feUsed | tsFree | tsUsed
deriving DecidableEq

inductive Chan
  | null
  | event (i : ℕ)
  | minusOne
  | device (n : ℕ)
deriving DecidableEq

structure FutexEvent (T : Type) where
  upaddr : ℕ
  waiterpid : Option T
  waketime : ℕ
deriving DecidableEq

structure TsEvent (T : Type) where
  td : Option T
  wchan : Chan
  wakeus : ℕ

-- Auxiliary: who has an event. An event that is in no queue belongs to the thread that took it out.
inductive Slot (T : Type)
  | absent | free | used
  | held (t : T)

-- `futexevents`, `fe_freeq` and `fe_usedq`. `slot`, `ticket` and `tickets` are auxiliary: an event that is put on the
-- used queue gets the next ticket.
structure Events (T : Type) where
  fe : ℕ → FutexEvent T
  free : List ℕ
  used : List ℕ
  slot : ℕ → Slot T
  ticket : ℕ → ℕ
  tickets : ℕ

structure Timers (T : Type) where
  tse : ℕ → TsEvent T
  free : List ℕ
  used : List ℕ

structure Glob (T : Type) where
  events : Events T
  timers : Timers T
  mem : ℕ → BitVec 32

abbrev Entry (T : Type) := ℕ × FutexEvent T

namespace Events

variable {T : Type} (q : Events T)

def entry (i : ℕ) : Entry T := (i, q.fe i)

def entries : List (Entry T) := q.used.map q.entry

def setEvent (i : ℕ) (fe : FutexEvent T) : Events T := { q with fe := update q.fe i fe }

def setSlot (i : ℕ) (a : Slot T) : Events T := { q with slot := update q.slot i a }

def take (t : T) (i : ℕ) (rest : List ℕ) : Events T := { q.setSlot i (.held t) with free := rest }

def insert (i : ℕ) : Events T :=
  { q.setSlot i .used with
    used := q.used ++ [i], ticket := update q.ticket i q.tickets, tickets := q.tickets + 1 }

def remove (t : T) (i : ℕ) : Events T := { (q.setEvent i ⟨0, none, 0⟩).setSlot i (.held t) with used := q.used.erase i }

def put (i : ℕ) : Events T := { q.setSlot i .free with free := i :: q.free }

end Events

namespace Timers

variable {T : Type} (q : Timers T)

def setEvent (j : ℕ) (tse : TsEvent T) : Timers T := { q with tse := update q.tse j tse }

-- `tse_debug`, without its test for an event that is linked to itself.
def debug (j : ℕ) (shouldUsed shouldFree : Bool) : Bool :=
  decide (j ∈ q.used) == shouldUsed && decide (j ∈ q.free) == shouldFree

def insert (j : ℕ) : Timers T :=
  let w := (q.tse j).wakeus
  let earlier := fun k => ! (decide (w < (q.tse k).wakeus) || (q.tse k).wakeus == 0)
  if w = 0 then { q with used := q.used ++ [j] }
  else { q with used := q.used.takeWhile earlier ++ j :: q.used.dropWhile earlier }

-- `tse_set_unused`; its assertions are `canSetUnused`.
def setUnused (j : ℕ) (timeout : Bool) : Timers T :=
  { q.setEvent j { q.tse j with wchan := if timeout then .minusOne else .null } with used := q.used.erase j }

def canSetUnused (j : ℕ) : Bool := q.debug j true false && (q.setUnused j false).debug j false false

end Timers

structure Scan (T : Type) where
  upa : ℕ
  wakecnt : ℕ
  haswake : ℕ
  rest : List ℕ
  before : List (Entry T)
deriving DecidableEq

inductive Result
  | ok | eagain | etimedout
deriving DecidableEq

-- Inside `futexevent_free_and_wake` the last argument says for whom it runs: a `futex_wake`, or a `futex_wait` that
-- read another value.
inductive Loc (T : Type)
  | outside
  | waitTake (upa : ℕ) (val : BitVec 32) (timeout : ℕ)
  | waitTaken (i upa : ℕ) (val : BitVec 32) (timeout : ℕ)
  | waitFill (i upa : ℕ) (val : BitVec 32) (timeout : ℕ)
  | waitEnter (i upa : ℕ) (val : BitVec 32)
  | waitInsert (i upa : ℕ) (val : BitVec 32)
  | waitTest (i upa : ℕ) (val : BitVec 32)
  | sleepAlloc (i upa wakeus : ℕ)
  | sleepTake (i upa wakeus : ℕ)
  | sleepTaken (i upa wakeus j : ℕ)
  | sleepFill (i upa wakeus j : ℕ)
  | sleepEnter (i upa j : ℕ)
  | sleepInsert (i upa j : ℕ)
  | sleepLeave (i upa j : ℕ)
  | sleepSleep (i upa j : ℕ)
  | slept (i upa j : ℕ)
  | sleptFree (j : ℕ)
  | sleptEnter (j : ℕ) (r : Result)
  | sleptPut (j : ℕ) (r : Result)
  | sleptExit (r : Result)
  | sleptLeave (r : Result)
  | waitExit (r : Result)
  | remove (i : ℕ) (k : Option (Scan T))
  | enterFree (i : ℕ) (k : Option (Scan T))
  | put (i : ℕ) (k : Option (Scan T))
  | exitFree (i : ℕ) (k : Option (Scan T))
  | twEnter (i : ℕ) (k : Option (Scan T))
  | twScan (i : ℕ) (k : Option (Scan T))
  | twWakeup (i : ℕ) (k : Option (Scan T))
  | twLeave (i : ℕ) (k : Option (Scan T))
  | wakeFirst (upa wakecnt : ℕ)
  | wakeScan (w : Scan T)
  | wakeCount (i : ℕ) (w : Scan T)
  | wakeExit (w : Scan T)
  | timerNow
  | timerLoop (now : ℕ)
  | timerWakeup (chan : Chan) (now : ℕ)
  | timerLeave
deriving DecidableEq

inductive Errand
  | wait (upa : ℕ) (val : BitVec 32) (timeout : ℕ)
  | wake (upa wakecnt : ℕ)
  | store (pa : ℕ) (val : BitVec 32)
  | timer | yield | pause

structure Turn where
  errand : Errand
  now : ℕ
  interrupt : Option ℕ

variable {T : Type}

abbrev Action (T : Type) := Do T Mtx Chan (Loc T) (Glob T)

def assert (b : Bool) (d : Action T) : Action T := if b then d else .fail

-- `twakeup`: a second round of its loop finds no event on the channel any more.
def unusedAll (chan : Chan) : List ℕ → Timers T → Option (Timers T)
  | [], q => some q
  | j :: js, q =>
    if (q.tse j).wchan = chan then
      if q.canSetUnused j then unusedAll chan js (q.setUnused j false) else none
    else unusedAll chan js q

def act (t : T) (l : Loc T) (g : Glob T) (e : Turn) : Action T :=
  match l with
  | .outside =>
    match e.errand with
    | .wait upa val timeout => .mtxLock .feFree (.waitTake upa val timeout)
    | .wake upa wakecnt => .mtxLock .feUsed (.wakeFirst upa wakecnt)
    | .store pa val => .compute .outside { g with mem := update g.mem pa val }
    | .timer => .mtxLock .tsUsed .timerNow
    | .yield => .yield .outside
    | .pause => .rest
  -- futexevent_alloc
  | .waitTake upa val timeout =>
    match g.events.free with
    | [] => .fail
    | i :: rest => .compute (.waitTaken i upa val timeout) { g with events := g.events.take t i rest }
  | .waitTaken i upa val timeout => .mtxUnlock .feFree (.waitFill i upa val timeout)
  | .waitFill i upa val timeout =>
    let waketime := if timeout = 0 then 0 else (timeout + e.now) % 2 ^ 64
    .compute (.waitEnter i upa val) { g with events := g.events.setEvent i ⟨upa, some t, waketime⟩ }
  | .waitEnter i upa val => .mtxLock .feUsed (.waitInsert i upa val)
  | .waitInsert i upa val => .compute (.waitTest i upa val) { g with events := g.events.insert i }
  -- futex_wait
  | .waitTest i upa val =>
    if val ≠ g.mem upa then .compute (.remove i none) g
    else .compute (.sleepAlloc i upa (g.events.fe i).waketime) g
  -- tsleep and tse_alloc
  | .sleepAlloc i upa wakeus => .mtxLock .tsFree (.sleepTake i upa wakeus)
  | .sleepTake i upa wakeus =>
    match g.timers.free with
    | [] => .fail
    | j :: rest =>
      let timers := { g.timers with free := rest }
      assert (g.timers.debug j false true && timers.debug j false false)
        (.compute (.sleepTaken i upa wakeus j) { g with timers := timers })
  | .sleepTaken i upa wakeus j => .mtxUnlock .tsFree (.sleepFill i upa wakeus j)
  | .sleepFill i upa wakeus j =>
    .compute (.sleepEnter i upa j) { g with timers := g.timers.setEvent j ⟨some t, .event i, wakeus⟩ }
  | .sleepEnter i upa j => .mtxLock .tsUsed (.sleepInsert i upa j)
  | .sleepInsert i upa j =>
    let timers := g.timers.insert j
    assert (g.timers.debug j false false && timers.debug j true false)
      (.compute (.sleepLeave i upa j) { g with timers := timers })
  | .sleepLeave i upa j => .mtxUnlock .tsUsed (.sleepSleep i upa j)
  | .sleepSleep i upa j => .sleep (.event i) .feUsed (.slept i upa j)
  | .slept _ _ j => .mtxLock .tsUsed (.sleptFree j)
  -- tse_free
  | .sleptFree j =>
    let r := if (g.timers.tse j).wchan = .null then .ok else .etimedout
    .compute (.sleptEnter j r) { g with timers := g.timers.setEvent j ⟨none, .null, 0⟩ }
  | .sleptEnter j r => .mtxLock .tsFree (.sleptPut j r)
  | .sleptPut j r =>
    let timers := { g.timers with free := j :: g.timers.free }
    assert (g.timers.debug j false false && timers.debug j false true)
      (.compute (.sleptExit r) { g with timers := timers })
  | .sleptExit r => .mtxUnlock .tsFree (.sleptLeave r)
  | .sleptLeave r => .mtxUnlock .tsUsed (.waitExit r)
  | .waitExit _ => .mtxUnlock .feUsed .outside
  -- futexevent_free_and_wake
  | .remove i k => .compute (.enterFree i k) { g with events := g.events.remove t i }
  | .enterFree i k => .mtxLock .feFree (.put i k)
  | .put i k => .compute (.exitFree i k) { g with events := g.events.put i }
  | .exitFree i k => .mtxUnlock .feFree (.twEnter i k)
  -- twakeup
  | .twEnter i k => .mtxLock .tsUsed (.twScan i k)
  | .twScan i k =>
    match unusedAll (.event i) g.timers.used g.timers with
    | some timers => .compute (.twWakeup i k) { g with timers := timers }
    | none => .fail
  | .twWakeup i k => .wakeup (.event i) (.twLeave i k)
  | .twLeave _ none => .mtxUnlock .tsUsed (.waitExit .eagain)
  | .twLeave i (some w) => .mtxUnlock .tsUsed (.wakeCount i w)
  -- futex_wake
  | .wakeFirst upa wakecnt => .compute (.wakeScan ⟨upa, wakecnt, 0, g.events.used, g.events.entries⟩) g
  | .wakeScan w =>
    match w.rest with
    | [] => .compute (.wakeExit w) g
    | i :: rest =>
      if (g.events.fe i).upaddr = w.upa then .compute (.remove i (some { w with rest := rest })) g
      else .compute (.wakeScan { w with rest := rest }) g
  | .wakeCount _ w =>
    let w := { w with haswake := w.haswake + 1 }
    if w.haswake = w.wakecnt then .compute (.wakeExit w) g else .compute (.wakeScan w) g
  | .wakeExit _ => .mtxUnlock .feUsed .outside
  -- tsleep_check
  | .timerNow => .compute (.timerLoop e.now) g
  | .timerLoop now =>
    match g.timers.used with
    | [] => .compute .timerLeave g
    | j :: _ =>
      if now < (g.timers.tse j).wakeus ∨ (g.timers.tse j).wakeus = 0 then .compute .timerLeave g
      else
        assert (g.timers.canSetUnused j)
          (.compute (.timerWakeup (g.timers.tse j).wchan now) { g with timers := g.timers.setUnused j true })
  | .timerWakeup chan now => .wakeup chan (.timerLoop now)
  | .timerLeave => .mtxUnlock .tsUsed .outside

def client : Client T Mtx Chan (Loc T) (Glob T) Turn where
  entry := .outside
  act := act
  interrupt e := e.interrupt.map .device

def Events.init (n : ℕ) : Events T where
  fe _ := ⟨0, none, 0⟩
  free := List.range n
  used := []
  slot i := if i < n then .free else .absent
  ticket _ := 0
  tickets := 0

def init (mem : ℕ → BitVec 32) : Glob T where
  events := .init 1024
  timers := ⟨fun _ => ⟨none, .null, 0⟩, List.range 1024, []⟩
  mem := mem

end FarmOS.Futex

import Mathlib.Algebra.BigOperators.Ring.Finset

/-! Processes: the table of `kern/proc/proc.c` with `fork.c`, `td_destroy` and `wait.c`. A step is one critical section
of one thread, and any other thread may run before its next one. -/

namespace FarmOS.Process

open Function

inductive Status
  | unused | used | zombie
deriving DecidableEq

structure Times where
  utime : ℕ
  stime : ℕ
  cutime : ℕ
  cstime : ℕ
deriving DecidableEq

-- The fields from `born` on are auxiliary: the number of processes made before this one in any slot, and how often it
-- became a zombie, its files were recycled and its address space was.
structure Proc (T : Type) where
  status : Status
  pid : ℕ
  parent : Option ℕ
  children : List ℕ
  threads : List T
  exitcode : BitVec 32
  times : Times
  born : ℕ
  zombied : ℕ
  fsRecycled : ℕ
  ptRecycled : ℕ

structure Call where
  pid : ℤ
  nohang : Bool
  ready : Bool
deriving DecidableEq

inductive Pc
  | free | user
  | forking (child : ℕ)
  | tested (code : BitVec 32) (last : Bool)
  | recycled (code : BitVec 32)
  | asleep (w : Call) (child : Option ℕ)
  | woken (w : Call) (child : Option ℕ)
deriving DecidableEq

inductive Outcome
  | echild | nohang
  | reaped (pid : ℕ) (status : BitVec 32) (born : ℕ)
deriving DecidableEq

structure Exit where
  born : ℕ
  pid : ℕ
  parent : Option ℕ
  code : BitVec 32
deriving DecidableEq

structure Return where
  caller : ℕ
  call : Call
  outcome : Outcome
deriving DecidableEq

-- `proc` is `td_proc`. `exits` and `returns` are auxiliary: the processes that have exited, each with its parent
-- at that time, and the calls of `wait` that have returned.
structure State (T : Type) where
  procs : ℕ → Proc T
  freelist : List ℕ
  cnt : ℕ
  pc : T → Pc
  proc : T → ℕ
  exits : List Exit
  returns : List Return
  panicked : Bool

def pidGenerate (cnt index : ℕ) : ℕ := index ||| (cnt % 0x1000) <<< 16

def pidInit : ℕ := pidGenerate 1 0

def initSlot : ℕ := pidInit &&& 0xffff

def waitStatus (code : BitVec 32) : BitVec 32 := (code &&& 0xff) <<< 8

def Times.reap (p child : Times) : Times :=
  { p with cutime := p.cutime + child.utime, cstime := p.cstime + child.stime }

variable {T : Type} [DecidableEq T]

namespace State

def modify (s : State T) (i : ℕ) (f : Proc T → Proc T) : State T :=
  { s with procs := update s.procs i (f (s.procs i)) }

def goto (s : State T) (t : T) (a : Pc) : State T := { s with pc := update s.pc t a }

def procAlloc (s : State T) (c : ℕ) (rest : List ℕ) : State T :=
  { s with freelist := rest, cnt := s.cnt + 1 }.modify c fun p =>
    { p with
      status := .used, pid := pidGenerate (s.cnt + 1) c, times := ⟨0, 0, 0, 0⟩, born := s.cnt + 1, zombied := 0,
      fsRecycled := 0, ptRecycled := 0 }

def procAddtd (s : State T) (i : ℕ) (td : T) : State T :=
  { s.modify i fun p => { p with threads := td :: p.threads } with
    pc := update s.pc td .user, proc := update s.proc td i }

def procFree (s : State T) (c : ℕ) : State T :=
  { s.modify c fun p => { p with status := .unused, pid := 0, parent := none } with freelist := c :: s.freelist }

def link (s : State T) (i c : ℕ) : State T :=
  (s.modify c fun p => { p with parent := some i }).modify i fun p => { p with children := c :: p.children }

def listRemove (s : State T) (i c : ℕ) : State T := s.modify i fun p => { p with children := p.children.erase c }

def dropChild (i : ℕ) (s : State T) (c : ℕ) : State T :=
  let s := s.listRemove i c
  if (s.procs c).status = .zombie then
    (s.modify i fun p => { p with times := p.times.reap (s.procs c).times }).procFree c
  else s.modify c fun p => { p with parent := some initSlot }

def wakeup (s : State T) (chan : ℕ) : State T :=
  { s with
    pc := fun u =>
      match s.pc u with
      | .asleep w c => if s.proc u = chan then .woken w c else .asleep w c
      | a => a }

def procDestroy (s : State T) (i : ℕ) (code : BitVec 32) : State T :=
  let p := s.procs i
  let s := s.modify i fun p =>
    { p with exitcode := code, status := .zombie, zombied := p.zombied + 1, ptRecycled := p.ptRecycled + 1 }
  let s := p.children.foldl (dropChild i) s
  let s := { s with exits := ⟨p.born, p.pid, p.parent.map fun j => (s.procs j).born, code⟩ :: s.exits }
  if p.pid ≠ pidInit then
    match p.parent with
    | some j => s.wakeup j
    | none => s
  else s

def leave (s : State T) (t : T) : State T :=
  (s.modify (s.proc t) fun p => { p with threads := p.threads.erase t }).goto t .free

def ret (s : State T) (t : T) (w : Call) (o : Outcome) : State T :=
  { s.goto t .user with returns := ⟨(s.procs (s.proc t)).born, w, o⟩ :: s.returns }

def unlink (s : State T) (c : ℕ) : State T :=
  { s with procs := fun i => { s.procs i with children := (s.procs i).children.erase c } }

def waitExit (s : State T) (t : T) (w : Call) (c : ℕ) : State T :=
  let child := s.procs c
  let s := s.modify (s.proc t) fun p => { p with times := p.times.reap child.times }
  ((s.unlink c).procFree c).ret t w (.reaped child.pid (waitStatus child.exitcode) child.born)

def waitLoop (s : State T) (t : T) (w : Call) (c : ℕ) : State T :=
  if (s.procs c).status = .zombie then s.waitExit t w c else s.goto t (.asleep w (some c))

def waitTilExit (s : State T) (t : T) (w : Call) (c : ℕ) : State T :=
  if w.nohang then s.ret t w .nohang else s.waitLoop t w c

def Wanted (s : State T) (w : Call) (c : ℕ) : Prop :=
  (w.pid ≠ -1 ∧ w.pid = (s.procs c).pid) ∨ (w.pid = -1 ∧ (s.procs c).status = .zombie)

instance (s : State T) (w : Call) (c : ℕ) : Decidable (s.Wanted w c) := inferInstanceAs (Decidable (_ ∨ _))

def waitScan (s : State T) (t : T) (w : Call) : State T :=
  match (s.procs (s.proc t)).children.find? fun c => s.Wanted w c with
  | some c =>
    if w.pid = -1 then s.waitExit t w c
    else if (s.procs c).status = .unused then { s with panicked := true }
    else s.waitTilExit t w c
  | none =>
    if w.pid ≠ -1 then s.ret t w .echild
    else if w.nohang then s.ret t w .nohang
    else s.goto t (.asleep w none)

def ready (s : State T) (t : T) (pid : ℤ) : Bool :=
  (s.procs (s.proc t)).children.any fun c =>
    (s.procs c).status = .zombie ∧ (pid = -1 ∨ pid = (s.procs c).pid)

def wait (s : State T) (t : T) (pid : ℤ) (nohang : Bool) : State T :=
  let w : Call := ⟨pid, nohang, s.ready t pid⟩
  if (s.procs (s.proc t)).children = [] then s.ret t w .echild else s.waitScan t w

end State

inductive Event (T : Type)
  | create (td : T)
  | fork (t : T)
  | child (t td : T)
  | spawn (t td : T)
  | exit (t : T) (code : BitVec 32)
  | wait (t : T) (pid : ℤ) (nohang : Bool)
  | run (t : T)

def step (s : State T) (ev : Event T) : State T :=
  if s.panicked then s
  else
    match ev with
    | .create td =>
      if s.pc td ≠ .free then s
      else
        match s.freelist with
        | [] => { s with panicked := true }
        | c :: rest => (s.procAlloc c rest).procAddtd c td
    | .fork t =>
      if s.pc t ≠ .user then s
      else
        match s.freelist with
        | [] => { s with panicked := true }
        | c :: rest => (s.procAlloc c rest).goto t (.forking c)
    | .child t td =>
      match s.pc t with
      | .forking c => if s.pc td ≠ .free then s else ((s.procAddtd c td).link (s.proc t) c).goto t .user
      | _ => s
    | .spawn t td => if s.pc t ≠ .user ∨ s.pc td ≠ .free then s else s.procAddtd (s.proc t) td
    | .exit t code =>
      if s.pc t ≠ .user then s
      else
        let threads := (s.procs (s.proc t)).threads
        s.goto t (.tested code (threads.head? = threads.getLast?))
    | .wait t pid nohang => if s.pc t ≠ .user then s else s.wait t pid nohang
    | .run t =>
      match s.pc t with
      | .tested code true =>
        (s.modify (s.proc t) fun p => { p with fsRecycled := p.fsRecycled + 1 }).goto t (.recycled code)
      | .tested _ false => s.leave t
      | .recycled code => (s.leave t).procDestroy (s.proc t) code
      | .woken w none => s.waitScan t w
      | .woken w (some c) => s.waitLoop t w c
      | _ => s

def run (s : State T) (evs : List (Event T)) : State T := evs.foldl step s

def init (n : ℕ) : State T where
  procs _ := ⟨.unused, 0, none, [], [], 0, ⟨0, 0, 0, 0⟩, 0, 0, 0, 0⟩
  freelist := List.range n
  cnt := 0
  pc _ := .free
  proc _ := 0
  exits := []
  returns := []
  panicked := false

end FarmOS.Process

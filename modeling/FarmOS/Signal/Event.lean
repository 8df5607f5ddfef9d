import FarmOS.Lib.Mem
import FarmOS.Lib.Prog
import FarmOS.Mm.Pte

/-! Signals of `kern/signal`: the event pool, the queue of a thread, starting a handler on the way to user mode and
returning from it. -/

set_option linter.unusedSectionVars false

namespace FarmOS.Signal

open Lib Function List

inductive Reg
  | kernelSatp | trapHandler | epc | hartid | ra | sp | gp | tp | t0 | t1 | t2 | s0 | s1 | a0 | a1 | a2 | a3 | a4 | a5
  | a6 | a7 | s2 | s3 | s4 | s5 | s6 | s7 | s8 | s9 | s10 | s11 | t3 | t4 | t5 | t6 | kernelSp | ft0 | ft1 | ft2 | ft3
  | ft4 | ft5 | ft6 | ft7 | fs0 | fs1 | fa0 | fa1 | fa2 | fa3 | fa4 | fa5 | fa6 | fa7 | fs2 | fs3 | fs4 | fs5 | fs6
  | fs7 | fs8 | fs9 | fs10 | fs11 | ft8 | ft9 | ft10 | ft11
deriving DecidableEq

abbrev Trapframe := Reg → BitVec 64

-- Bit `signo - 1` of the 16 bytes of a `sigset_t`.
abbrev SigSet := BitVec 128

def signalMax : ℕ := 128
def sigkill : ℕ := 9
def sigsegv : ℕ := 11
def sigterm : ℕ := 15
def sigIgn : BitVec 64 := 1
def saSiginfo : BitVec 64 := 4

structure SigAction where
  handler : BitVec 64
  flags : BitVec 64
  restorer : BitVec 64
  mask : SigSet
deriving DecidableEq

def SigAction.siginfo (sa : SigAction) : Bool := sa.flags &&& saSiginfo ≠ 0

structure SigEvent where
  restoretf : Trapframe
  restoremask : SigSet
  signo : ℕ
  processing : Bool
  usiginfo : BitVec 64
  uuctx : BitVec 64

def SigEvent.zero : SigEvent := ⟨fun _ => 0, 0, 0, false, 0, 0⟩

structure Thread where
  sig : Option ℕ
  trapframe : Trapframe
  killed : Bool
  cursigmask : SigSet
  sigmask : SigSet
  sigqueue : List ℕ

-- Events are named by their place in `sigevents`; `mem` is the memory of a process as its user code sees it.
structure State (T P : Type) where
  events : ℕ → SigEvent
  freeq : List ℕ
  thread : T → Thread
  action : P → ℕ → SigAction
  mem : P → ℕ → BitVec 8

inductive Fault
  | panic | fuel
deriving DecidableEq

inductive Outcome
  | none | started (se : ℕ) (sa : SigAction) | exit
deriving DecidableEq

variable {T P : Type} [DecidableEq T] [DecidableEq P]

abbrev Sig (T P : Type) := Prog (State T P) Fault

def State.setEvent (s : State T P) (se : ℕ) (e : SigEvent) : State T P :=
  { s with events := update s.events se e }

def State.setThread (s : State T P) (t : T) (th : Thread) : State T P :=
  { s with thread := update s.thread t th }

def State.setMem (s : State T P) (p : P) (m : ℕ → BitVec 8) : State T P :=
  { s with mem := update s.mem p m }

section

variable (s : State T P) (t : T) (p : P) (se : ℕ) (e : SigEvent) (th : Thread) (m : ℕ → BitVec 8)

@[simp] lemma setEvent_events : (s.setEvent se e).events = update s.events se e := rfl
@[simp] lemma setEvent_freeq : (s.setEvent se e).freeq = s.freeq := rfl
@[simp] lemma setEvent_thread : (s.setEvent se e).thread = s.thread := rfl
@[simp] lemma setEvent_action : (s.setEvent se e).action = s.action := rfl
@[simp] lemma setEvent_mem : (s.setEvent se e).mem = s.mem := rfl

@[simp] lemma setThread_events : (s.setThread t th).events = s.events := rfl
@[simp] lemma setThread_freeq : (s.setThread t th).freeq = s.freeq := rfl
@[simp] lemma setThread_thread : (s.setThread t th).thread = update s.thread t th := rfl
@[simp] lemma setThread_action : (s.setThread t th).action = s.action := rfl
@[simp] lemma setThread_mem : (s.setThread t th).mem = s.mem := rfl

@[simp] lemma setMem_events : (s.setMem p m).events = s.events := rfl
@[simp] lemma setMem_freeq : (s.setMem p m).freeq = s.freeq := rfl
@[simp] lemma setMem_thread : (s.setMem p m).thread = s.thread := rfl
@[simp] lemma setMem_action : (s.setMem p m).action = s.action := rfl
@[simp] lemma setMem_mem : (s.setMem p m).mem = update s.mem p m := rfl

end

-- sigset.h
def sigsetIsset (set : SigSet) (signo : ℕ) : Sig T P Bool :=
  if 0 < signo ∧ signo ≤ signalMax then pure (set.getLsbD (signo - 1)) else throw .panic

-- sigevent.c
def sigeventAlloc (signo : ℕ) : Sig T P ℕ := do
  match (← get).freeq with
  | [] => throw .panic
  | se :: rest =>
    modify fun s => { s.setEvent se { s.events se with signo } with freeq := rest }
    pure se

def sigeventFree (se : ℕ) : Sig T P Unit :=
  modify fun s => { s.setEvent se .zero with freeq := se :: s.freeq }

def sigactionGet (p : P) (signo : ℕ) : Sig T P SigAction := do
  if 0 < signo ∧ signo ≤ signalMax then pure ((← get).action p (signo - 1)) else throw .panic

-- sigqueue.c
def sigeventqInsert (t : T) (se : ℕ) : Sig T P Unit :=
  modify fun s => s.setThread t { s.thread t with sigqueue := se :: (s.thread t).sigqueue }

def sigeventqRemove (t : T) (se : ℕ) : Sig T P Unit :=
  modify fun s => s.setThread t { s.thread t with sigqueue := (s.thread t).sigqueue.erase se }

def sigeventFreetd (t : T) : List ℕ → Sig T P Unit
  | [] => pure ()
  | se :: rest => do
    sigeventqRemove t se
    sigeventFree se
    sigeventFreetd t rest

-- sigsend.c
def sigTdCanhandle (t : T) (signo : ℕ) : Sig T P Bool := do
  let th := (← get).thread t
  pure !(← sigsetIsset (th.sigmask ||| th.cursigmask) signo)

def sigSendTd (t : T) (signo : ℕ) : Sig T P Unit := do
  let se ← sigeventAlloc signo
  sigeventqInsert t se
  if signo = sigkill then
    modify fun s => s.setThread t { s.thread t with killed := true }

-- siginfo.c
def siginfoSize : BitVec 64 := 144
def ucontextSize : BitVec 64 := 960
def maskOffset : ℕ := 40
def pcOffset : ℕ := 176

def siginfoBytes (signo : ℕ) : List (BitVec 8) := leBytes 4 signo ++ replicate 140 0

def ucontextBytes (mask : SigSet) (pc : BitVec 64) : List (BitVec 8) :=
  replicate maskOffset 0 ++ leBytes 16 mask.toNat ++ replicate 120 0 ++ leBytes 8 pc.toNat ++
    replicate 776 0

def alignDown (a : BitVec 64) : BitVec 64 := a &&& ~~~0xf

def siginfoSet (proc : T → P) (t : T) (se : ℕ) : Sig T P Unit :=
  modify fun s =>
    let th := s.thread t
    let info := alignDown (th.trapframe .sp - siginfoSize)
    let uctx := alignDown (info - ucontextSize)
    let tf := update (update (update th.trapframe .a1 info) .a2 uctx) .sp uctx
    let m := blit (blit (s.mem (proc t)) info.toNat (siginfoBytes (s.events se).signo)) uctx.toNat
      (ucontextBytes th.sigmask ((s.events se).restoretf .epc))
    ((s.setThread t { th with trapframe := tf }).setEvent se { s.events se with usiginfo := info, uuctx :=
      uctx }).setMem
      (proc t) m

def ucontextPc (m : ℕ → BitVec 8) (uctx : BitVec 64) : BitVec 64 :=
  BitVec.ofNat 64 (leNat (slice m (uctx.toNat + pcOffset) 8))

def ucontextMask (m : ℕ → BitVec 8) (uctx : BitVec 64) : SigSet :=
  BitVec.ofNat 128 (leNat (slice m (uctx.toNat + maskOffset) 16))

lemma ucontextPc_blit (m : ℕ → BitVec 8) (a : BitVec 64) (mask : SigSet) (pc : BitVec 64) :
    ucontextPc (blit m a.toNat (ucontextBytes mask pc)) a = pc := by
  have h := slice_blit_append m a.toNat (replicate maskOffset 0 ++ leBytes 16 mask.toNat ++ replicate 120 0)
    (leBytes 8 pc.toNat) (replicate 776 0) (length_leBytes 8 pc.toNat)
  have hlen : (replicate maskOffset (0 : BitVec 8) ++ leBytes 16 mask.toNat ++ replicate 120 0).length =
    pcOffset := by
    rw [length_append, length_append, length_replicate, length_replicate, length_leBytes, maskOffset,
      pcOffset]
  rw [hlen] at h
  rw [ucontextPc, ucontextBytes, h, leNat_leBytes, show 256 ^ 8 = 2 ^ 64 from rfl, Nat.mod_eq_of_lt pc.isLt,
    BitVec.ofNat_toNat, BitVec.setWidth_eq]

lemma ucontextMask_blit (m : ℕ → BitVec 8) (a : BitVec 64) (mask : SigSet) (pc : BitVec 64) :
    ucontextMask (blit m a.toNat (ucontextBytes mask pc)) a = mask := by
  have h := slice_blit_append m a.toNat (replicate maskOffset 0) (leBytes 16 mask.toNat)
    (replicate 120 0 ++ (leBytes 8 pc.toNat ++ replicate 776 0)) (length_leBytes 16 mask.toNat)
  rw [length_replicate] at h
  rw [ucontextMask, ucontextBytes, append_assoc, append_assoc, h, leNat_leBytes, show 256 ^ 16 = 2 ^ 128 from rfl,
    Nat.mod_eq_of_lt mask.isLt, BitVec.ofNat_toNat, BitVec.setWidth_eq]

def siginfoReturn (proc : T → P) (t : T) (se : ℕ) : Sig T P Unit :=
  modify fun s =>
    let e := s.events se
    let pc := ucontextPc (s.mem (proc t)) e.uuctx
    let tf := if pc ≠ 0 then update e.restoretf .epc pc else e.restoretf
    (s.setEvent se { e with restoretf := tf }).setThread t
      { s.thread t with sigmask := ucontextMask (s.mem (proc t)) e.uuctx }

-- sigentry.c
def sigGetseFrom (t : T) : List ℕ → Sig T P (Option ℕ)
  | [] => pure none
  | se :: rest => do
    let e := (← get).events se
    if e.processing then pure (some se)
    else if ← sigTdCanhandle t e.signo then pure (some se)
    else sigGetseFrom t rest

def sigGetse (t : T) : Sig T P (Option ℕ) := do sigGetseFrom t ((← get).thread t).sigqueue

def sigBeforestart (proc : T → P) (t : T) (se : ℕ) (sa : SigAction) : Sig T P Unit := do
  modify fun s =>
    let th := s.thread t
    let tf := update th.trapframe .sp (th.trapframe .sp - 0x1000)
    let tf := update tf .ra (if sa.restorer ≠ 0 then sa.restorer else Mm.signalTrampolineVa)
    let tf := update tf .epc sa.handler
    let tf := update tf .a0 (BitVec.ofNat 64 (s.events se).signo)
    (s.setEvent se { s.events se with processing := true, restoretf := th.trapframe, restoremask :=
      th.cursigmask }).setThread
      t { th with sig := some se, cursigmask := th.cursigmask ||| sa.mask, trapframe := tf }
  if sa.siginfo then
    siginfoSet proc t se
    modify fun s =>
      let th := s.thread t
      s.setThread t { th with trapframe := update th.trapframe .sp (th.trapframe .sp - 8 - 8) }
  modify fun s =>
    let th := s.thread t
    s.setThread t { th with trapframe := update th.trapframe .sp (th.trapframe .sp - 8) }

def sigAfterret (t : T) (se : ℕ) : Sig T P Unit :=
  modify fun s =>
    s.setThread t { s.thread t with trapframe := (s.events se).restoretf, cursigmask := (s.events se).restoremask }

def sigCheckFrom (proc : T → P) (t : T) : ℕ → Sig T P Outcome
  | 0 => throw .fuel
  | n + 1 => do
    if ((← get).thread t).killed then pure .exit
    else
      match ← sigGetse t with
      | none => pure .none
      | some se =>
        let e := (← get).events se
        if e.processing then pure .none
        else
          let sa ← sigactionGet (proc t) e.signo
          if sa.handler = 0 ∨ sa.handler = sigIgn then
            if e.signo = sigkill ∨ e.signo = sigterm ∨ e.signo = sigsegv then
              modify fun s => s.setThread t { s.thread t with killed := true }
              sigCheckFrom proc t n
            else
              sigeventqRemove t se
              sigeventFree se
              sigCheckFrom proc t n
          else
            sigBeforestart proc t se sa
            pure (.started se sa)

def sigCheck (proc : T → P) (t : T) : Sig T P Outcome := do
  sigCheckFrom proc t (((← get).thread t).sigqueue.length + 2)

def State.current (s : State T P) (t : T) : Option ℕ :=
  (s.thread t).sigqueue.find? fun se => (s.events se).processing

def sigReturn (proc : T → P) (t : T) : Sig T P Unit := do
  match (← get).current t with
  | none => throw .panic
  | some se =>
    let _ ← sigactionGet (proc t) ((← get).events se).signo
    sigAfterret t se
    sigeventqRemove t se
    sigeventFree se

-- sys_signal.c. The `int` result is sign extended in `a0`.
def sysSigreturn (proc : T → P) (t : T) : Sig T P (BitVec 64) := do
  match ((← get).thread t).sig with
  | none => throw .panic
  | some se =>
    let sa ← sigactionGet (proc t) ((← get).events se).signo
    if sa.siginfo then
      siginfoReturn proc t se
    sigReturn proc t
    pure ((((← get).thread t).trapframe .a0).setWidth 32 |>.signExtend 64)

def setReg (t : T) (r : Reg) (v : BitVec 64) : Sig T P Unit :=
  modify fun s => s.setThread t { s.thread t with trapframe := update (s.thread t).trapframe r v }

-- `syscall_entry` for the call that the signal trampoline makes.
def syscallEntry (proc : T → P) (t : T) : Sig T P Unit := do
  setReg t .epc (((← get).thread t).trapframe .epc + 4)
  let r ← sysSigreturn proc t
  setReg t .a0 r

end FarmOS.Signal

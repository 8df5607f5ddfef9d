import FarmOS.Lib.Spin

/-! The threads and CPUs of `kern/proc`: `sched.c`, `sleep.c` and the thread queues of `thread.c`. A step is one
statement of one CPU, and any other CPU may run before the next one. What the rest of the kernel does between
its calls to these functions is given by a `Client`. -/

namespace FarmOS.Proc

open Lib Function

inductive Status
  | unused | used | runnable | running | sleeping
deriving DecidableEq

inductive Lock (T X : Type)
  | runq | sleepq | freeq | td (t : T) | mtx (x : X)
deriving DecidableEq

-- Of these locks only the thread locks are initialised with `MTX_RECURSE`.
def Lock.recurse {T X : Type} : Lock T X → Bool
  | .td _ => true
  | _ => false

inductive Do (T X Ch L G : Type)
  | mtxLock (x : X) (l : L)
  | mtxUnlock (x : X) (l : L)
  | sleep (chan : Ch) (mtx : X) (l : L)
  | yield (l : L)
  | wakeup (chan : Ch) (l : L)
  | wakeupTd (td : T) (l : L)
  | tdFork (l : L)
  | tdDestroy
  | compute (l : L) (g : G)
  | fail
  | rest

structure Client (T X Ch L G E : Type) where
  entry : L
  act : T → L → G → E → Do T X Ch L G
  interrupt : E → Option Ch

inductive SleepPc
  | enter | unlockMtx | lockTd | enqueue

inductive WokenPc
  | clear | unlockTd | lockMtx

inductive YieldPc
  | lockTd | setStatus

inductive WakeupPc (T : Type)
  | enter | first
  | scan (rest : List T)
  | check (td : T) (rest : List T)
  | unlockTd (td : T) (rest : List T)
  | exitSleepq | concat | exitRunq

structure Wakeup (T Ch : Type) where
  pc : WakeupPc T
  chan : Ch
  readyq : List T

inductive WakeupTdPc
  | lockFirst | check | unlockOnly | unlockFirst | enterSleepq | lockTd | remove | unlockTd | exitSleepq
  | enterRunq | insert | exitRunq

inductive ForkPc (T : Type)
  | enterFreeq | first | noFree
  | remove (td : T)
  | exitFreeq (td : T)
  | init (td : T)
  | setStatus (td : T)
  | enterRunq (td : T)
  | insert (td : T)
  | unlockTd (td : T)
  | exitRunq

inductive DestroyPc
  | lockTd | reset

-- What a thread executes. `hs` are the spin locks its own code holds, `l` is where that code goes on.
inductive Ctl (T X Ch L : Type)
  | user (hs : List X) (l : L)
  | sleep (pc : SleepPc) (chan : Ch) (mtx : X) (hs : List X) (l : L)
  | woken (pc : WokenPc) (mtx : X) (l : L)
  | yield (pc : YieldPc) (hs : List X) (l : L)
  | resumed (l : L)
  | wakeup (w : Wakeup T Ch) (hs : List X) (l : L)
  | wakeupTd (pc : WakeupTdPc) (td : T) (hs : List X) (l : L)
  | tdFork (pc : ForkPc T) (hs : List X) (l : L)
  | tdDestroy (pc : DestroyPc) (hs : List X)
  | destroyed

-- The saved context of a thread: where it returns from `schedule`, or `utrap_firstsched`.
inductive Context (X L : Type)
  | woken (mtx : X) (l : L)
  | resumed (l : L)
  | destroyed

def Context.ctl {T X Ch L : Type} : Context X L → Ctl T X Ch L
  | .woken mtx l => .woken .clear mtx l
  | .resumed l => .resumed l
  | .destroyed => .destroyed

inductive Leave
  | sleep | yield | destroy
deriving DecidableEq

-- What a CPU executes on its own stack. A thread that is no longer `running` has its context saved, and the
-- rest of its call, which only needs the thread's lock, belongs to the CPU; `why` is the call that left it.
inductive Own (T X Ch : Type)
  | boot
  | exitSleepq (td : T) (hs : List X)
  | enterFreeq (td : T) (hs : List X)
  | insertFreeq (td : T) (hs : List X)
  | exitFreeq (td : T) (hs : List X)
  | schedule (why : Leave) (td : T) (hs : List X)
  | schedSwitch (why : Leave) (td : T)
  | enterRunq (why : Leave) (td : T)
  | requeue (why : Leave) (td : T)
  | unlockOld (td : T)
  | look | trySleepq | probe | exitSleepqIdle | exitRunqIdle | idle
  | wakeup (w : Wakeup T Ch)
  | lockNext (td : T)
  | removeNext (td : T)
  | exitRunq (td : T)
  | enter (td : T)

inductive Pos (T X Ch L : Type)
  | thread (t : T) (k : Ctl T X Ch L)
  | own (o : Own T X Ch)

structure Store (C T X Ch L G : Type) where
  status : T → Status
  wchan : T → Option Ch
  ctx : T → Context X L
  runq : List T
  sleepq : List T
  freeq : List T
  running : C → Option T
  idle : C → Bool
  glob : G

inductive Stop
  | panic | halt
deriving DecidableEq

structure State (C T X Ch L G : Type) where
  pos : C → Pos T X Ch L
  locks : Locks C (Lock T X)
  store : Store C T X Ch L G
  stop : C → Option Stop

inductive Stmt (C T X Ch L G : Type)
  | acquire (x : Lock T X) (next : Pos T X Ch L)
  | attempt (x : Lock T X) (next other : Pos T X Ch L)
  | release (x : Lock T X) (next : Pos T X Ch L)
  | write (st : Store C T X Ch L G) (next : Pos T X Ch L)
  | stop (w : Stop)
  | rest

variable {C T X Ch L G E : Type} [DecidableEq C] [Fintype C] [DecidableEq T] [DecidableEq X] [DecidableEq Ch]

def Store.setStatus (st : Store C T X Ch L G) (t : T) (a : Status) : Store C T X Ch L G :=
  { st with status := update st.status t a }

def Store.save (st : Store C T X Ch L G) (t : T) (k : Context X L) : Store C T X Ch L G :=
  { st with ctx := update st.ctx t k }

def Store.setWchan (st : Store C T X Ch L G) (t : T) (chan : Option Ch) : Store C T X Ch L G :=
  { st with wchan := update st.wchan t chan }

def Store.setRunning (st : Store C T X Ch L G) (c : C) (t : Option T) : Store C T X Ch L G :=
  { st with running := update st.running c t }

def Store.setIdle (st : Store C T X Ch L G) (c : C) (b : Bool) : Store C T X Ch L G :=
  { st with idle := update st.idle c b }

def wakeupStmt (st : Store C T X Ch L G) (cont : Wakeup T Ch → Pos T X Ch L) (ret : Pos T X Ch L) :
    Wakeup T Ch → Stmt C T X Ch L G
  | ⟨.enter, chan, readyq⟩ => .acquire .sleepq (cont ⟨.first, chan, readyq⟩)
  | ⟨.first, chan, readyq⟩ => .write st (cont ⟨.scan st.sleepq, chan, readyq⟩)
  | ⟨.scan [], chan, readyq⟩ => .acquire .runq (cont ⟨.exitSleepq, chan, readyq⟩)
  | ⟨.scan (td :: rest), chan, readyq⟩ => .acquire (.td td) (cont ⟨.check td rest, chan, readyq⟩)
  | ⟨.check td rest, chan, readyq⟩ =>
    if st.status td ≠ .sleeping then .stop .panic
    else if st.wchan td = some chan then
      .write { st.setStatus td .runnable with sleepq := st.sleepq.erase td }
        (cont ⟨.unlockTd td rest, chan, readyq ++ [td]⟩)
    else .write st (cont ⟨.unlockTd td rest, chan, readyq⟩)
  | ⟨.unlockTd td rest, chan, readyq⟩ => .release (.td td) (cont ⟨.scan rest, chan, readyq⟩)
  | ⟨.exitSleepq, chan, readyq⟩ => .release .sleepq (cont ⟨.concat, chan, readyq⟩)
  | ⟨.concat, chan, readyq⟩ => .write { st with runq := st.runq ++ readyq } (cont ⟨.exitRunq, chan, []⟩)
  | ⟨.exitRunq, _, _⟩ => .release .runq ret

def wakeupTdStmt (st : Store C T X Ch L G) (td : T) (cont : WakeupTdPc → Pos T X Ch L) (ret : Pos T X Ch L) :
    WakeupTdPc → Stmt C T X Ch L G
  | .lockFirst => .acquire (.td td) (cont .check)
  | .check => if st.status td ≠ .sleeping then .write st (cont .unlockOnly) else .write st (cont .unlockFirst)
  | .unlockOnly => .release (.td td) ret
  | .unlockFirst => .release (.td td) (cont .enterSleepq)
  | .enterSleepq => .acquire .sleepq (cont .lockTd)
  | .lockTd => .acquire (.td td) (cont .remove)
  | .remove => .write { st.setStatus td .runnable with sleepq := st.sleepq.erase td } (cont .unlockTd)
  | .unlockTd => .release (.td td) (cont .exitSleepq)
  | .exitSleepq => .release .sleepq (cont .enterRunq)
  | .enterRunq => .acquire .runq (cont .insert)
  | .insert => .write { st with runq := st.runq ++ [td] } (cont .exitRunq)
  | .exitRunq => .release .runq ret

def tdForkStmt (entry : L) (st : Store C T X Ch L G) (cont : ForkPc T → Pos T X Ch L) (ret : Pos T X Ch L) :
    ForkPc T → Stmt C T X Ch L G
  | .enterFreeq => .acquire .freeq (cont .first)
  | .first =>
    match st.freeq with
    | [] => .release .freeq (cont .noFree)
    | td :: _ => .acquire (.td td) (cont (.remove td))
  | .noFree => .stop .panic
  | .remove td => .write { st with freeq := st.freeq.erase td } (cont (.exitFreeq td))
  | .exitFreeq td => .release .freeq (cont (.init td))
  | .init td => .write (((st.setStatus td .used).setWchan td none).save td (.resumed entry)) (cont (.setStatus td))
  | .setStatus td => .write (st.setStatus td .runnable) (cont (.enterRunq td))
  | .enterRunq td => .acquire .runq (cont (.insert td))
  | .insert td => .write { st with runq := st.runq ++ [td] } (cont (.unlockTd td))
  | .unlockTd td => .release (.td td) (cont .exitRunq)
  | .exitRunq => .release .runq ret

def userStmt (st : Store C T X Ch L G) (t : T) (hs : List X) : Do T X Ch L G → Stmt C T X Ch L G
  | .mtxLock x l => .acquire (.mtx x) (.thread t (.user (x :: hs) l))
  | .mtxUnlock x l => .release (.mtx x) (.thread t (.user (hs.erase x) l))
  | .sleep chan mtx l => .write st (.thread t (.sleep .enter chan mtx hs l))
  | .yield l => .write st (.thread t (.yield .lockTd hs l))
  | .wakeup chan l => .write st (.thread t (.wakeup ⟨.enter, chan, []⟩ hs l))
  | .wakeupTd td l => .write st (.thread t (.wakeupTd .lockFirst td hs l))
  | .tdFork l => .write st (.thread t (.tdFork .enterFreeq hs l))
  | .tdDestroy => .write st (.thread t (.tdDestroy .lockTd hs))
  | .compute l g => .write { st with glob := g } (.thread t (.user hs l))
  | .fail => .stop .panic
  | .rest => .rest

def sleepStmt (st : Store C T X Ch L G) (t : T) (chan : Ch) (mtx : X) (hs : List X) (l : L) :
    SleepPc → Stmt C T X Ch L G
  | .enter => .acquire .sleepq (.thread t (.sleep .unlockMtx chan mtx hs l))
  | .unlockMtx => .release (.mtx mtx) (.thread t (.sleep .lockTd chan mtx (hs.erase mtx) l))
  | .lockTd =>
    if st.status t ≠ .running then .stop .panic
    else .acquire (.td t) (.thread t (.sleep .enqueue chan mtx hs l))
  | .enqueue =>
    .write { ((st.setStatus t .sleeping).setWchan t (some chan)).save t (.woken mtx l) with sleepq := t :: st.sleepq }
      (.own (.exitSleepq t hs))

def threadStmt (cl : Client T X Ch L G E) (st : Store C T X Ch L G) (t : T) (e : E) :
    Ctl T X Ch L → Stmt C T X Ch L G
  | .user hs l => userStmt st t hs (cl.act t l st.glob e)
  | .sleep pc chan mtx hs l => sleepStmt st t chan mtx hs l pc
  | .woken .clear mtx l => .write (st.setWchan t none) (.thread t (.woken .unlockTd mtx l))
  | .woken .unlockTd mtx l => .release (.td t) (.thread t (.woken .lockMtx mtx l))
  | .woken .lockMtx mtx l => .acquire (.mtx mtx) (.thread t (.user [mtx] l))
  | .yield .lockTd hs l => .acquire (.td t) (.thread t (.yield .setStatus hs l))
  | .yield .setStatus hs l =>
    .write ((st.setStatus t .runnable).save t (.resumed l)) (.own (.schedule .yield t hs))
  | .resumed l => .release (.td t) (.thread t (.user [] l))
  | .wakeup w hs l => wakeupStmt st (fun w => .thread t (.wakeup w hs l)) (.thread t (.user hs l)) w
  | .wakeupTd pc td hs l =>
    wakeupTdStmt st td (fun pc => .thread t (.wakeupTd pc td hs l)) (.thread t (.user hs l)) pc
  | .tdFork pc hs l => tdForkStmt cl.entry st (fun pc => .thread t (.tdFork pc hs l)) (.thread t (.user hs l)) pc
  | .tdDestroy .lockTd hs => .acquire (.td t) (.thread t (.tdDestroy .reset hs))
  | .tdDestroy .reset hs => .write ((st.setStatus t .unused).save t .destroyed) (.own (.enterFreeq t hs))
  | .destroyed => .stop .panic

def ownStmt (cl : Client T X Ch L G E) (locks : Locks C (Lock T X)) (st : Store C T X Ch L G) (c : C) (e : E) :
    Own T X Ch → Stmt C T X Ch L G
  | .boot => .acquire .runq (.own .look)
  | .exitSleepq td hs => .release .sleepq (.own (.schedule .sleep td hs))
  | .enterFreeq td hs => .acquire .freeq (.own (.insertFreeq td hs))
  | .insertFreeq td hs => .write { st with freeq := st.freeq ++ [td] } (.own (.exitFreeq td hs))
  | .exitFreeq td hs => .release .freeq (.own (.schedule .destroy td hs))
  | .schedule why td _ =>
    if locks.owner (.td td) = some c ∧ locks.nesting c = 1 ∧ locks.depth (.td td) = 1 ∧ st.status td ≠ .running then
      .write st (.own (.schedSwitch why td))
    else .stop .panic
  | .schedSwitch why td => .write (st.setRunning c none) (.own (.enterRunq why td))
  | .enterRunq why td => .acquire .runq (.own (.requeue why td))
  | .requeue _ td =>
    if st.status td = .runnable then .write { st with runq := st.runq ++ [td] } (.own (.unlockOld td))
    else .write st (.own (.unlockOld td))
  | .unlockOld td => .release (.td td) (.own .look)
  | .look =>
    match st.runq with
    | [] => .write (st.setIdle c true) (.own .trySleepq)
    | td :: _ => .write (st.setIdle c false) (.own (.lockNext td))
  | .trySleepq => .attempt .sleepq (.own .probe) (.own .exitRunqIdle)
  | .probe =>
    if st.sleepq = [] ∧ ∀ c, st.idle c = true then .stop .halt else .write st (.own .exitSleepqIdle)
  | .exitSleepqIdle => .release .sleepq (.own .exitRunqIdle)
  | .exitRunqIdle => .release .runq (.own .idle)
  | .idle =>
    match cl.interrupt e with
    | some chan => .write st (.own (.wakeup ⟨.enter, chan, []⟩))
    | none => .acquire .runq (.own .look)
  | .wakeup w => wakeupStmt st (fun w => .own (.wakeup w)) (.own .idle) w
  | .lockNext td => .acquire (.td td) (.own (.removeNext td))
  | .removeNext td => .write { st with runq := st.runq.erase td } (.own (.exitRunq td))
  | .exitRunq td => .release .runq (.own (.enter td))
  | .enter td =>
    .write ((st.setStatus td .running).setRunning c (some td)) (.thread td (st.ctx td).ctl)

def stmt (cl : Client T X Ch L G E) (s : State C T X Ch L G) (c : C) (e : E) : Stmt C T X Ch L G :=
  match s.pos c with
  | .thread t k => threadStmt cl s.store t e k
  | .own o => ownStmt cl s.locks s.store c e o

def State.goto (s : State C T X Ch L G) (c : C) (p : Pos T X Ch L) : State C T X Ch L G :=
  { s with pos := update s.pos c p }

def State.halt (s : State C T X Ch L G) (c : C) (w : Stop) : State C T X Ch L G :=
  { s with stop := update s.stop c (some w) }

def exec (s : State C T X Ch L G) (c : C) : Stmt C T X Ch L G → State C T X Ch L G
  | .acquire x next =>
    match s.locks.acquire Lock.recurse c x with
    | .done k => { s with locks := k }.goto c next
    | .busy => s
    | .error => s.halt c .panic
  | .attempt x next other =>
    match s.locks.acquire Lock.recurse c x with
    | .done k => { s with locks := k }.goto c next
    | .busy => s.goto c other
    | .error => s.halt c .panic
  | .release x next =>
    match s.locks.release c x with
    | .done k => { s with locks := k }.goto c next
    | _ => s.halt c .panic
  | .write st next => { s with store := st }.goto c next
  | .stop w => s.halt c w
  | .rest => s

def step (cl : Client T X Ch L G E) (s : State C T X Ch L G) (ev : C × E) : State C T X Ch L G :=
  if s.stop ev.1 = none then exec s ev.1 (stmt cl s ev.1 ev.2) else s

def run (cl : Client T X Ch L G E) (s : State C T X Ch L G) (evs : List (C × E)) : State C T X Ch L G :=
  evs.foldl (step cl) s

def start (cl : Client T X Ch L G E) (glob : G) (created free : List T) : State C T X Ch L G where
  pos _ := .own .boot
  locks := ⟨fun _ => none, fun _ => 0, fun _ => 0⟩
  store :=
    { status := fun t => if t ∈ created then .runnable else .unused
      wchan := fun _ => none
      ctx := fun _ => .resumed cl.entry
      runq := created
      sleepq := []
      freeq := free
      running := fun _ => none
      idle := fun _ => false
      glob := glob }
  stop _ := none

end FarmOS.Proc

import FarmOS.Net.Socket

/-! Any number of threads that read and write on the two ends `a` and `b` of a stream, critical section by critical
section. The locks of the states are left out: their flags do not change here. -/

namespace FarmOS.Net.Stream

open Lib Function
open Fs.PipeDev (WriteReq Chunk Finished readOut writeLength writeAddrs)

def epipe : BitVec 32 := -32

inductive Job
  | write (l t call : ℕ) (req : WriteReq) (i : BitVec 32)
  | read (l : ℕ) (n : BitVec 64)

def Job.target : Job → ℕ
  | .write _ t _ _ _ => t
  | .read l _ => l

inductive Phase
  | idle
  | opening (l : ℕ) (n : BitVec 64)
  | entering (l call : ℕ) (req : WriteReq)
  | scanning (l k call : ℕ) (req : WriteReq)
  | ready (job : Job)
  | running (job : Job)
  | asleep (job : Job)

structure State (T : Type*) where
  sockets : ℕ → Socket
  holder : ℕ → Option T
  phase : T → Phase
  calls : ℕ → ℕ
  chunks : ℕ → List Chunk
  reads : ℕ → List (List UInt8)
  finished : ℕ → List Finished

inductive Event (T : Type*)
  | callWrite (t : T) (l : ℕ) (req : WriteReq)
  | callRead (t : T) (l : ℕ) (n : BitVec 64)
  | enter (t : T)
  | scan (t : T)
  | acquire (t : T)
  | advance (t : T)
  | wake (t : T)
  | other (i : ℕ) (s : Socket)

def State.init {T : Type*} (sockets : ℕ → Socket) : State T where
  sockets := sockets
  holder := fun _ => none
  phase := fun _ => .idle
  calls := fun _ => 0
  chunks := fun _ => []
  reads := fun _ => []
  finished := fun _ => []

variable {T : Type*} [DecidableEq T]

namespace State

def setPhase (s : State T) (th : T) (ph : Phase) : State T := { s with phase := update s.phase th ph }

def setHolder (s : State T) (i : ℕ) (o : Option T) : State T := { s with holder := update s.holder i o }

def setSocket (s : State T) (i : ℕ) (k : Socket) : State T := { s with sockets := update s.sockets i k }

def returns (s : State T) (th : T) (l call : ℕ) (r : WriteReq) (ret : BitVec 32) : State T :=
  { s.setPhase th .idle with finished := update s.finished l (s.finished l ++ [⟨call, r, ret⟩]) }

def sleep (s : State T) (th : T) (j : Job) : State T := (s.setPhase th (.asleep j)).setHolder j.target none

end State

def enter (s : State T) (th : T) (l call : ℕ) (r : WriteReq) : State T :=
  if (s.sockets l).selfWriteClose then s.returns th l call r epipe else s.setPhase th (.scanning l 0 call r)

-- `remote_find_peer_socket`, one socket at a time; the lock of the one found stays taken.
def scan (s : State T) (th : T) (l k call : ℕ) (r : WriteReq) : State T :=
  if l ≠ k ∧ (s.sockets k).peerOf (s.sockets l) then
    if (s.sockets k).selfReadClose then (s.returns th l call r epipe).setHolder k (some th)
    else (s.setPhase th (.running (.write l k call r 0))).setHolder k (some th)
  else s.setPhase th (.scanning l (k + 1) call r)

def advanceWrite (s : State T) (th : T) (l t call : ℕ) (r : WriteReq) (i : BitVec 32) : State T :=
  if (i.signExtend 64).ult r.n then
    if (s.sockets l).isClose then (s.returns th l call r (if i = 0 then epipe else i)).setHolder t none
    else if (s.sockets t).selfReadClose then (s.returns th l call r i).setHolder t none
    else if (s.sockets t).full then s.sleep th (.write l t call r i)
    else
      let p := (s.sockets t).ring
      { (s.setPhase th (.running (.write l t call r (i + (writeLength p r).setWidth 32)))).setSocket t
          ((s.sockets t).put r i) with
        chunks := update s.chunks l (s.chunks l ++ [⟨call, r, i, p.leftSize.toNat, writeAddrs p r i⟩]) }
  else (s.returns th l call r i).setHolder t none

def advanceRead (s : State T) (th : T) (l : ℕ) (n : BitVec 64) : State T :=
  if (s.sockets l).empty ∧ !(s.sockets l).isClose ∧ !(s.sockets l).oppositeWriteClose then s.sleep th (.read l n)
  else
    { ((s.setPhase th .idle).setHolder l none).setSocket l ((s.sockets l).get n) with
      reads := update s.reads l (s.reads l ++ [readOut (s.sockets l).ring n]) }

def beginRead (s : State T) (th : T) (l : ℕ) (n : BitVec 64) : State T :=
  if (s.sockets l).selfReadClose then s.setPhase th .idle
  else (s.setPhase th (.running (.read l n))).setHolder l (some th)

def next (a b : ℕ) (s : State T) : Event T → Option (State T)
  | .callWrite th l r =>
    match s.phase th with
    | .idle =>
      if l = a ∨ l = b then
        some { s.setPhase th (.entering l (s.calls l) r) with
          calls := update s.calls l (s.calls l + 1) }
      else none
    | _ => none
  | .callRead th l n =>
    match s.phase th with
    | .idle => if l = a ∨ l = b then some (s.setPhase th (.opening l n)) else none
    | _ => none
  | .enter th =>
    match s.phase th with
    | .entering l call r => if s.holder l = none then some (enter s th l call r) else none
    | .opening l n => if s.holder l = none then some (beginRead s th l n) else none
    | _ => none
  | .scan th =>
    match s.phase th with
    | .scanning l k call r =>
      if k < socketCount then
        if s.holder k = none then some (scan s th l k call r) else none
      else some (s.returns th l call r epipe)
    | _ => none
  | .acquire th =>
    match s.phase th with
    | .ready j =>
      if s.holder j.target = none then some ((s.setPhase th (.running j)).setHolder j.target (some th)) else none
    | _ => none
  | .advance th =>
    match s.phase th with
    | .running (.write l t call r i) => some (advanceWrite s th l t call r i)
    | .running (.read l n) => some (advanceRead s th l n)
    | _ => none
  | .wake th =>
    match s.phase th with
    | .asleep j => some (s.setPhase th (.ready j))
    | _ => none
  -- The other sockets change at will but match neither of the two.
  | .other i k =>
    if i ≠ a ∧ i ≠ b ∧ !k.peerOf (s.sockets a) ∧ !k.peerOf (s.sockets b) then some (s.setSocket i k) else none

def Step (a b : ℕ) (s : State T) (e : Event T) (s' : State T) : Prop := next a b s e = some s'

def State.appended (s : State T) (l : ℕ) : List UInt8 := (s.chunks l).flatMap Chunk.bytes

def State.returned (s : State T) (l : ℕ) : List UInt8 := (s.reads l).flatten

def State.chunksOf (s : State T) (l call : ℕ) : List Chunk := (s.chunks l).filter (·.call = call)

end FarmOS.Net.Stream

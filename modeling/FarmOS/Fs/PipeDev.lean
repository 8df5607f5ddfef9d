import FarmOS.Lib.Run
import FarmOS.Lib.Mem

/-! The pipe of `kern/fs/fd/pipe.c` under any number of readers and writers. -/

namespace FarmOS.Fs.PipeDev

open Lib

def pageSize : ℕ := 4096
def pipeBufSize : ℕ := pageSize * 32

structure Pipe where
  pipeReadPos : BitVec 64
  pipeWritePos : BitVec 64
  pipeBuf : ℕ → UInt8

structure WriteReq where
  mem : BitVec 64 → UInt8
  buf : BitVec 64
  n : BitVec 64

structure Chunk where
  call : ℕ
  req : WriteReq
  i : BitVec 32
  left : ℕ
  addrs : List (BitVec 64)

def Chunk.bytes (c : Chunk) : List UInt8 := c.addrs.map c.req.mem

def copyIn (va : BitVec 64) (len : ℕ) : List (BitVec 64) :=
  (List.range len).map fun j => va + BitVec.ofNat 64 j

def Pipe.used (p : Pipe) : BitVec 64 := p.pipeWritePos - p.pipeReadPos

def Pipe.leftSize (p : Pipe) : BitVec 64 := BitVec.ofNat 64 pipeBufSize - p.used

def writeLength (p : Pipe) (r : WriteReq) : BitVec 64 :=
  if p.leftSize.ult r.n then p.leftSize else r.n

def writeAddrs (p : Pipe) (r : WriteReq) (i : BitVec 32) : List (BitVec 64) :=
  let writeBegin := p.pipeWritePos.toNat % pipeBufSize
  let writeEnd := (p.pipeWritePos + writeLength p r).toNat % pipeBufSize
  let src := r.buf + i.signExtend 64
  if writeBegin < writeEnd then copyIn src (writeLength p r).toNat
  else copyIn src (pipeBufSize - writeBegin) ++
    copyIn (src + BitVec.ofNat 64 (pipeBufSize - writeBegin)) writeEnd

def writeBuf (p : Pipe) (r : WriteReq) (i : BitVec 32) : ℕ → UInt8 :=
  let writeBegin := p.pipeWritePos.toNat % pipeBufSize
  let writeEnd := (p.pipeWritePos + writeLength p r).toNat % pipeBufSize
  let src := r.buf + i.signExtend 64
  if writeBegin < writeEnd then
    blit p.pipeBuf writeBegin ((copyIn src (writeLength p r).toNat).map r.mem)
  else
    blit (blit p.pipeBuf writeBegin ((copyIn src (pipeBufSize - writeBegin)).map r.mem)) 0
      ((copyIn (src + BitVec.ofNat 64 (pipeBufSize - writeBegin)) writeEnd).map r.mem)

def Pipe.write (p : Pipe) (r : WriteReq) (i : BitVec 32) : Pipe where
  pipeReadPos := p.pipeReadPos
  pipeWritePos := p.pipeWritePos + writeLength p r
  pipeBuf := writeBuf p r i

def readSize (p : Pipe) (n : BitVec 64) : BitVec 64 := if n.ult p.used then n else p.used

def readOut (p : Pipe) (n : BitVec 64) : List UInt8 :=
  let readBegin := p.pipeReadPos.toNat % pipeBufSize
  let readEnd := (p.pipeReadPos + readSize p n).toNat % pipeBufSize
  if readSize p n ≠ 0 then
    if readBegin < readEnd then slice p.pipeBuf readBegin (readSize p n).toNat
    else slice p.pipeBuf readBegin (pipeBufSize - readBegin) ++ slice p.pipeBuf 0 readEnd
  else []

inductive Job
  | write (call : ℕ) (req : WriteReq) (i : BitVec 32)
  | read (n : BitVec 64)

inductive Phase
  | idle
  | ready (job : Job)
  | running (job : Job)
  | asleep (job : Job)

def Phase.job? : Phase → Option Job
  | .idle => none
  | .ready j | .running j | .asleep j => some j

structure Finished where
  call : ℕ
  req : WriteReq
  ret : BitVec 32

structure State (T : Type*) where
  pipe : Pipe
  holder : Option T
  phase : T → Phase
  calls : ℕ
  chunks : List Chunk
  reads : List (List UInt8)
  finished : List Finished

inductive Event (T : Type*)
  | callWrite (t : T) (req : WriteReq)
  | callRead (t : T) (n : BitVec 64)
  | acquire (t : T)
  | advance (t : T)
  | wake (t : T)

variable {T : Type*} [DecidableEq T]

def State.init (buf : ℕ → UInt8) : State T where
  pipe := ⟨0, 0, buf⟩
  holder := none
  phase := fun _ => .idle
  calls := 0
  chunks := []
  reads := []
  finished := []

def State.setPhase (s : State T) (t : T) (ph : Phase) : State T :=
  { s with phase := Function.update s.phase t ph }

def State.unlock (s : State T) : State T := { s with holder := none }

def advanceWrite (s : State T) (t : T) (c : ℕ) (r : WriteReq) (i : BitVec 32) : State T :=
  if (i.signExtend 64).ult r.n then
    if s.pipe.used = BitVec.ofNat 64 pipeBufSize then (s.setPhase t (.asleep (.write c r i))).unlock
    else
      { s.setPhase t (.running (.write c r (i + (writeLength s.pipe r).setWidth 32))) with
        pipe := s.pipe.write r i
        chunks := s.chunks ++ [⟨c, r, i, s.pipe.leftSize.toNat, writeAddrs s.pipe r i⟩] }
  else { (s.setPhase t .idle).unlock with finished := s.finished ++ [⟨c, r, i⟩] }

def advanceRead (s : State T) (t : T) (n : BitVec 64) : State T :=
  if s.pipe.pipeReadPos = s.pipe.pipeWritePos then (s.setPhase t (.asleep (.read n))).unlock
  else
    { (s.setPhase t .idle).unlock with
      pipe := { s.pipe with pipeReadPos := s.pipe.pipeReadPos + readSize s.pipe n }
      reads := s.reads ++ [readOut s.pipe n] }

def next (s : State T) : Event T → Option (State T)
  | .callWrite t r =>
    match s.phase t with
    | .idle => some { s.setPhase t (.ready (.write s.calls r 0)) with calls := s.calls + 1 }
    | _ => none
  | .callRead t n =>
    match s.phase t with
    | .idle => some (s.setPhase t (.ready (.read n)))
    | _ => none
  | .acquire t =>
    match s.phase t, s.holder with
    | .ready j, none => some { s.setPhase t (.running j) with holder := some t }
    | _, _ => none
  | .advance t =>
    match s.phase t with
    | .running (.write c r i) => some (advanceWrite s t c r i)
    | .running (.read n) => some (advanceRead s t n)
    | _ => none
  | .wake t =>
    match s.phase t with
    | .asleep j => some (s.setPhase t (.ready j))
    | _ => none

def Step (s : State T) (e : Event T) (s' : State T) : Prop := next s e = some s'

def State.appended (s : State T) : List UInt8 := s.chunks.flatMap Chunk.bytes

def State.returned (s : State T) : List UInt8 := s.reads.flatten

def State.chunksOf (s : State T) (c : ℕ) : List Chunk := s.chunks.filter (·.call = c)

end FarmOS.Fs.PipeDev

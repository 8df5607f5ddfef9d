import FarmOS.Fs.PipeDev

/-! The socket record of `kern/fs/socket.c` and what its critical sections do to it. The ring of a stream socket is
that of a pipe. -/

namespace FarmOS.Net

open Fs.PipeDev (Pipe WriteReq)

def socketCount : ℕ := 128
def pendingCount : ℕ := 128
@[irreducible] def messageCount : ℕ := 512

def sockStream : BitVec 32 := 1
def sockDgram : BitVec 32 := 2
def socketTypeMask : BitVec 32 := 0xf

def sockIsUdp (type : BitVec 32) : Bool := type &&& socketTypeMask = sockDgram

structure SocketAddr where
  family : BitVec 16
  port : BitVec 16
  addr : BitVec 32
deriving DecidableEq

def SocketAddr.zero : SocketAddr := ⟨0, 0, 0⟩

structure Message where
  family : BitVec 16
  port : BitVec 16
  addr : BitVec 32
  bufferAddr : ℕ
  length : BitVec 64

-- `buffer` is what `bufferAddr` points to, and `messages` holds indices into the table of messages.
structure Socket where
  used : Bool
  type : BitVec 32
  addr : SocketAddr
  targetAddr : SocketAddr
  socketReadPos : BitVec 64
  socketWritePos : BitVec 64
  waitingQueue : ℤ → SocketAddr
  waitingH : BitVec 32
  waitingT : BitVec 32
  listening : Bool
  buffer : ℕ → UInt8
  isClose : Bool
  oppositeWriteClose : Bool
  tid : BitVec 64
  selfReadClose : Bool
  selfWriteClose : Bool
  messages : List ℕ
  udpIsConnect : Bool
  opposite : ℤ

def Socket.zero : Socket where
  used := false
  type := 0
  addr := .zero
  targetAddr := .zero
  socketReadPos := 0
  socketWritePos := 0
  waitingQueue := fun _ => .zero
  waitingH := 0
  waitingT := 0
  listening := false
  buffer := fun _ => 0
  isClose := false
  oppositeWriteClose := false
  tid := 0
  selfReadClose := false
  selfWriteClose := false
  messages := []
  udpIsConnect := false
  opposite := 0

-- The indices of the ring of requests are C's `%` on `int`.
def slot (k : BitVec 32) : ℤ := k.toInt.tmod pendingCount

namespace Socket

def ring (s : Socket) : Pipe := ⟨s.socketReadPos, s.socketWritePos, s.buffer⟩

def full (s : Socket) : Bool := s.socketWritePos - s.socketReadPos = BitVec.ofNat 64 Fs.PipeDev.pipeBufSize

def empty (s : Socket) : Bool := s.socketReadPos = s.socketWritePos

def put (s : Socket) (r : WriteReq) (i : BitVec 32) : Socket :=
  { s with socketWritePos := (s.ring.write r i).pipeWritePos, buffer := (s.ring.write r i).pipeBuf }

def get (s : Socket) (n : BitVec 64) : Socket :=
  { s with socketReadPos := s.socketReadPos + Fs.PipeDev.readSize s.ring n }

def pendingFull (s : Socket) : Bool := s.waitingT - s.waitingH = BitVec.ofNat 32 pendingCount

def pendingEmpty (s : Socket) : Bool := s.waitingH = s.waitingT

def pend (s : Socket) (a : SocketAddr) : Socket :=
  { s with
    waitingQueue := Function.update s.waitingQueue (slot s.waitingT) a
    waitingT := s.waitingT + 1 }

def nextPending (s : Socket) : SocketAddr := s.waitingQueue (slot s.waitingH)

def unpend (s : Socket) : Socket := { s with waitingH := s.waitingH + 1 }

def pendedSlot (s : Socket) : ℤ := slot (s.waitingT - 1 + BitVec.ofNat 32 pendingCount)

def unpendedSlot (s : Socket) : ℤ := slot (s.waitingH - 1 + BitVec.ofNat 32 pendingCount)

def create (s : Socket) (domain : BitVec 16) (type : BitVec 32) (tid : BitVec 64) (buffer : ℕ → UInt8) : Socket :=
  { s with
    used := true
    addr := { s.addr with family := domain }
    type := type &&& socketTypeMask
    targetAddr := .zero
    waitingH := 0
    waitingT := 0
    buffer := buffer
    tid := tid
    udpIsConnect := false
    opposite := -1
    selfReadClose := false
    selfWriteClose := false
    messages := []
    isClose := false
    oppositeWriteClose := false }

def clear (s : Socket) : Socket :=
  { s with
    used := false
    socketReadPos := 0
    socketWritePos := 0
    listening := false
    waitingH := 0
    waitingT := 0
    type := 0
    addr := .zero
    targetAddr := .zero
    waitingQueue := fun k => if 0 ≤ k ∧ k < pendingCount then .zero else s.waitingQueue k }

def bound (s : Socket) (a : SocketAddr) : Socket :=
  if s.addr.family = a.family then { s with addr := { s.addr with addr := a.addr, port := a.port } } else s

-- The searches go over the whole table: what `find_listening_socket`, `remote_find_peer_socket` and the two searches
-- for datagram sockets ask of a socket.
def listensAt (s : Socket) (a : SocketAddr) (type : BitVec 32) : Bool :=
  s.used && s.type &&& socketTypeMask = type && s.addr.port = a.port && s.listening

def peerOf (s local_ : Socket) : Bool :=
  s.used && s.addr.port = local_.targetAddr.port && s.targetAddr.port = local_.addr.port

def datagramAt (s : Socket) (a : SocketAddr) (type : BitVec 32) (self : ℕ) : Bool :=
  s.used && s.type = type && s.addr.port = a.port && (!s.udpIsConnect || s.opposite = self)

end Socket

def genLocalSocketAddr (localPort : BitVec 32) (a : SocketAddr) : SocketAddr :=
  { a with addr := BitVec.ofNat 32 (127 * 2 ^ 24 + 1), port := localPort.setWidth 16 }

end FarmOS.Net

import FarmOS.Net.Writers
import FarmOS.Net.Socket

/-! The calls on sockets that make, use and end stream connections, over the whole table. The ring of requests of a
listening socket is the queue that it was shown to be. -/

namespace FarmOS.Net.Peers

open Lib Ports Function
open Fs.PipeDev (WriteReq writeLength)

structure Write where
  source : ℕ
  sink : ℕ
  socket : ℕ
  req : WriteReq
  i : BitVec 32

structure State where
  sockets : ℕ → Socket
  localPort : BitVec 32
  pending : ℕ → List (SocketAddr × ℕ)
  writers : ℕ → Option Write
  writes : ℕ
  role : ℕ → Role
  born : ℕ → ℕ
  births : ℕ
  joined : List (ℕ × ℕ)
  appended : List (ℕ × ℕ)

inductive Event
  | socket (domain : BitVec 16) (type : BitVec 32) (tid : BitVec 64) (buffer : ℕ → UInt8)
  | bind (i : ℕ) (a : SocketAddr)
  | listen (i : ℕ)
  | connect (i : ℕ) (a : SocketAddr)
  | accept (i : ℕ) (tid : BitVec 64) (buffer : ℕ → UInt8)
  | write (i : ℕ) (r : WriteReq)
  | chunk (k : ℕ)
  | read (i : ℕ) (n : BitVec 64)
  | close (i : ℕ)

def State.init : State where
  sockets := fun _ => .zero
  localPort := 10000
  pending := fun _ => []
  writers := fun _ => none
  writes := 0
  role := fun _ => .plain
  born := fun _ => 0
  births := 0
  joined := []
  appended := []

namespace State

def setSocket (s : State) (i : ℕ) (k : Socket) : State := { s with sockets := update s.sockets i k }

def setWriter (s : State) (k : ℕ) (w : Option Write) : State := { s with writers := update s.writers k w }

def findFree (s : State) : Option ℕ := (List.range socketCount).find? fun k => !(s.sockets k).used

def findListening (s : State) (a : SocketAddr) (type : BitVec 32) : Option ℕ :=
  (List.range socketCount).find? fun k => (s.sockets k).listensAt a type

def findDatagram (s : State) (a : SocketAddr) (type : BitVec 32) (self : ℕ) : Option ℕ :=
  (List.range socketCount).find? fun k => (s.sockets k).datagramAt a type self

def findPeer (s : State) (l : ℕ) : Option ℕ :=
  (List.range socketCount).find? fun k => l ≠ k && (s.sockets k).peerOf (s.sockets l)

def create (s : State) (i : ℕ) (domain : BitVec 16) (type : BitVec 32) (tid : BitVec 64) (buffer : ℕ → UInt8) :
    State :=
  { s.setSocket i ((s.sockets i).create domain type tid buffer) with
    pending := update s.pending i []
    role := update s.role i .plain
    born := update s.born i s.births
    births := s.births + 1 }

def name (s : State) (i : ℕ) : State :=
  if (s.sockets i).addr.port = 0 then
    { s.setSocket i { s.sockets i with addr := genLocalSocketAddr s.localPort (s.sockets i).addr } with
      localPort := s.localPort + 1 }
  else s

def aim (s : State) (i : ℕ) (a : SocketAddr) : State := s.setSocket i { s.sockets i with targetAddr := a }

def request (s : State) (i j : ℕ) : State :=
  { s with
    pending := update s.pending j (s.pending j ++ [((s.sockets i).addr, s.born i)])
    role := update s.role i .client }

def welcome (s : State) (i n : ℕ) (a : SocketAddr) (w : ℕ) (rest : List (SocketAddr × ℕ)) : State :=
  { s.setSocket n { s.sockets n with addr := (s.sockets i).addr, targetAddr := a } with
    pending := update s.pending i rest
    role := update s.role n (.accepted w)
    joined := s.joined ++ [(w, s.born n)] }

def append (s : State) (k : ℕ) (w : Write) : State :=
  let length := (writeLength (s.sockets w.sink).ring w.req).setWidth 32
  { (s.setSocket w.sink ((s.sockets w.sink).put w.req w.i)).setWriter k (some { w with i := w.i + length }) with
    appended := s.appended ++ [(w.socket, s.born w.sink)] }

def tell (s : State) (j : ℕ) : State := s.setSocket j { s.sockets j with isClose := true }

def free (s : State) (i : ℕ) : State :=
  { s.setSocket i { (s.sockets i).clear with isClose := false } with pending := update s.pending i [] }

end State

def socket (s : State) (domain : BitVec 16) (type : BitVec 32) (tid : BitVec 64) (buffer : ℕ → UInt8) : State :=
  match s.findFree with
  | some i => s.create i domain type tid buffer
  | none => s

def listen (s : State) (i : ℕ) : State :=
  { s.setSocket i { s.sockets i with listening := true } with
    role := update s.role i (if s.role i = .plain then .listener else s.role i) }

def connectDatagram (s : State) (i : ℕ) (a : SocketAddr) : State :=
  let s' := { s with role := update s.role i .datagram }
  match s.findDatagram a ((s.sockets i).type &&& socketTypeMask) i with
  | some j => s'.setSocket i { s.sockets i with udpIsConnect := true, opposite := j }
  | none => s'

def connectStream (s : State) (i : ℕ) (a : SocketAddr) : State :=
  match s.findListening a ((s.sockets i).type &&& socketTypeMask) with
  | some j => if (s.pending j).length = pendingCount then s else s.request i j
  | none => s

def connect (s : State) (i : ℕ) (a : SocketAddr) : State :=
  let s' := (s.name i).aim i a
  if sockIsUdp (s.sockets i).type then connectDatagram s' i a else connectStream s' i a

def accept (s : State) (i : ℕ) (tid : BitVec 64) (buffer : ℕ → UInt8) : State :=
  match s.pending i, s.findFree with
  | (a, w) :: rest, some n =>
    (s.create n (s.sockets i).addr.family (s.sockets i).type tid buffer).welcome i n a w rest
  | _, _ => s

def write (s : State) (i : ℕ) (r : WriteReq) : State :=
  if sockIsUdp (s.sockets i).type ∨ (s.sockets i).selfWriteClose then s
  else
    match s.findPeer i with
    | some j =>
      if (s.sockets j).selfReadClose then s
      else { s.setWriter s.writes (some ⟨i, j, s.born i, r, 0⟩) with writes := s.writes + 1 }
    | none => s

def chunk (s : State) (k : ℕ) : State :=
  match s.writers k with
  | some w =>
    if (w.i.signExtend 64).ult w.req.n then
      if (s.sockets w.source).isClose ∨ (s.sockets w.sink).selfReadClose then s.setWriter k none
      else if (s.sockets w.sink).full then s
      else s.append k w
    else s.setWriter k none
  | none => s

def close (s : State) (i : ℕ) : State :=
  match s.findPeer i with
  | some j => (s.tell j).free i
  | none => s.free i

def step (s : State) : Event → State
  | .socket domain type tid buffer => socket s domain type tid buffer
  | .bind i a => if (s.sockets i).used then s.setSocket i ((s.sockets i).bound a) else s
  | .listen i => if (s.sockets i).used then listen s i else s
  | .connect i a => if (s.sockets i).used then connect s i a else s
  | .accept i tid buffer => if (s.sockets i).used then accept s i tid buffer else s
  | .write i r => if (s.sockets i).used then write s i r else s
  | .chunk k => chunk s k
  | .read i n => if (s.sockets i).used then s.setSocket i ((s.sockets i).get n) else s
  | .close i => if (s.sockets i).used then close s i else s

def State.book (s : State) : Book ℕ (BitVec 16) where
  used i := (s.sockets i).used
  port i := (s.sockets i).addr.port
  target i := (s.sockets i).targetAddr.port
  listening i := (s.sockets i).listening
  udp i := sockIsUdp (s.sockets i).type
  closed i := (s.sockets i).isClose
  writers k := (s.writers k).map fun w => ⟨w.source, w.sink, w.socket⟩
  role := s.role
  born := s.born
  births := s.births
  pending i := (s.pending i).map fun q => (q.1.port, q.2)
  joined := s.joined
  appended := s.appended

namespace State

variable {s : State} {i j : ℕ} {tid : BitVec 64} {buffer : ℕ → UInt8} {a : SocketAddr}

lemma sockets_setSocket (k : Socket) : (s.setSocket i k).sockets i = k := update_self ..

lemma sockets_setSocket_ne (k : Socket) (h : j ≠ i) : (s.setSocket i k).sockets j = s.sockets j :=
  update_of_ne h ..

lemma book_init : init.book = .empty := by
  apply Book.ext <;> try rfl
  have hz : sockIsUdp 0#32 = false := by decide
  funext l
  simp [book, init, Book.empty, Socket.zero, hz]

lemma book_setSocket {k : Socket} (hu : k.used = (s.sockets i).used) (hp : k.addr.port = (s.sockets i).addr.port)
    (ht : k.targetAddr.port = (s.sockets i).targetAddr.port) (hl : k.listening = (s.sockets i).listening)
    (hy : k.type = (s.sockets i).type) (hc : k.isClose = (s.sockets i).isClose) :
    (s.setSocket i k).book = s.book := by
  apply Book.ext <;> try rfl
  all_goals
    funext l
    by_cases h : l = i <;> simp [book, setSocket, h, hu, hp, ht, hl, hy, hc]

lemma book_create {domain : BitVec 16} {type : BitVec 32}
    (hp : (s.sockets i).addr.port = 0) (hl : (s.sockets i).listening = false) :
    (s.create i domain type tid buffer).book = s.book.create i (sockIsUdp (type &&& socketTypeMask)) := by
  apply Book.ext <;> try rfl
  all_goals
    funext l
    by_cases h : l = i <;> simp [book, create, setSocket, Book.create, h, Socket.create, hp, hl, SocketAddr.zero]

lemma book_setPort : (s.setSocket i { s.sockets i with addr := a }).book = s.book.name i a.port := by
  apply Book.ext <;> try rfl
  all_goals
    funext l
    by_cases h : l = i <;> simp [book, setSocket, Book.name, h]

lemma book_listen : (listen s i).book = s.book.listen i := by
  apply Book.ext <;> try rfl
  all_goals
    funext l
    by_cases h : l = i <;> simp [book, listen, setSocket, Book.listen, h]

lemma book_aim : { s.aim i a with role := update s.role i .datagram }.book = s.book.aim i a.port := by
  apply Book.ext <;> try rfl
  all_goals
    funext l
    by_cases h : l = i <;> simp [book, aim, setSocket, Book.aim, h]

lemma book_request (ha : (s.sockets j).addr.port = a.port) :
    ((s.aim i a).request i j).book = s.book.connect i j := by
  apply Book.ext <;> try rfl
  case pending =>
    funext l
    by_cases h : l = j <;> simp [book, aim, request, setSocket, Book.connect, h]
  all_goals
    funext l
    by_cases h : l = i <;> simp [book, aim, request, setSocket, Book.connect, h, ha]

lemma book_welcome {n : ℕ} {w : ℕ} {rest : List (SocketAddr × ℕ)}
    (hn : i ≠ n) (hl : (s.sockets n).listening = false) :
    ((s.create n (s.sockets i).addr.family (s.sockets i).type tid buffer).welcome i n a w rest).book =
      s.book.accept i n a.port w (rest.map fun q => (q.1.port, q.2)) := by
  apply Book.ext <;> try rfl
  case pending =>
    funext l
    by_cases h : l = n
    · simp [book, create, welcome, setSocket, Book.accept, h, hn.symm]
    · by_cases h' : l = i <;> simp [book, create, welcome, setSocket, Book.accept, h, h', hn]
  case joined => simp [book, create, welcome, setSocket, Book.accept]
  all_goals
    funext l
    by_cases h : l = n <;>
      simp [book, create, welcome, setSocket, Book.accept, h, hn, hl, Socket.create, sockIsUdp, BitVec.and_assoc]

lemma book_tell : (s.tell j).book = s.book.tell j := by
  apply Book.ext <;> try rfl
  all_goals
    funext l
    by_cases h : l = j <;> simp [book, tell, setSocket, Book.tell, h]

lemma book_free : (s.free i).book = s.book.close i := by
  have hz : sockIsUdp 0#32 = false := by decide
  apply Book.ext <;> try rfl
  all_goals
    funext l
    by_cases h : l = i <;> simp [book, free, setSocket, Book.close, h, Socket.clear, SocketAddr.zero, hz]

lemma book_write {r : WriteReq} :
    { s.setWriter s.writes (some ⟨i, j, s.born i, r, 0⟩) with writes := s.writes + 1 }.book =
      s.book.write s.writes i j := by
  apply Book.ext <;> try rfl
  funext l
  by_cases h : l = s.writes <;> simp [book, setWriter, Book.write, h]

lemma book_stop {k : ℕ} : (s.setWriter k none).book = s.book.stop k := by
  apply Book.ext <;> try rfl
  funext l
  by_cases h : l = k <;> simp [book, setWriter, Book.stop, h]

lemma book_append {k : ℕ} {w : Write} (hw : s.writers k = some w) :
    (s.append k w).book = s.book.append ⟨w.source, w.sink, w.socket⟩ := by
  apply Book.ext <;> try rfl
  case writers =>
    funext l
    by_cases h : l = k <;> simp [book, append, setWriter, setSocket, Book.append, h, hw]
  all_goals
    funext l
    by_cases h : l = w.sink <;> simp [book, append, setWriter, setSocket, Book.append, h, Socket.put]

end State

end FarmOS.Net.Peers

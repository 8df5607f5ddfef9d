import FarmOS.Net.Socket

/-! Datagrams: any number of threads in `sendto`, `recvfrom`, `socket` and `close`, critical section by critical
section, with the table of messages, its free list and the pages of their buffers. -/

namespace FarmOS.Net.Udp

open Lib Function

def pageSize : ℕ := 4096

structure Request where
  l : ℕ
  type : BitVec 32
  dst : SocketAddr
  data : List UInt8

structure Target where
  slot : ℕ
  sock : ℕ
  port : BitVec 16

structure Ask where
  l : ℕ
  sock : ℕ
  len : ℕ
  port : Option (BitVec 16)

inductive Phase
  | idle
  | seeking (r : Request) (k : ℕ)
  | sending (r : Request) (g : Target)
  | holding (r : Request) (g : Target) (m : ℕ)
  | filled (g : Target) (m : ℕ)
  | receiving (a : Ask)
  | dozing (a : Ask)
  | freeing (m : ℕ)
  | creating (i : ℕ)
  | closing (i : ℕ)
  | draining (i m : ℕ)
  | closed (i : ℕ)

structure Datagram where
  dst : SocketAddr
  found : ℕ
  port : BitVec 16
  data : List UInt8

structure Receipt where
  datagram : Datagram
  len : ℕ
  bytes : List UInt8

-- `born` numbers the sockets that were made in a slot, `tag` says which datagram a record carries, and `queued` and
-- `taken` are what each socket ever got and gave out.
structure State (T : Type*) where
  sockets : ℕ → Socket
  bitmap : ℕ → Bool
  holder : ℕ → Option T
  message : ℕ → Message
  free : List ℕ
  mem : ℕ → UInt8
  pages : List ℕ
  phase : T → Phase
  born : ℕ → ℕ
  births : ℕ
  tag : ℕ → Datagram
  queued : ℕ → List Datagram
  taken : ℕ → List Receipt

inductive Event (T : Type*)
  | sendto (t : T) (l : ℕ) (dst : SocketAddr) (data : List UInt8)
  | seek (t : T)
  | alloc (t : T) (page : ℕ)
  | fill (t : T)
  | insert (t : T)
  | recvfrom (t : T) (l len : ℕ) (read : Bool)
  | receive (t : T)
  | release (t : T)
  | socket (t : T)
  | create (t : T) (domain : BitVec 16) (type : BitVec 32) (tid : BitVec 64) (buffer : ℕ → UInt8)
  | close (t : T) (i : ℕ)
  | drain (t : T)
  | unmap (t : T)
  | address (i : ℕ) (addr target : SocketAddr) (connected : Bool) (opposite : ℤ)

def State.init {T : Type*} (mem : ℕ → UInt8) : State T where
  sockets := fun _ => .zero
  bitmap := fun _ => false
  holder := fun _ => none
  message := fun _ => ⟨0, 0, 0, 0, 0⟩
  free := List.range messageCount
  mem := mem
  pages := []
  phase := fun _ => .idle
  born := fun _ => 0
  births := 0
  tag := fun _ => ⟨.zero, 0, 0, []⟩
  queued := fun _ => []
  taken := fun _ => []

def Phase.wakeup (i : ℕ) : Phase → Phase
  | .dozing a => if a.l = i then .receiving a else .dozing a
  | ph => ph

variable {T : Type*} [DecidableEq T]

namespace State

def setPhase (s : State T) (t : T) (ph : Phase) : State T := { s with phase := update s.phase t ph }

def setSocket (s : State T) (i : ℕ) (k : Socket) : State T := { s with sockets := update s.sockets i k }

def setQueue (s : State T) (i : ℕ) (q : List ℕ) : State T := s.setSocket i { s.sockets i with messages := q }

def wakeup (s : State T) (i : ℕ) : State T := { s with phase := fun u => (s.phase u).wakeup i }

def seek (s : State T) (t : T) (r : Request) (k : ℕ) : State T :=
  if k ≠ r.l ∧ (s.sockets k).datagramAt r.dst r.type r.l then
    s.setPhase t (.sending r ⟨k, s.born k, (s.sockets k).addr.port⟩)
  else s.setPhase t (.seeking r (k + 1))

def alloc (s : State T) (m : ℕ) (rest : List ℕ) (page : ℕ) : State T :=
  { s with
    free := rest
    message := update s.message m { s.message m with bufferAddr := page, length := 0 }
    pages := page :: s.pages }

def fill (s : State T) (r : Request) (g : Target) (m : ℕ) : State T :=
  let a := (s.sockets r.l).addr
  let data := r.data.take 65535
  { s with
    message := update s.message m
      { s.message m with family := a.family, port := a.port, addr := a.addr, length := BitVec.ofNat 64 data.length }
    mem := blit s.mem (pageSize * (s.message m).bufferAddr) data
    tag := update s.tag m ⟨r.dst, g.sock, g.port, data⟩ }

def insert (s : State T) (i m : ℕ) : State T :=
  { (s.setQueue i ((s.sockets i).messages ++ [m])).wakeup i with
    queued := update s.queued (s.born i) (s.queued (s.born i) ++ [s.tag m]) }

omit [DecidableEq T] in
lemma phase_insert {s : State T} {t : T} {g : Target} {m : ℕ} (hp : s.phase t = .filled g m) :
    (s.insert g.slot m).phase t = .filled g m := by
  simp only [insert, wakeup, setQueue, setSocket, hp, Phase.wakeup]

def pick (s : State T) (a : Ask) : Option ℕ :=
  match a.port with
  | none => (s.sockets a.l).messages.head?
  | some p => (s.sockets a.l).messages.find? fun m => (s.message m).port = p

def received (s : State T) (m len : ℕ) : List UInt8 :=
  slice s.mem (pageSize * (s.message m).bufferAddr) (min len (s.message m).length.toNat)

def receive (s : State T) (a : Ask) (m : ℕ) : State T :=
  { s.setQueue a.l ((s.sockets a.l).messages.erase m) with
    taken := update s.taken (s.born a.l)
      (s.taken (s.born a.l) ++ [⟨s.tag m, a.len, s.received m a.len⟩]) }

def messageFree (s : State T) (m : ℕ) : State T :=
  { s with
    message := update s.message m { s.message m with family := 0, port := 0, addr := 0, length := 0 }
    pages := s.pages.erase (s.message m).bufferAddr
    free := s.free ++ [m] }

def create (s : State T) (i : ℕ) (k : Socket) : State T :=
  { s.setSocket i k with
    born := update s.born i s.births
    births := s.births + 1 }

def shut (s : State T) (t : T) (i : ℕ) : State T :=
  { s.setSocket i (s.sockets i).clear with holder := update s.holder i (some t) }

def unlock (s : State T) (i : ℕ) : State T :=
  { s.setSocket i { s.sockets i with isClose := false } with holder := update s.holder i none }

def setMapped (s : State T) (i : ℕ) (b : Bool) : State T := { s with bitmap := update s.bitmap i b }

end State

-- A descriptor that `socket` cannot install is closed again: a `create` and a `close` of the same thread.
def next (s : State T) : Event T → Option (State T)
  | .sendto t l dst data =>
    match s.phase t with
    | .idle => some (s.setPhase t (.seeking ⟨l, (s.sockets l).type, dst, data⟩ 0))
    | _ => none
  | .seek t =>
    match s.phase t with
    | .seeking r k =>
      if k < socketCount then if s.holder k = none then some (s.seek t r k) else none
      else some (s.setPhase t .idle)
    | _ => none
  | .alloc t page =>
    match s.phase t, s.free with
    | .sending _ _, [] => some (s.setPhase t .idle)
    | .sending r g, m :: rest =>
      if page ∈ s.pages then none else some ((s.alloc m rest page).setPhase t (.holding r g m))
    | _, _ => none
  | .fill t =>
    match s.phase t with
    | .holding r g m => some ((s.fill r g m).setPhase t (.filled g m))
    | _ => none
  | .insert t =>
    match s.phase t with
    | .filled g m => if s.holder g.slot = none then some ((s.insert g.slot m).setPhase t .idle) else none
    | _ => none
  | .recvfrom t l len read =>
    match s.phase t with
    | .idle =>
      if (s.sockets l).used then
        some (s.setPhase t
          (.receiving ⟨l, s.born l, len, if read then some (s.sockets l).targetAddr.port else none⟩))
      else none
    | _ => none
  | .receive t =>
    match s.phase t with
    | .receiving a =>
      if s.holder a.l = none then
        match s.pick a with
        | none => some (s.setPhase t (.dozing a))
        | some m => some ((s.receive a m).setPhase t (.freeing m))
      else none
    | _ => none
  | .release t =>
    match s.phase t with
    | .freeing m => some ((s.messageFree m).setPhase t .idle)
    | .draining i m => some ((s.messageFree m).setPhase t (.closing i))
    | _ => none
  | .socket t =>
    match s.phase t, (List.range socketCount).find? fun i => !s.bitmap i with
    | .idle, some i => some ((s.setMapped i true).setPhase t (.creating i))
    | _, _ => none
  | .create t domain type tid buffer =>
    match s.phase t with
    | .creating i =>
      if s.holder i = none then
        some ((s.create i ((s.sockets i).create domain type tid buffer)).setPhase t .idle)
      else none
    | _ => none
  | .close t i =>
    match s.phase t with
    | .idle =>
      if (s.sockets i).used ∧ s.holder i = none then some ((s.shut t i).setPhase t (.closing i)) else none
    | _ => none
  | .drain t =>
    match s.phase t with
    | .closing i =>
      match (s.sockets i).messages with
      | [] => some ((s.unlock i).setPhase t (.closed i))
      | m :: ms => some ((s.setQueue i ms).setPhase t (.draining i m))
    | _ => none
  | .unmap t =>
    match s.phase t with
    | .closed i => some ((s.setMapped i false).setPhase t .idle)
    | _ => none
  | .address i addr target connected opposite =>
    if s.holder i = none then
      some (s.setSocket i
        { s.sockets i with
          addr := addr
          targetAddr := target
          udpIsConnect := connected
          opposite := opposite })
    else none

def Step (s : State T) (e : Event T) (s' : State T) : Prop := next s e = some s'

def Phase.uses (i : ℕ) : Phase → Bool
  | .sending _ g | .holding _ g _ | .filled g _ => g.slot = i
  | .receiving a | .dozing a => a.l = i
  | _ => false

def Phase.ask : Phase → Option Ask
  | .receiving a => some a
  | _ => none

-- A datagram fits a page, a socket is not closed while a call is about to use it, and a `read` does not pass over an
-- older message from another port.
def Orderly (s : State T) : Event T → Prop
  | .sendto _ _ _ data => data.length ≤ pageSize
  | .close _ i => ∀ u, (s.phase u).uses i = false
  | .receive t => ∀ a ∈ (s.phase t).ask, ∀ m ∈ s.pick a, (s.sockets a.l).messages.head? = some m
  | _ => True

inductive Effect (s : State T) : State T → Prop
  | call {t : T} {r : Request} : s.phase t = .idle → r.data.length ≤ pageSize → Effect s (s.setPhase t (.seeking r 0))
  | pass {t : T} {r : Request} {k : ℕ} : s.phase t = .seeking r k → Effect s (s.setPhase t (.seeking r (k + 1)))
  | found {t : T} {r : Request} {k : ℕ} : s.phase t = .seeking r k → (s.sockets k).datagramAt r.dst r.type r.l = true →
      Effect s (s.setPhase t (.sending r ⟨k, s.born k, (s.sockets k).addr.port⟩))
  | quit {t : T} {r : Request} {k : ℕ} : s.phase t = .seeking r k → Effect s (s.setPhase t .idle)
  | fail {t : T} {r : Request} {g : Target} : s.phase t = .sending r g → Effect s (s.setPhase t .idle)
  | alloc {t : T} {r : Request} {g : Target} {m page : ℕ} {rest : List ℕ} : s.phase t = .sending r g →
      s.free = m :: rest → page ∉ s.pages → Effect s ((s.alloc m rest page).setPhase t (.holding r g m))
  | fill {t : T} {r : Request} {g : Target} {m : ℕ} : s.phase t = .holding r g m →
      Effect s ((s.fill r g m).setPhase t (.filled g m))
  | insert {t : T} {g : Target} {m : ℕ} : s.phase t = .filled g m → s.holder g.slot = none →
      Effect s ((s.insert g.slot m).setPhase t .idle)
  | ask {t : T} {a : Ask} : s.phase t = .idle → (s.sockets a.l).used = true → a.sock = s.born a.l →
      Effect s (s.setPhase t (.receiving a))
  | doze {t : T} {a : Ask} : s.phase t = .receiving a → Effect s (s.setPhase t (.dozing a))
  | receive {t : T} {a : Ask} {m : ℕ} {ms : List ℕ} : s.phase t = .receiving a → (s.sockets a.l).messages = m :: ms →
      Effect s ((s.receive a m).setPhase t (.freeing m))
  | free {t : T} {m : ℕ} : s.phase t = .freeing m → Effect s ((s.messageFree m).setPhase t .idle)
  | drained {t : T} {i m : ℕ} : s.phase t = .draining i m → Effect s ((s.messageFree m).setPhase t (.closing i))
  | map {t : T} {i : ℕ} : s.phase t = .idle → s.bitmap i = false →
      Effect s ((s.setMapped i true).setPhase t (.creating i))
  | create {t : T} {i : ℕ} {k : Socket} : s.phase t = .creating i → s.holder i = none → k.used = true →
      k.messages = [] → Effect s ((s.create i k).setPhase t .idle)
  | shut {t : T} {i : ℕ} : s.phase t = .idle → (s.sockets i).used = true → s.holder i = none →
      (∀ u, (s.phase u).uses i = false) → Effect s ((s.shut t i).setPhase t (.closing i))
  | drain {t : T} {i m : ℕ} {ms : List ℕ} : s.phase t = .closing i → (s.sockets i).messages = m :: ms →
      Effect s ((s.setQueue i ms).setPhase t (.draining i m))
  | unlock {t : T} {i : ℕ} : s.phase t = .closing i → (s.sockets i).messages = [] →
      Effect s ((s.unlock i).setPhase t (.closed i))
  | unmap {t : T} {i : ℕ} : s.phase t = .closed i → Effect s ((s.setMapped i false).setPhase t .idle)
  | address {i : ℕ} {k : Socket} : k.used = (s.sockets i).used → k.messages = (s.sockets i).messages →
      Effect s (s.setSocket i k)

variable {s s' : State T} {t : T} {e : Event T}

lemma effect_receive (h : Step s (.receive t) s') (ho : Orderly s (.receive t)) : Effect s s' := by
  simp only [Step, next] at h
  split at h
  · next a hp =>
    split at h
    · split at h
      · cases h
        exact .doze hp
      · next m hm =>
        cases h
        obtain ⟨ms, hms⟩ := List.head?_eq_some_iff.mp (ho a (by rw [hp]; rfl) m hm)
        exact .receive hp hms
    · cases h
  · cases h

lemma effect_drain (h : Step s (.drain t) s') : Effect s s' := by
  simp only [Step, next] at h
  split at h
  · next i hp =>
    split at h
    · next hms =>
      cases h
      exact .unlock hp hms
    · next m ms hms =>
      cases h
      exact .drain hp hms
  · cases h

lemma effect_alloc {page : ℕ} (h : Step s (.alloc t page) s') : Effect s s' := by
  simp only [Step, next] at h
  split at h
  · next hp _ =>
    cases h
    exact .fail hp
  · next hp hf =>
    split at h
    · cases h
    · cases h
      exact .alloc hp hf ‹_›
  · cases h

lemma effect_seek (h : Step s (.seek t) s') : Effect s s' := by
  simp only [Step, next] at h
  split at h
  · next hp =>
    split at h
    · split at h
      · cases h
        rw [State.seek]
        split
        · next h => exact .found hp h.2
        · exact .pass hp
      · cases h
    · cases h
      exact .quit hp
  · cases h

lemma Step.effect (h : Step s e s') (ho : Orderly s e) : Effect s s' := by
  cases e with
  | seek t => exact effect_seek h
  | alloc t page => exact effect_alloc h
  | receive t => exact effect_receive h ho
  | drain t => exact effect_drain h
  | sendto t l dst data =>
    simp only [Step, next] at h
    split at h
    · cases h
      exact .call ‹_› ho
    · cases h
  | fill t =>
    simp only [Step, next] at h
    split at h
    · cases h
      exact .fill ‹_›
    · cases h
  | insert t =>
    simp only [Step, next] at h
    split at h
    · split at h
      · cases h
        exact .insert ‹_› ‹_›
      · cases h
    · cases h
  | recvfrom t l len read =>
    simp only [Step, next] at h
    split at h
    · split at h
      · cases h
        exact .ask ‹_› ‹_› rfl
      · cases h
    · cases h
  | release t =>
    simp only [Step, next] at h
    split at h
    · cases h
      exact .free ‹_›
    · cases h
      exact .drained ‹_›
    · cases h
  | socket t =>
    simp only [Step, next] at h
    split at h
    · next hp hf =>
      cases h
      have hi := List.find?_some hf
      exact .map hp (by simpa using hi)
    · cases h
  | create t domain type tid buffer =>
    simp only [Step, next] at h
    split at h
    · split at h
      · cases h
        exact .create ‹_› ‹_› rfl rfl
      · cases h
    · cases h
  | close t i =>
    simp only [Step, next] at h
    split at h
    · split at h
      · next hg =>
        cases h
        exact .shut ‹_› hg.1 hg.2 ho
      · cases h
    · cases h
  | unmap t =>
    simp only [Step, next] at h
    split at h
    · cases h
      exact .unmap ‹_›
    · cases h
  | address i addr target connected opposite =>
    simp only [Step, next] at h
    split at h
    · cases h
      exact .address rfl rfl
    · cases h

end FarmOS.Net.Udp

import FarmOS.Lib.Run

/-! The block cache of `kern/fs/buf.c`: groups of buffers in least-recently-used order. -/

namespace FarmOS.Fs.Buf

open Function

abbrev Block := Fin 512 → UInt8

abbrev Disk := UInt32 → UInt64 → Block

-- `dev` is the bit pattern of the signed field: a lookup compares it as a `u32`.
structure Buffer where
  blockno : UInt64
  dev : UInt32
  valid : Bool
  dirty : Bool
  refcnt : UInt16
  data : Block

variable {n : ℕ}

structure BufferGroup (n : ℕ) where
  list : List (Fin n)
  buf : Fin n → Buffer

structure Cache (n : ℕ) where
  groups : UInt64 → BufferGroup n
  disk : Disk

structure Ptr (n : ℕ) where
  group : UInt64
  index : Fin n
deriving DecidableEq

def bgroupMask : UInt64 := 0x3fff

def groupOf (blockno : UInt64) : UInt64 := blockno &&& bgroupMask

def Cache.at (s : Cache n) (p : Ptr n) : Buffer := (s.groups p.group).buf p.index

def Cache.setBuf (s : Cache n) (p : Ptr n) (b : Buffer) : Cache n where
  groups := update s.groups p.group
    ⟨(s.groups p.group).list, update (s.groups p.group).buf p.index b⟩
  disk := s.disk

def Cache.setList (s : Cache n) (g : UInt64) (l : List (Fin n)) : Cache n where
  groups := update s.groups g ⟨l, (s.groups g).buf⟩
  disk := s.disk

-- `data` is whatever the buffer memory holds before the first transfer into it.
def bufInit (n : ℕ) (d : Disk) (data : UInt64 → Fin n → Block) : Cache n where
  groups g := ⟨List.finRange n, fun i => ⟨0, 0xffffffff, false, false, 0, data g i⟩⟩
  disk := d

def diskRw (s : Cache n) (p : Ptr n) (write : Bool) : Cache n :=
  let b := s.at p
  if write then
    { s with disk := update s.disk b.dev (update (s.disk b.dev) b.blockno b.data) }
  else s.setBuf p { b with data := s.disk b.dev b.blockno }

def matchesBlock (dev : UInt32) (blockno : UInt64) (b : Buffer) : Bool :=
  b.dev == dev && b.blockno == blockno

def BufferGroup.lookup (g : BufferGroup n) (dev : UInt32) (blockno : UInt64) : Option (Fin n) :=
  g.list.find? fun i => matchesBlock dev blockno (g.buf i)

def BufferGroup.victim (g : BufferGroup n) : Option (Fin n) :=
  g.list.reverse.find? fun i => (g.buf i).refcnt == 0

def evict (s : Cache n) (p : Ptr n) (dev : UInt32) (blockno : UInt64) : Cache n :=
  let s' := if (s.at p).valid && (s.at p).dirty then diskRw s p true else s
  s'.setBuf p { s'.at p with dev, blockno, valid := false, dirty := false, refcnt := 1 }

-- `none` is the `error("No Buffer Available!")` branch, which does not return.
def bufAlloc (s : Cache n) (dev : UInt32) (blockno : UInt64) : Option (Ptr n × Cache n) :=
  let g := groupOf blockno
  match (s.groups g).lookup dev blockno with
  | some i =>
    let p : Ptr n := ⟨g, i⟩
    some (p, s.setBuf p { s.at p with refcnt := (s.at p).refcnt + 1 })
  | none =>
    match (s.groups g).victim with
    | some i => some (⟨g, i⟩, evict s ⟨g, i⟩ dev blockno)
    | none => none

def fill (s : Cache n) (p : Ptr n) (isRead : Bool) : Cache n :=
  if (s.at p).valid then s
  else
    let s' := if isRead then diskRw s p false else s
    s'.setBuf p { s'.at p with valid := true }

def bufRead (s : Cache n) (dev : UInt32) (blockno : UInt64) (isRead : Bool) :
    Option (Ptr n × Cache n) :=
  (bufAlloc s dev blockno).map fun r => (r.1, fill r.2 r.1 isRead)

def bufWrite (s : Cache n) (p : Ptr n) : Cache n :=
  s.setBuf p { s.at p with dirty := true }

def bufRelease (s : Cache n) (p : Ptr n) : Cache n :=
  let s' := s.setBuf p { s.at p with refcnt := (s.at p).refcnt - 1 }
  if (s'.at p).refcnt == 0 then
    let g := groupOf (s'.at p).blockno
    s'.setList g (p.index :: (s'.groups g).list.erase p.index)
  else s'

def store (s : Cache n) (p : Ptr n) (d : Block) : Cache n :=
  bufWrite (s.setBuf p { s.at p with data := d }) p

/-! A client of the cache: the references it holds and the accesses it makes. -/

structure Ref (n : ℕ) where
  ptr : Ptr n
  dev : UInt32
  blockno : UInt64

structure World (n : ℕ) where
  cache : Cache n
  held : List (Ref n)

inductive Event
  | get (dev : UInt32) (blockno : UInt64) (seen : Block)
  | put (dev : UInt32) (blockno : UInt64) (d : Block)
  | look (dev : UInt32) (blockno : UInt64) (seen : Block)
  | change (dev : UInt32) (blockno : UInt64) (d : Block)
  | release (dev : UInt32) (blockno : UInt64)

-- `refcnt` is a `u16`: a client never holds `2 ^ 16` references at once.
inductive Step : World n → Event → World n → Prop
  | get {w : World n} {dev blockno p s} : w.held.length < 65535 →
      bufRead w.cache dev blockno true = some (p, s) →
      Step w (.get dev blockno (s.at p).data) ⟨s, ⟨p, dev, blockno⟩ :: w.held⟩
  | put {w : World n} {dev blockno p s} (d : Block) : w.held.length < 65535 →
      bufRead w.cache dev blockno false = some (p, s) →
      Step w (.put dev blockno d) ⟨store s p d, ⟨p, dev, blockno⟩ :: w.held⟩
  | look {w : World n} {r : Ref n} : r ∈ w.held →
      Step w (.look r.dev r.blockno (w.cache.at r.ptr).data) w
  | change {w : World n} {r : Ref n} (d : Block) : r ∈ w.held →
      Step w (.change r.dev r.blockno d) ⟨store w.cache r.ptr d, w.held⟩
  | release {w : World n} {r : Ref n} {pre post : List (Ref n)} : w.held = pre ++ r :: post →
      Step w (.release r.dev r.blockno) ⟨bufRelease w.cache r.ptr, pre ++ post⟩

/-! What the cache is for: a flat map from device and block number to block contents. -/

inductive FlatStep : Disk → Event → Disk → Prop
  | get (m : Disk) (dev blockno) : FlatStep m (.get dev blockno (m dev blockno)) m
  | look (m : Disk) (dev blockno) : FlatStep m (.look dev blockno (m dev blockno)) m
  | put (m : Disk) (dev blockno d) : FlatStep m (.put dev blockno d)
      (update m dev (update (m dev) blockno d))
  | change (m : Disk) (dev blockno d) : FlatStep m (.change dev blockno d)
      (update m dev (update (m dev) blockno d))
  | release (m : Disk) (dev blockno) : FlatStep m (.release dev blockno) m

end FarmOS.Fs.Buf

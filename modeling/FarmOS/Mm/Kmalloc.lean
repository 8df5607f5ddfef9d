import FarmOS.Lib.Prog

/-! The kernel heap of `kern/mm/kmalloc.c`. The memory is read and written in 8-byte words: block headers,
block sizes and requests are all cut at multiples of 8. -/

namespace FarmOS.Kmalloc

open Lib Function

def pageSize : ℕ := 4096
def kernelMalloc : ℕ := 0x700000000
def maxMallocNpage : ℕ := 20000
def headerSize : ℕ := 24

structure Config where
  size : ℕ
  npage : ℕ

def mallocConfig : List Config :=
  [⟨64, 40⟩, ⟨128, 40⟩, ⟨256, 80⟩, ⟨512, 80⟩, ⟨1024, 40⟩, ⟨2048, 40⟩, ⟨4096, 0⟩, ⟨2 * 4096, 0⟩, ⟨4 * 4096, 0⟩,
    ⟨6 * 4096, 0⟩, ⟨8 * 4096, 0⟩, ⟨10 * 4096, 0⟩, ⟨12 * 4096, 0⟩, ⟨14 * 4096, 0⟩, ⟨16 * 4096, 0⟩,
    ⟨18 * 4096, 0⟩, ⟨33 * 4096, 0⟩]

def classCount : ℕ := 17

def classSize (i : ℕ) : ℕ := (mallocConfig.map Config.size).getD i 0

def classPages (i : ℕ) : ℕ := (mallocConfig.map Config.npage).getD i 0

structure Heap where
  mem : ℕ → ℕ
  mapped : ℕ → Bool
  tabled : ℕ × ℕ → Bool
  freePages : ℕ
  head : ℕ → ℕ
  npage : ℕ → ℕ
  accualSize : ℕ → ℕ
  heapTop : ℕ
  allocedSize : ℕ

inductive Panic
  | noFreePage | outOfMemory | tooLarge | pageFault
deriving DecidableEq

abbrev M := Prog Heap Panic

def load (a : ℕ) : M ℕ := do
  let h ← get
  if h.mapped (a / pageSize) then pure (h.mem a) else throw .pageFault

def store (a w : ℕ) : M Unit := do
  let h ← get
  if h.mapped (a / pageSize) then set { h with mem := update h.mem a w } else throw .pageFault

def tablesOf (va : ℕ) : List (ℕ × ℕ) := [(1, va / 2 ^ 30), (0, va / 2 ^ 21)]

def pagesTaken (h : Heap) (va : ℕ) : ℕ := 1 + (tablesOf va).countP fun t => !h.tabled t

def kpageAlloc (va : ℕ) : M Unit := do
  let h ← get
  if h.freePages < pagesTaken h va then throw .noFreePage
  else set { h with
    mem := fun a => if a / pageSize = va / pageSize then 0 else h.mem a
    mapped := update h.mapped (va / pageSize) true
    tabled := fun t => h.tabled t || (tablesOf va).contains t
    freePages := h.freePages - pagesTaken h va }

def kpagesAlloc (va n : ℕ) : M ℤ :=
  loop (fun k => do kpageAlloc (va + k * pageSize); pure 0) 0 n

-- `cfg` is the address at which the table `malloc_config` is linked.
def headAddr (cfg i : ℕ) : ℕ := cfg + 24 * i + 8

def classOf (cfg phead : ℕ) : Option ℕ := (List.range classCount).find? fun i => headAddr cfg i == phead

def listInsertHead (i node : ℕ) : M Unit := do
  store node ((← get).head i)
  modify fun h => { h with head := update h.head i node }

def addBlock (cfg i header : ℕ) : M ℤ := do
  store (header + 8) (headAddr cfg i)
  store header 0
  store (header + 16) ((← get).accualSize i)
  listInsertHead i header
  pure 0

def addBlocks (cfg i start bytes : ℕ) : M ℤ :=
  loop (fun k => addBlock cfg i (start + k * classSize i)) 0 ((bytes + classSize i - 1) / classSize i)

def addNew (cfg i top : ℕ) : M ℤ :=
  if classSize i ≤ pageSize then addBlocks cfg i top pageSize else addBlock cfg i top

def initClass (cfg i : ℕ) : M ℤ := do
  modify fun h =>
    { h with
      accualSize := update h.accualSize i (classSize i - headerSize)
      head := update h.head i 0 }
  let h ← get
  let _ ← addBlocks cfg i h.heapTop (h.npage i * pageSize)
  modify fun h => { h with heapTop := h.heapTop + h.npage i * pageSize }
  pure 0

def kmallocInit (cfg : ℕ) : M Unit := do
  let h ← get
  let _ ← kpagesAlloc h.heapTop ((List.range classCount).map h.npage).sum
  let _ ← loop (initClass cfg) 0 classCount

def extendHeap (cfg i : ℕ) : M Unit := do
  let allocNpage := max 1 (classSize i / pageSize)
  let top := (← get).heapTop
  let _ ← kpagesAlloc top allocNpage
  if kernelMalloc + maxMallocNpage * pageSize < top + pageSize then throw .outOfMemory
  else
    modify fun h => { h with npage := update h.npage i (h.npage i + allocNpage) }
    let _ ← addNew cfg i top
    modify fun h => { h with heapTop := top + allocNpage * pageSize }

def findClass (accualSize : ℕ → ℕ) (size : ℕ) : Option ℕ :=
  (List.range classCount).find? fun i => size ≤ accualSize i

def memsetZero (a n : ℕ) : M Unit := do
  let h ← get
  if (List.range n).all fun k => h.mapped ((a + k) / pageSize) then
    set { h with mem := fun x => if a ≤ x ∧ x < a + n then 0 else h.mem x }
  else throw .pageFault

def takeBlock (i : ℕ) : M ℕ := do
  let header := (← get).head i
  let next ← load header
  modify fun h => { h with head := update h.head i next }
  let size ← load (header + 16)
  memsetZero (header + headerSize) size
  modify fun h => { h with allocedSize := (h.allocedSize + classSize i) % 2 ^ 64 }
  pure (header + headerSize)

def kmalloc (cfg size : ℕ) : M ℕ := do
  let h ← get
  match findClass h.accualSize size with
  | none => throw .tooLarge
  | some i =>
    if h.head i = 0 then
      extendHeap cfg i
      takeBlock i
    else takeBlock i

def kfree (cfg ptr : ℕ) : M Unit := do
  let header := ptr - headerSize
  let phead ← load (header + 8)
  match classOf cfg phead with
  | none => throw .pageFault
  | some i =>
    listInsertHead i header
    modify fun h => { h with allocedSize := (h.allocedSize + 2 ^ 64 - classSize i) % 2 ^ 64 }

def start (mem : ℕ → ℕ) (mapped : ℕ → Bool) (tabled : ℕ × ℕ → Bool) (freePages : ℕ) : Heap where
  mem := mem
  mapped := mapped
  tabled := tabled
  freePages := freePages
  head _ := 0
  npage := classPages
  accualSize _ := 0
  heapTop := kernelMalloc
  allocedSize := 0

structure Grant where
  ptr : ℕ
  size : ℕ
  cls : ℕ
deriving DecidableEq

structure Sys where
  heap : Heap
  live : List Grant

def Grant.capacity (g : Grant) : ℕ := classSize g.cls - headerSize

inductive Op
  | kmalloc (size : ℕ)
  | kfree (g : Grant)
  | write (a w : ℕ)
  | pages (n : ℕ)

inductive Op.Step (cfg : ℕ) (s : Sys) : Op → Sys → Prop
  | kmalloc {size p i : ℕ} {h : Heap} : (Kmalloc.kmalloc cfg size).run s.heap = .ok (p, h) →
      findClass s.heap.accualSize size = some i → Step cfg s (.kmalloc size) ⟨h, ⟨p, size, i⟩ :: s.live⟩
  | kfree {g : Grant} {h : Heap} : g ∈ s.live → (Kmalloc.kfree cfg g.ptr).run s.heap = .ok ((), h) →
      Step cfg s (.kfree g) ⟨h, s.live.erase g⟩
  | write {g : Grant} {a w : ℕ} : g ∈ s.live → g.ptr ≤ a → a + 8 ≤ g.ptr + g.capacity → 8 ∣ a →
      Step cfg s (.write a w) ⟨{ s.heap with mem := update s.heap.mem a w }, s.live⟩
  | pages {n : ℕ} : Step cfg s (.pages n) ⟨{ s.heap with freePages := n }, s.live⟩

end FarmOS.Kmalloc

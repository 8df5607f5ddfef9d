import FarmOS.Lib.Run

/-! The kernel descriptor table of `kern/fs/fd` and the per-process tables that point into it. -/

namespace FarmOS.Fs.FdTable

open Function List

def fdnum : ℕ := 1024
def maxFdCount : ℕ := 256
@[irreducible] def nproc : ℕ := 10240

def efault : ℤ := 14
def ebadf : ℤ := 9
def einval : ℤ := 22
def enfile : ℤ := 23
def emfile : ℤ := 24
def atFdcwd : ℤ := -100
def oCreate : UInt32 := 0x40
def oAppend : UInt32 := 0x400

inductive FdDev
  | file | pipe | console | socket
deriving DecidableEq

structure Fd where
  dirent : Option ℕ := none
  pipe : Option ℕ := none
  type : ℕ := 0
  offset : UInt32 := 0
  flags : UInt32 := 0
  mode : UInt32 := 0
  fdDev : Option FdDev := none
  refcnt : UInt32 := 0
  socket : Option ℕ := none

structure ThreadFs where
  fdList : ℕ → ℤ
  rlimitFilesCur : ℕ
  rlimit_le : rlimitFilesCur ≤ maxFdCount

structure Kernel where
  fds : ℕ → Fd
  fdBitMap : ℕ → BitVec 32
  procs : Fin nproc → Option ThreadFs
  console : Fin 3 → ℤ
  closed : List (ℕ × FdDev)

def Kernel.empty : Kernel := ⟨fun _ => {}, fun _ => 0, fun _ => none, fun _ => -1, []⟩

def Kernel.slot (s : Kernel) (p : Fin nproc) (u : ℕ) : ℤ :=
  match s.procs p with
  | some t => t.fdList u
  | none => -1

def Kernel.limit (s : Kernel) (p : Fin nproc) : ℕ :=
  match s.procs p with
  | some t => t.rlimitFilesCur
  | none => 0

def ThreadFs.set (t : ThreadFs) (u : ℕ) (v : ℤ) : ThreadFs :=
  { t with fdList := update t.fdList u v }

def Kernel.setSlot (s : Kernel) (p : Fin nproc) (u : ℕ) (v : ℤ) : Kernel :=
  { s with procs := update s.procs p ((s.procs p).map (·.set u v)) }

def Kernel.setFd (s : Kernel) (k : ℕ) (f : Fd) : Kernel :=
  { s with fds := update s.fds k f }

def Kernel.bit (s : Kernel) (i : ℕ) : Bool :=
  s.fdBitMap (i >>> 5) &&& (1#32 <<< (i &&& 31)) != 0

def Kernel.setBit (s : Kernel) (i : ℕ) : Kernel :=
  { s with fdBitMap :=
      update s.fdBitMap (i >>> 5) (s.fdBitMap (i >>> 5) ||| (1#32 <<< (i &&& 31))) }

def Kernel.clearBit (s : Kernel) (i : ℕ) : Kernel :=
  { s with fdBitMap :=
      update s.fdBitMap (i >>> 5) (s.fdBitMap (i >>> 5) &&& ~~~(1#32 <<< (i &&& 31))) }

def fdAlloc (s : Kernel) : ℤ × Kernel :=
  match (range fdnum).find? (fun i => !s.bit i) with
  | some i => (i, (s.setBit i).setFd i { refcnt := 1 })
  | none => (-enfile, s)

def cloneAddCite (s : Kernel) (i : ℤ) : Option Kernel :=
  if 0 ≤ i ∧ i < fdnum then
    some (s.setFd i.toNat { s.fds i.toNat with refcnt := (s.fds i.toNat).refcnt + 1 })
  else none

def devClose (s : Kernel) (k : ℕ) : Kernel :=
  match (s.fds k).fdDev with
  | some d => { s with closed := s.closed ++ [(k, d)] }
  | none => s

def freeFd (s : Kernel) (i : ℤ) : Option Kernel :=
  if 0 ≤ i ∧ i < fdnum then
    let fd := s.fds i.toNat
    if fd.refcnt - 1 = 0 then some (((devClose s i.toNat).setFd i.toNat {}).clearBit i.toNat)
    else some (s.setFd i.toNat { fd with refcnt := fd.refcnt - 1 })
  else none

def inRange (s : Kernel) (p : Fin nproc) (fd : ℤ) : Prop := 0 ≤ fd ∧ fd < s.limit p

instance (s : Kernel) (p : Fin nproc) (fd : ℤ) : Decidable (inRange s p fd) :=
  inferInstanceAs (Decidable (_ ∧ _))

def isKernFd (k : ℤ) : Prop := 0 ≤ k ∧ k < fdnum

instance (k : ℤ) : Decidable (isKernFd k) := inferInstanceAs (Decidable (_ ∧ _))

def closeFd (s : Kernel) (p : Fin nproc) (fd : ℤ) : Option (ℤ × Kernel) :=
  if ¬ inRange s p fd then some (-ebadf, s)
  else if ¬ isKernFd (s.slot p fd.toNat) then some (-ebadf, s)
  else do
    let s' ← freeFd s (s.slot p fd.toNat)
    some (0, s'.setSlot p fd.toNat (-1))

def allocUfd (s : Kernel) (p : Fin nproc) : ℤ × Kernel :=
  match (range (s.limit p)).find? (fun i => s.slot p i == -1) with
  | some i => (i, s.setSlot p i (fdnum + 1))
  | none => (-emfile, s)

def freeUfd (s : Kernel) (p : Fin nproc) (ufd : ℤ) : Option Kernel :=
  if s.slot p ufd.toNat = -1 then none else some (s.setSlot p ufd.toNat (-1))

def dup (s : Kernel) (p : Fin nproc) (fd : ℤ) : Option (ℤ × Kernel) :=
  if ¬ inRange s p fd then some (-ebadf, s)
  else if ¬ isKernFd (s.slot p fd.toNat) then some (-ebadf, s)
  else
    let kernFd := s.slot p fd.toNat
    let (newFd, s') := allocUfd s p
    if newFd < 0 then some (newFd, s')
    else do
      let s'' ← cloneAddCite (s'.setSlot p newFd.toNat kernFd) kernFd
      some (newFd, s'')

def dup3 (s : Kernel) (p : Fin nproc) (old new : ℤ) : Option (ℤ × Kernel) :=
  if old = new then some (-einval, s)
  else if ¬ inRange s p old then some (-ebadf, s)
  else if ¬ inRange s p new then some (-ebadf, s)
  else if s.slot p new.toNat ≥ fdnum then some (-ebadf, s)
  else do
    let s ← if isKernFd (s.slot p new.toNat) then freeFd s (s.slot p new.toNat) else some s
    if ¬ isKernFd (s.slot p old.toNat) then some (-ebadf, s)
    else
      let copied := s.slot p old.toNat
      let s ← cloneAddCite (s.setSlot p new.toNat copied) copied
      some (new, s)

structure OpenArgs where
  fd : ℤ
  null : Bool
  absolute : Bool
  flags : UInt32
  mode : UInt32
  getFile : Except ℤ ℕ
  createFile : Except ℤ ℕ
  fileSize : UInt32

def openDirBad (s : Kernel) (p : Fin nproc) (a : OpenArgs) : Prop :=
  a.fd ≠ atFdcwd ∧ a.absolute = false ∧ (¬ inRange s p a.fd ∨ ¬ isKernFd (s.slot p a.fd.toNat))

instance (s : Kernel) (p : Fin nproc) (a : OpenArgs) : Decidable (openDirBad s p a) :=
  inferInstanceAs (Decidable (_ ∧ _))

def OpenArgs.resolve (a : OpenArgs) : Except ℤ ℕ :=
  match a.getFile with
  | .ok d => .ok d
  | .error r => if a.flags &&& oCreate = oCreate then a.createFile else .error r

def OpenArgs.opened (a : OpenArgs) (d : ℕ) (fd : Fd) : Fd :=
  { fd with dirent := some d, pipe := none, type := 1, flags := a.flags, mode := a.mode,
            fdDev := some .file, offset := if a.flags &&& oAppend ≠ 0 then a.fileSize else 0 }

def openat (s : Kernel) (p : Fin nproc) (a : OpenArgs) : Option (ℤ × Kernel) :=
  if a.null then some (-efault, s)
  else if openDirBad s p a then some (-ebadf, s)
  else
    let (userFd, s) := allocUfd s p
    if userFd < 0 then some (userFd, s)
    else
      let (kernFd, s) := fdAlloc s
      if kernFd < 0 then do
        let s ← freeUfd s p userFd
        some (kernFd, s)
      else
        match a.resolve with
        | .error r => do
          let s ← freeUfd s p userFd
          let s ← freeFd s kernFd
          some (r, s)
        | .ok d =>
          let s := s.setFd kernFd.toNat (a.opened d (s.fds kernFd.toNat))
          some (userFd, s.setSlot p userFd.toNat kernFd)

def freeBothUfd (s : Kernel) (p : Fin nproc) (ufd1 ufd2 : ℤ) : Option Kernel := do
  let s ← if ufd1 ≥ 0 then freeUfd s p ufd1 else some s
  if ufd2 ≥ 0 then freeUfd s p ufd2 else some s

def pipeEnd (addr : ℕ) (flags : UInt32) (fd : Fd) : Fd :=
  { fd with dirent := none, pipe := some addr, type := 2, flags, offset := 0, fdDev := some .pipe }

def pipe (s : Kernel) (p : Fin nproc) (addr : ℕ) : Option (ℤ × Kernel) :=
  let (fd1, s) := allocUfd s p
  let (fd2, s) := allocUfd s p
  if fd1 < 0 ∨ fd2 < 0 then do
    let s ← freeBothUfd s p fd1 fd2
    some (-emfile, s)
  else
    let (kernfd1, s) := fdAlloc s
    if kernfd1 < 0 then do
      let s ← freeBothUfd s p fd1 fd2
      some (kernfd1, s)
    else
      let (kernfd2, s) := fdAlloc s
      if kernfd2 < 0 then do
        let s ← freeBothUfd s p fd1 fd2
        let s ← freeFd s kernfd1
        some (kernfd2, s)
      else
        let s := s.setFd kernfd1.toNat (pipeEnd addr 0 (s.fds kernfd1.toNat))
        let s := s.setSlot p fd1.toNat kernfd1
        let s := s.setFd kernfd2.toNat (pipeEnd addr 1 (s.fds kernfd2.toNat))
        some (0, s.setSlot p fd2.toNat kernfd2)

def socketEnd (sock : ℕ) (flags : UInt32) (fd : Fd) : Fd :=
  { fd with dirent := none, pipe := none, type := 4, flags, offset := 0, fdDev := some .socket,
            socket := some sock }

def socket (s : Kernel) (p : Fin nproc) (flags : UInt32) (socketAlloc : Option ℕ) :
    Option (ℤ × Kernel) :=
  match (range maxFdCount).find? (fun i => s.slot p i == -1) with
  | none => some (-1, s)
  | some usfd =>
    match socketAlloc with
    | none => some (-1, s)
    | some sock =>
      let (sfd, s) := fdAlloc s
      if sfd < 0 then some (-1, s)
      else
        let s := s.setFd sfd.toNat (socketEnd sock flags (s.fds sfd.toNat))
        some (usfd, s.setSlot p usfd sfd)

def forkLoop (p c : Fin nproc) : List ℕ → Kernel → Option Kernel
  | [], s => some s
  | i :: is, s => do
    let kFd := s.slot p i
    let s ← if kFd ≠ -1 then cloneAddCite s kFd else some s
    forkLoop p c is (s.setSlot c i kFd)

def forkThreadFs (s : Kernel) (p c : Fin nproc) : Option Kernel :=
  match s.procs p with
  | none => none
  | some t => forkLoop p c (range maxFdCount)
      { s with procs := update s.procs c (some { t with fdList := fun _ => -1 }) }

def recycleLoop (p : Fin nproc) : List ℕ → Kernel → Option Kernel
  | [], s => some s
  | i :: is, s => do
    let s ← if s.slot p i ≠ -1 then freeFd s (s.slot p i) else some s
    recycleLoop p is s

def recycleThreadFs (s : Kernel) (p : Fin nproc) : Option Kernel := do
  let s ← recycleLoop p (range maxFdCount) s
  some { s with procs := update s.procs p none }

def consoleAlloc (s : Kernel) (c : Fin 3) (flags : UInt32) : Option Kernel :=
  if s.console c = -1 then
    let (k, s) := fdAlloc s
    some { s.setFd k.toNat { s.fds k.toNat with type := 3, flags, fdDev := some .console } with
      console := update s.console c k }
  else cloneAddCite s (s.console c)

def initThreadFs (s : Kernel) (p : Fin nproc) : Option Kernel := do
  let s := { s with procs := update s.procs p (some ⟨fun _ => -1, maxFdCount, le_rfl⟩) }
  let s ← consoleAlloc s 0 0
  let s := s.setSlot p 0 (s.console 0)
  let s ← consoleAlloc s 1 1
  let s := s.setSlot p 1 (s.console 1)
  let s ← consoleAlloc s 2 2
  some (s.setSlot p 2 (s.console 2))

def boot (ps : List (Fin nproc)) : Option Kernel := ps.foldlM initThreadFs Kernel.empty

inductive Op
  | openat (p : Fin nproc) (a : OpenArgs)
  | pipe (p : Fin nproc) (addr : ℕ)
  | socket (p : Fin nproc) (flags : UInt32) (socketAlloc : Option ℕ)
  | dup (p : Fin nproc) (fd : ℤ)
  | dup3 (p : Fin nproc) (old new : ℤ)
  | close (p : Fin nproc) (fd : ℤ)
  | fork (p c : Fin nproc)
  | exit (p : Fin nproc)

def Op.proc : Op → Fin nproc
  | .openat p _ | .pipe p _ | .socket p _ _ | .dup p _ | .dup3 p _ _ | .close p _ | .fork p _
  | .exit p => p

def exec (s : Kernel) : Op → Option (ℤ × Kernel)
  | .openat p a => openat s p a
  | .pipe p addr => pipe s p addr
  | .socket p flags n => socket s p flags n
  | .dup p fd => dup s p fd
  | .dup3 p old new => dup3 s p old new
  | .close p fd => closeFd s p fd
  | .fork p c => (forkThreadFs s p c).map (0, ·)
  | .exit p => (recycleThreadFs s p).map (0, ·)

end FarmOS.Fs.FdTable

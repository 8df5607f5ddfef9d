import FarmOS.Lib.Lockset
import FarmOS.Lib.Mem
import FarmOS.Mm.Mmap

/-! `ptUnmap`, `sys_unmap`, `sys_mmap`, `file_map` and `sys_sigprocmask` lock by lock, with the calls they make, as
one thread runs them while the others change the kernel's data. -/

namespace FarmOS.Mm.Calls

open Lib Lib.Lockset

inductive Lock
  | kvm
  | proc
  | thread
  | fileLoad
  | file
  | virtio
deriving DecidableEq

def Lock.recursive : Lock → Bool
  | .kvm | .proc | .thread | .file => true
  | .fileLoad | .virtio => false

abbrev SigSet := BitVec 128

structure File where
  bytes : List Byte
  sectors : List ℕ

structure Kernel where
  phys : Phys
  mmapAddr : BitVec 64
  sigmask : SigSet
  dirent : BitVec 32 → Option File
  loaded : ℕ → Bool
  cached : ℕ → Bool
  dirty : ℕ → Bool
  diskDone : Bool

abbrev Call := Lockset.Call Lock Kernel

def mtxLock (l : Lock) : Call Unit := lock Lock.recursive l

def mtxUnlock (l : Lock) : Call Unit := unlock l

def sleepOn (l : Lock) : Call Unit := sleep Lock.recursive l

section

variable {α : Type}

def onPhys (c : M α) : Call α := do
  let v ← get
  match c.run v.shared.phys with
  | .ok (a, s) =>
    set { v with shared := { v.shared with phys := s } }
    pure a
  | .error _ => throw .panic

def given (p : Prop) [Decidable p] (c : Call α) (a : α) : Call α := if p then c else pure a

end

def panicOn (r : ℤ) : Call Unit := if r = 0 then pure () else throw .panic

-- vmm.c
def vmAlloc : Call ℕ := do
  mtxLock .kvm
  let pp ← onPhys pmAlloc
  mtxUnlock .kvm
  pure pp

def ptLookup (pgdir : ℕ) (va : BitVec 64) : Call Pte := do
  mtxLock .kvm
  let pte ← onPhys (ptWalk pgdir va false)
  mtxUnlock .kvm
  match pte with
  | none => pure 0
  | some x => onPhys (load x)

def ptMap (pgdir : ℕ) (va pa : BitVec 64) (perm : Pte) : Call ℤ := do
  mtxLock .kvm
  let x ← onPhys (ptSlot pgdir va)
  let pte ← onPhys (load x)
  let k ← Lockset.look
  if has pte pteV then
    onPhys (check (pa ≠ 0) .assertion)
    onPhys (ptModify x (mkPte k.phys.ad pa perm))
    mtxUnlock .kvm
    pure 0
  else if pa = 0 then
    onPhys (check (has perm pteU) .assertion)
    onPhys (ptModify x perm)
    mtxUnlock .kvm
    pure 0
  else
    onPhys (check (membase ≤ pa) .assertion)
    onPhys (ptModify x (mkPte k.phys.ad pa perm))
    mtxUnlock .kvm
    pure 0

def ptUnmap (pgdir : ℕ) (va : BitVec 64) : Call ℤ := do
  mtxLock .kvm
  match ← onPhys (ptWalk pgdir va false) with
  | none => throw .panic
  | some x =>
    if (← onPhys (load x)) = 0 then pure (-eNoMap)
    else
      onPhys (ptClear x)
      mtxUnlock .kvm
      pure 0

-- trap_pgfault.c
def cowHandler (pd : ℕ) (pte : Pte) (badva : BitVec 64) : Call ℤ := do
  let newPage ← vmAlloc
  onPhys (memcpyPage newPage (paToPage (pteToPa pte)))
  ptMap pd badva (pageToPa newPage) ((ptePerm pte &&& ~~~pteCow) ||| pteW)

def passiveHandler (pd : ℕ) (pte : Pte) (badva : BitVec 64) : Call ℤ := do
  onPhys (check (pte >>> 10 = 0) .assertion)
  let newPage ← vmAlloc
  ptMap pd badva (pageToPa newPage) pte

def pageFaultHandler (pd : ℕ) (violate : Pte) (badva : BitVec 64) : Call ℤ := do
  let pte ← ptLookup pd badva
  if has violate pteW ∧ pte ≠ 0 ∧ has pte pteU ∧ ¬ has pte pteW ∧ has pte pteCow then
    cowHandler pd pte badva
  else if ¬ has pte pteV ∧ has pte pteU then passiveHandler pd pte badva
  else pure (-1)

-- transfer.c
def testPageFault (upd : ℕ) (va : BitVec 64) (pte permneed : Pte) : Call Unit := do
  let _ ← given (¬ has pte pteV) (pageFaultHandler upd permneed va) 0
  let r ← given (has permneed pteW ∧ ¬ has pte pteW) (pageFaultHandler upd pteW va) 0
  panicOn r
  let r ← given (has permneed pteR ∧ ¬ has pte pteR) (pageFaultHandler upd pteR va) 0
  panicOn r

section

variable {κ : Type} (upd : ℕ) (uptr : BitVec 64) (len : ℕ) (callback : Callback κ) (permneed : Pte)

def userToKernel : ℕ → ℕ → ℕ → κ → Call κ
  | 0, _, _, buf => pure buf
  | fuel + 1, i, uoff, buf => do
    if i < len then
      let va := uptr + BitVec.ofNat 64 i
      let pte ← ptLookup upd va
      testPageFault upd va pte permneed
      let urealpa := pteToPa (← ptLookup upd va)
      onPhys (check (0x1000 ≤ urealpa) .addressTooLow)
      let ulen := min (len - i) (pageSize - uoff)
      let r ← onPhys (callback (paToPage urealpa) uoff i ulen buf)
      if r.2 then pure r.1 else userToKernel fuel (i + ulen) 0 r.1
    else pure buf

end

def copyIn (upd : ℕ) (uptr : BitVec 64) (len : ℕ) : Call (List Byte) :=
  userToKernel upd uptr len copyInCallback pteR len 0 (pageOff uptr) []

def copyOut (upd : ℕ) (uptr : BitVec 64) (data : List Byte) : Call Unit :=
  userToKernel upd uptr data.length (copyOutCallback data) pteW data.length 0 (pageOff uptr) ()

-- sys_mm.c and sys_mmap.c
def whilePages (more : BitVec 64 → Bool) (body : BitVec 64 → Call Unit) : ℕ → BitVec 64 → Call Unit
  | 0, _ => throw .unfinished
  | fuel + 1, va => if more va then do body va; whilePages more body fuel (va + 4096) else pure ()

def mapPage (pd : ℕ) (perm : Pte) (va : BitVec 64) : Call Unit := do
  let pte ← ptLookup pd va
  if pteToPa pte = 0 then
    if va < passiveThreshold then
      let pa ← vmAlloc
      panicOn (← ptMap pd va (pageToPa pa) perm)
    else
      onPhys (check (has perm pteU) .assertion)
      panicOn (← ptMap pd va 0 perm)
  else pure ()

def sysMap (pd : ℕ) (start len : BitVec 64) (perm : Pte) : Call ℤ := do
  whilePages (· < mapEnd start len) (mapPage pd perm) allPages (pgRoundDown start)
  pure 0

def unmapPage (pd : ℕ) (va : BitVec 64) : Call Unit := do panicOn (← ptUnmap pd va)

def sysUnmap (pd : ℕ) (start len : BitVec 64) : Call ℤ := do
  mtxLock .proc
  whilePages (· ≤ unmapEnd start len) (unmapPage pd) allPages (pgRoundUpVa start)
  mtxUnlock .proc
  pure 0

-- kload.c and the reads below it
def maxKloadFile : ℕ := 10
def kernelTemp : BitVec 64 := 0x600000000

def fileidToKva (fileid : ℕ) : BitVec 64 := kernelTemp + BitVec.ofNat 64 (fileid * 0x10000000)

def allocFileid : ℕ → Call ℕ
  | 0 => throw .unfinished
  | fuel + 1 => do
    mtxLock .fileLoad
    let k ← Lockset.look
    match (List.range maxKloadFile).find? fun i => !k.loaded i with
    | some i =>
      Lockset.write fun k => { k with loaded := Function.update k.loaded i true }
      mtxUnlock .fileLoad
      pure i
    | none =>
      mtxUnlock .fileLoad
      interfere
      allocFileid fuel

def freeFileid (fileid : ℕ) : Call Unit := do
  mtxLock .fileLoad
  let k ← Lockset.look
  if k.loaded fileid then
    Lockset.write fun k => { k with loaded := Function.update k.loaded fileid false }
    mtxUnlock .fileLoad
  else throw .panic

def waitDisk : ℕ → Call Unit
  | 0 => throw .unfinished
  | fuel + 1 => do
    let k ← Lockset.look
    if k.diskDone then pure ()
    else
      sleepOn .virtio
      waitDisk fuel

def diskRw (fuel : ℕ) : Call Unit := do
  mtxLock .virtio
  Lockset.write fun k => { k with diskDone := false }
  waitDisk fuel
  mtxUnlock .virtio

def forEach (body : ℕ → Call Unit) : List ℕ → Call Unit
  | [] => pure ()
  | i :: l => do
    body i
    forEach body l

def bufRead (fuel sector : ℕ) : Call Unit := do
  let k ← Lockset.look
  if k.cached sector then pure ()
  else
    given (k.dirty sector) (diskRw fuel) ()
    diskRw fuel

def fileRead (fuel : ℕ) (file : File) (off n : ℕ) : Call ℕ := do
  mtxLock .file
  if file.bytes.length ≤ off then
    mtxUnlock .file
    pure 0
  else
    let n := min n (file.bytes.length - off)
    if n = 0 then
      mtxUnlock .file
      pure 0
    else
      forEach (bufRead fuel) file.sectors
      mtxUnlock .file
      pure n

def File.npage (file : File) : ℕ := (file.bytes.length + 4095) / 4096

def fileLoadByDirent (fuel : ℕ) (file : File) : Call ℕ := do
  let fileid ← allocFileid fuel
  let k ← Lockset.look
  forEach (fun i => do
    let pa ← vmAlloc
    panicOn (← ptMap k.phys.kernPd (fileidToKva fileid + BitVec.ofNat 64 (i * pageSize)) (pageToPa pa) (pteR ||| pteW)))
    (List.range file.npage)
  let _ ← fileRead fuel file 0 file.bytes.length
  pure fileid

def fileUnload (fileid : ℕ) (file : File) : Call Unit := do
  let k ← Lockset.look
  forEach (fun i => unmapPage k.phys.kernPd (fileidToKva fileid + BitVec.ofNat 64 (i * pageSize)))
    (List.range file.npage)
  freeFileid fileid

def loadDataMapper (pd : ℕ) (va : BitVec 64) (offset : ℕ) (perm : Pte) (src : List Byte) : Call ℤ := do
  let pa ← vmAlloc
  onPhys (modify fun s => s.writeBytes pa offset src)
  ptMap pd va (pageToPa pa) perm

def mapRest (pd : ℕ) (va : BitVec 64) (perm : Pte) (binary : List Byte) (first : ℕ) : Call ℤ :=
  loop (fun k => loadDataMapper pd (va + BitVec.ofNat 64 (first + k * pageSize)) 0 perm
    ((binary.drop (first + k * pageSize)).take pageSize)) 0 ((binary.length - first + 4095) / 4096)

def fileMap (fuel pd : ℕ) (file : File) (va len : BitVec 64) (perm : Pte) (fileOffset : BitVec 32) :
    Call (BitVec 64) := do
  let fileid ← fileLoadByDirent fuel file
  if file.bytes.length ≤ (fileOffset.signExtend 64).toNat then pure mapFailed
  else
    let binary := (file.bytes.drop fileOffset.toNat).take len.toNat
    let first := fileFirst va binary
    mtxLock .proc
    let r ← given (pageOff va ≠ 0) (loadDataMapper pd va (pageOff va) perm (binary.take first)) 0
    if r ≠ 0 then pure mapFailed
    else
      let r ← mapRest pd va perm binary first
      if r ≠ 0 then pure mapFailed
      else
        mtxUnlock .proc
        fileUnload fileid file
        pure va

def mmapTo (fuel pd : ℕ) (start len : BitVec 64) (prot flags fd off : BitVec 32) : Call (BitVec 64) := do
  if flags &&& mapAnonymous ≠ 0 then
    let r ← sysMap pd start len (mmapPerm prot flags)
    if r < 0 then
      mtxUnlock .proc
      pure mapFailed
    else
      mtxUnlock .proc
      pure start
  else
    mtxUnlock .proc
    let k ← Lockset.look
    match k.dirent fd with
    | none => pure mapFailed
    | some file => fileMap fuel pd file start len (mmapPerm prot flags) off

def sysMmap (fuel pd : ℕ) (start len : BitVec 64) (prot flags fd off : BitVec 32) : Call (BitVec 64) := do
  mtxLock .proc
  let len := pgRoundUpVa len
  if len = 0 then
    mtxUnlock .proc
    pure mapFailed
  else
    let start := pgRoundUpVa start
    if start = 0 then
      let k ← Lockset.look
      let newAddr := pgRoundUpVa (k.mmapAddr + len)
      if mmapEnd < newAddr then
        mtxUnlock .proc
        pure mapFailed
      else
        Lockset.write fun k => { k with mmapAddr := newAddr }
        mmapTo fuel pd k.mmapAddr len prot flags fd off
    else mmapTo fuel pd start len prot flags fd off

-- sys_signal.c
def sigsetSize : ℕ := 16

def lowBytes (set : SigSet) (size : ℕ) : SigSet := BitVec.ofNat 128 (set.toNat % 256 ^ size)

def setMask (f : SigSet → SigSet) : Call Unit := Lockset.write fun k => { k with sigmask := f k.sigmask }

-- `stack` is what stands in the kernel stack where `newkset` lies.
def sysSigprocmask (pd : ℕ) (how : BitVec 32) (set oldset sigsetsize : BitVec 64) (stack : SigSet) : Call ℤ := do
  if sigsetSize ≤ sigsetsize.toNat then pure (-1)
  else
    let bytes ← given (set ≠ 0) (copyIn pd set sigsetSize) (leBytes sigsetSize stack.toNat)
    let newkset := BitVec.ofNat 128 (leNat bytes)
    mtxLock .thread
    let k ← Lockset.look
    given (oldset ≠ 0) (copyOut pd oldset (leBytes sigsetSize k.sigmask.toNat)) ()
    if how = 0 then
      given (set ≠ 0) (setMask fun mask => mask ||| lowBytes newkset sigsetsize.toNat) ()
      mtxUnlock .thread
      pure 0
    else if how = 1 then
      given (set ≠ 0) (setMask fun mask => mask &&& ~~~lowBytes newkset sigsetsize.toNat) ()
      mtxUnlock .thread
      pure 0
    else if how = 2 then
      setMask fun _ => newkset
      mtxUnlock .thread
      pure 0
    else pure (-1)

end FarmOS.Mm.Calls

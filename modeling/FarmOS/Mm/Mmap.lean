import FarmOS.Mm.Boot
import FarmOS.Mm.Transfer

/-! The calls by which a process changes its own address space: `mmap`, `munmap`, `mprotect`, `brk` and
page faults. -/

namespace FarmOS.Mm

open Lib

def pgRoundUpVa (a : BitVec 64) : BitVec 64 := (a + 4095) &&& ~~~0xfff

def passiveThreshold : BitVec 64 := 0x2000000
def mmapEnd : BitVec 64 := 0x800000000

def protRead : BitVec 32 := 1
def protWrite : BitVec 32 := 2
def protExec : BitVec 32 := 4
def mapShared : BitVec 32 := 0x01
def mapAnonymous : BitVec 32 := 0x20
def mapFailed : BitVec 64 := -1

def getPermByProt (prot : BitVec 32) : Pte :=
  pteU ||| (if prot &&& protExec ≠ 0 then pteX else 0) ||| (if prot &&& protRead ≠ 0 then pteR else 0) |||
    (if prot &&& protWrite ≠ 0 then pteW else 0)

def mmapPerm (prot flags : BitVec 32) : Pte :=
  if flags &&& mapShared ≠ 0 then getPermByProt prot ||| pteShared else getPermByProt prot

-- A loop over more than every page of the 64-bit address space only ends in a panic: `munmap` has then met
-- a page that it has already unmapped.
def whilePages (more : BitVec 64 → Bool) (body : BitVec 64 → M Unit) : ℕ → BitVec 64 → M Unit
  | 0, _ => throw .notMapped
  | fuel + 1, va => if more va then do body va; whilePages more body fuel (va + 4096) else pure ()

def allPages : ℕ := 2 ^ 52 + 1

def mapPage (pd : ℕ) (perm : Pte) (va : BitVec 64) : M Unit := do
  if pteToPa (← ptLookup pd va) = 0 then
    if va < passiveThreshold then
      let pa ← vmAlloc
      panicOn (← ptMap pd va (pageToPa pa) perm)
    else
      check (has perm pteU) .assertion
      panicOn (← ptMap pd va 0 perm)

def mapEnd (start len : BitVec 64) : BitVec 64 := pgRoundUpVa (start + len - 1)

def sysMap (pd : ℕ) (start len : BitVec 64) (perm : Pte) : M ℤ := do
  whilePages (· < mapEnd start len) (mapPage pd perm) allPages (pgRoundDown start)
  pure 0

def unmapPage (pd : ℕ) (va : BitVec 64) : M Unit := do panicOn (← ptUnmap pd va)

def unmapEnd (start len : BitVec 64) : BitVec 64 := pgRoundDown (start + len - 1)

def sysUnmap (pd : ℕ) (start len : BitVec 64) : M ℤ := do
  whilePages (· ≤ unmapEnd start len) (unmapPage pd) allPages (pgRoundUpVa start)
  pure 0

def protectPage (pd : ℕ) (perm : Pte) (va : BitVec 64) : M Unit := do
  let pte ← ptLookup pd va
  if ¬ has pte pteV ∧ has pte pteU then
    check (has perm pteU) .assertion
    panicOn (← ptMap pd va 0 perm)
  else if has pte pteV then panicOn (← ptMap pd va (pteToPa pte) perm)

def sysMprotect (pd : ℕ) (addr len : BitVec 64) (prot : BitVec 32) : M ℤ := do
  whilePages (· < mapEnd addr len) (protectPage pd (getPermByProt prot)) allPages (pgRoundDown addr)
  pure 0

/-- A value returned as an `err_t`, which has 32 bits. -/
def errT (a : BitVec 64) : BitVec 64 := (a.setWidth 32).signExtend 64

def sysBrk (pd : ℕ) (brk addr : BitVec 64) : M (BitVec 64 × BitVec 64) := do
  if addr = 0 then pure (errT brk, brk)
  else if addr < brk then
    let ret ← sysUnmap pd (addr + 1) brk
    pure (if ret < 0 then BitVec.ofInt 64 ret else errT addr, addr)
  else
    let ret ← sysMap pd brk (addr - brk) (pteR ||| pteW ||| pteU)
    pure (if ret < 0 then BitVec.ofInt 64 ret else errT addr, addr)

def fileChunk (pd : ℕ) (va : BitVec 64) (perm : Pte) (data : List Byte) (i : ℕ) : M ℤ :=
  loadDataMapper pd (va + BitVec.ofNat 64 i) 0 perm ((data.drop i).take pageSize)

def fileFirst (va : BitVec 64) (data : List Byte) : ℕ :=
  if pageOff va ≠ 0 then min data.length (pageSize - pageOff va) else 0

def fileRest (pd : ℕ) (va : BitVec 64) (perm : Pte) (data : List Byte) : M (BitVec 64) := do
  let first := fileFirst va data
  let r ← loop (fun k => fileChunk pd va perm data (first + k * pageSize)) 0 ((data.length - first + 4095) / 4096)
  pure (if r ≠ 0 then mapFailed else va)

def filePages (pd : ℕ) (va : BitVec 64) (perm : Pte) (data : List Byte) : M (BitVec 64) :=
  if pageOff va ≠ 0 then do
    let r ← loadDataMapper pd va (pageOff va) perm (data.take (fileFirst va data))
    if r ≠ 0 then pure mapFailed else fileRest pd va perm data
  else fileRest pd va perm data

def fileMap (pd : ℕ) (file : List Byte) (va len : BitVec 64) (perm : Pte) (fileOffset : BitVec 32) :
    M (BitVec 64) :=
  if file.length ≤ (fileOffset.signExtend 64).toNat then pure mapFailed
  else filePages pd va perm ((file.drop fileOffset.toNat).take len.toNat)

def mmapStart (mmapAddr start len : BitVec 64) : Option (BitVec 64 × BitVec 64) :=
  if start = 0 then
    let newAddr := pgRoundUpVa (mmapAddr + len)
    if mmapEnd < newAddr then none else some (mmapAddr, newAddr)
  else some (start, mmapAddr)

def sysMmap (pd : ℕ) (mmapAddr start len : BitVec 64) (prot flags : BitVec 32) (file : Option (List Byte))
    (off : BitVec 32) : M (BitVec 64 × BitVec 64) := do
  let len := pgRoundUpVa len
  if len = 0 then pure (mapFailed, mmapAddr)
  else
    match mmapStart mmapAddr (pgRoundUpVa start) len with
    | none => pure (mapFailed, mmapAddr)
    | some (start, mmapAddr) =>
      if flags &&& mapAnonymous ≠ 0 then
        let r ← sysMap pd start len (mmapPerm prot flags)
        pure (if r < 0 then mapFailed else start, mmapAddr)
      else
        match file with
        | none => pure (mapFailed, mmapAddr)
        | some file => do return (← fileMap pd file start len (mmapPerm prot flags) off, mmapAddr)

structure Users where
  phys : Phys
  procs : List ℕ
  brk : ℕ → BitVec 64
  mmapAddr : ℕ → BitVec 64

inductive Call
  | fault (violation : Pte) (stval : BitVec 64)
  | mmap (start len : BitVec 64) (prot flags : BitVec 32) (file : Option (List Byte)) (off : BitVec 32)
  | munmap (start len : BitVec 64)
  | mprotect (addr len : BitVec 64) (prot : BitVec 32)
  | brk (addr : BitVec 64)

def Call.exec (p : ℕ) (brk mmapAddr : BitVec 64) : Call → M (BitVec 64 × BitVec 64)
  | .fault violation stval => do
    let _ ← trapPgfault p violation stval
    pure (brk, mmapAddr)
  | .mmap start len prot flags file off => do
    let (_, newAddr) ← sysMmap p mmapAddr start len prot flags file off
    pure (brk, newAddr)
  | .munmap start len => do
    let _ ← sysUnmap p start len
    pure (brk, mmapAddr)
  | .mprotect addr len prot => do
    let _ ← sysMprotect p addr len prot
    pure (brk, mmapAddr)
  | .brk addr => do
    let (_, newBrk) ← sysBrk p brk addr
    pure (newBrk, mmapAddr)

def Users.update (u : Users) (p : ℕ) (s : Phys) (brk mmapAddr : BitVec 64) : Users :=
  ⟨s, u.procs, Function.update u.brk p brk, Function.update u.mmapAddr p mmapAddr⟩

inductive Call.Step (u : Users) (p : ℕ) (c : Call) : Users → Prop
  | done {s : Phys} {brk mmapAddr : BitVec 64} : p ∈ u.procs →
      (c.exec p (u.brk p) (u.mmapAddr p)).run u.phys = .ok ((brk, mmapAddr), s) →
      Step u p c (u.update p s brk mmapAddr)

end FarmOS.Mm

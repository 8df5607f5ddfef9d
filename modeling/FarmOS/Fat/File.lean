import FarmOS.Fat.Pointer

/-! Reading, writing, extending and shrinking a file, as in `kern/fs/fat32/file.c`. -/

namespace FarmOS.Fat

open Lib

def maxDirent : ℕ := 160000

def direntSize : ℕ := 32

def pageSize : ℕ := 4096

def u32 (x : ℕ) : ℕ := x % 2 ^ 32

variable (f : Super)

section Pointers

def initLoop (file : ℕ) : ℕ → ℕ → ℕ → M Unit
  | 0, _, _ => throw .fuel
  | k + 1, i, clus =>
    if notEndCluster clus then do
      filepntSetval file i clus
      let nxt ← fatRead f clus
      initLoop file k (i + 1) nxt
    else pure ()

def filepntInit (file : ℕ) : M Unit := do
  let e ← getDirent file
  if e.pointer.valid = true ∨ e.firstClus = 0 then pure ()
  else do
    initLoop f file (tableSize + 1) 0 e.firstClus
    modifyDirent file fun e => e.setPointer { e.pointer with valid := true }

def clusFreeLoop : ℕ → ℕ → M Unit
  | 0, _ => throw .fuel
  | k + 1, clus => do
    let nxtClus ← fatRead f clus
    fatWrite f clus 0
    if notEndCluster nxtClus then clusFreeLoop k nxtClus else pure ()

def clusSequenceFree (clus : ℕ) : M Unit := clusFreeLoop f ((f.dataClusCnt + 1).toNat + 1) clus

end Pointers

section Read

-- Loops over the clusters of a file have as many rounds as its table has entries: behind them
-- `filepnt_getclusbyno` and `filepnt_setval` fail.
def readRest (file last n : ℕ) : ℕ → ℕ → ℕ → List Byte → M (List Byte)
  | 0, _, _, _ => throw .fuel
  | k + 1, clusIndex, len, dst =>
    if u32 (clusIndex * f.clusSize) ≤ last then do
      let clus ← filepntGetclusbyno file clusIndex
      let bytes ← clusterRead f clus 0 (min f.clusSize (n - len))
      readRest file last n k (clusIndex + 1) (len + min f.clusSize (n - len)) (dst ++ bytes)
    else pure dst

def readBytes (file off n : ℕ) : M (List Byte) := do
  let offset := off % f.clusSize
  let clusIndex := off / f.clusSize
  let clus ← filepntGetclusbyno file clusIndex
  let bytes ← clusterRead f clus offset (min n (f.clusSize - offset))
  readRest f file (u32 (off + n - 1)) n (tableSize - clusIndex) (clusIndex + 1) (min n (f.clusSize - offset)) bytes

def fileRead (file off n : ℕ) : M (List Byte) := do
  let e ← getDirent file
  let n := if e.fileSize < u32 (off + n) then e.fileSize - off else n
  if e.fileSize ≤ off ∨ n = 0 then pure [] else readBytes f file off n

end Read

section Write

def writeRest (file last : ℕ) : ℕ → ℕ → List Byte → M Unit
  | 0, _, _ => throw .fuel
  | k + 1, clusIndex, src =>
    if u32 (clusIndex * f.clusSize) ≤ last then do
      let clus ← filepntGetclusbyno file clusIndex
      clusterWrite f clus 0 (src.take f.clusSize)
      writeRest file last k (clusIndex + 1) (src.drop f.clusSize)
    else pure ()

def writeBytes (file off : ℕ) (src : List Byte) : M Unit := do
  let offset := off % f.clusSize
  let clusIndex := off / f.clusSize
  let clus ← filepntGetclusbyno file clusIndex
  clusterWrite f clus offset (src.take (f.clusSize - offset))
  writeRest f file (u32 (off + src.length - 1)) (tableSize - clusIndex) (clusIndex + 1) (src.drop (f.clusSize - offset))

def extendLoop (file newSize : ℕ) : ℕ → ℕ → ℕ → M Unit
  | 0, _, _ => throw .fuel
  | k + 1, clusIndex, clus =>
    if u32 ((clusIndex + 1) * f.clusSize) < newSize then do
      let clus' ← clusterAlloc f clus
      filepntSetval file (clusIndex + 1) clus'
      extendLoop file newSize k (clusIndex + 1) clus'
    else pure ()

def clusters (size : ℕ) : ℕ := u32 (size + f.clusSize - 1) / f.clusSize

def firstCluster (file : ℕ) (e : Dirent) : M ℕ :=
  if e.firstClus ≠ 0 then pure e.fileSize
  else do
    let clus ← clusterAlloc f 0
    modifyDirent file fun e => e.setFirst clus
    filepntSetval file 0 clus
    pure 1

def fileExtendWith (sync : ℕ → M Unit) (file newSize : ℕ) : M Unit := do
  let e ← getDirent file
  check (e.fileSize < newSize) .assertion
  modifyDirent file fun e => e.setSize newSize
  let oldSize ← firstCluster f file e
  let clusIndex := u32 (clusters f oldSize + 2 ^ 32 - 1)
  let clus ← filepntGetclusbyno file clusIndex
  extendLoop f file newSize (tableSize - clusIndex) clusIndex clus
  sync file

def Dirent.syncRaw (e : Dirent) : ℕ → Byte :=
  blit (blit (blit e.raw 20 (leBytes 2 (e.firstClus / 65536))) 26 (leBytes 2 (e.firstClus % 65536))) 28
    (leBytes 4 e.fileSize)

def syncWith (write : ℕ → ℕ → List Byte → M Unit) (file : ℕ) : M Unit := do
  modifyDirent file fun e => e.setRaw e.syncRaw
  let e ← getDirent file
  match e.parentDirent with
  | none => pure ()
  | some parent => write parent e.parentDirOff (slice e.raw 0 direntSize)

-- Writing back a longer file writes to its directory, and so on towards the root.
def fileWriteN : ℕ → ℕ → ℕ → List Byte → M Unit
  | 0, _, _, _ => throw .fuel
  | k + 1, file, off, src => do
    check (src ≠ []) .assertion
    let e ← getDirent file
    if e.fileSize < u32 (off + src.length) then
      fileExtendWith f (syncWith (fileWriteN k)) file (u32 (off + src.length))
    writeBytes f file off src

def fileWrite (file off : ℕ) (src : List Byte) : M Unit := fileWriteN f maxDirent file off src

def syncDirentRawdataBack (file : ℕ) : M Unit := syncWith (fileWrite f) file

def fileExtend (file newSize : ℕ) : M Unit := fileExtendWith f (syncDirentRawdataBack f) file newSize

end Write

section Shrink

def pgRoundUp (x : ℕ) : ℕ := (x + pageSize - 1) / pageSize * pageSize

def zeroFill (file newsize : ℕ) : ℕ → ℕ → M Unit
  | 0, _ => pure ()
  | k + 1, i =>
    if i < pgRoundUp newsize ∧ i < 2 ^ 31 then do
      fileWrite f file i (List.replicate (min 1024 (pgRoundUp newsize - i)) 0)
      zeroFill file newsize k (i + 1024)
    else pure ()

def zeroTail (file oldsize newsize : ℕ) : M Unit :=
  if oldsize % pageSize ≠ 0 then zeroFill f file newsize 4 newsize else pure ()

def endChain (file newClusters : ℕ) : M Unit :=
  if newClusters ≠ 0 then do
    let prevClus ← filepntGetclusbyno file (newClusters - 1)
    fatWrite f prevClus fat32Eof
  else pure ()

def clearPointers (file : ℕ) : ℕ → ℕ → M Unit
  | _, 0 => pure ()
  | i, n + 1 => do
    filepntSetval file i 0
    clearPointers file (i + 1) n

def cutTail (file oldClusters newClusters : ℕ) : M Unit :=
  if newClusters < oldClusters then do
    let lastClus ← filepntGetclusbyno file newClusters
    endChain f file newClusters
    clusSequenceFree f lastClus
    clearPointers file newClusters (oldClusters - newClusters)
  else pure ()

def fileShrink (file newsize : ℕ) : M Unit := do
  let e ← getDirent file
  check (newsize ≤ e.fileSize) .assertion
  zeroTail f file e.fileSize newsize
  cutTail f file (clusters f e.fileSize) ((newsize + f.clusSize - 1) / f.clusSize)
  modifyDirent file fun e => (e.setSize newsize).setFirst (if newsize = 0 then 0 else e.firstClus)
  syncDirentRawdataBack f file

end Shrink

end FarmOS.Fat

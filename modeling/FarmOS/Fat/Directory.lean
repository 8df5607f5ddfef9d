import FarmOS.Fat.Mount

/-! Files are created in a directory: the free entries that `dir_alloc_entry` finds, the entries of a long name, and the
new Dirent of `createItemAt`. -/

namespace FarmOS.Fat

open Lib Function

def bytesLongent : ℕ := 13

def getEntryCountByName (name : List Byte) : ℕ :=
  let len := name.length + 1
  if 11 < len then 1 + (if len % bytesLongent = 0 then len / bytesLongent else len / bytesLongent + 1) else 2

def Dirent.setRef (e : Dirent) (n : BitVec 16) : Dirent := { e with refcnt := n }

-- `dget_path` adds one to the references of a file and of all directories above it.
def shiftPath (n : BitVec 16) : ℕ → ℕ → M Unit
  | 0, _ => throw .fuel
  | k + 1, file => do
    modifyDirent file fun e => e.setRef (e.refcnt + n)
    let e ← getDirent file
    match e.parentDirent with
    | none => pure ()
    | some parent => shiftPath n k parent

def dgetPath (file : ℕ) : M Unit := shiftPath 1 maxDirent file

def wbytes (l : List Wchar) : List Byte := l.flatMap fun w => leBytes 2 w.toNat

-- What lies behind the end of a name comes from the stack.
def fillLongEntry (junk : ℕ → Wchar) (rawName : List Byte) : (ℕ → Byte) × Option (List Byte) :=
  let name := fun i => if i ≤ rawName.length then (rawName.getD i 0).setWidth 16 else junk i
  let len := rawName.length + 1
  let e1 := blit (update (fun _ => 0) 11 attrLongNameMask) 1 (wbytes (slice name 0 5))
  let e2 := blit e1 14 (wbytes (slice name 5 6))
  let e3 := blit e2 28 (wbytes (slice name 11 2))
  if len ≤ 5 then (e1, none)
  else if len ≤ 11 then (e2, none)
  else if len ≤ 13 then (e3, none)
  else (e3, some (rawName.drop 13))

def slotOff (off i : ℕ) : ℕ := u32 (off + 2 ^ 32 - i * direntSize)

def darkEntry : List Byte := invalidEntry :: List.replicate 31 0

section Code

variable (f : Super)

def findSlots (dir cnt : ℕ) : ℕ → ℕ → ℕ → M (Option ℕ)
  | 0, _, _ => pure none
  | k + 1, offset, curN => do
    let bytes ← fileRead f dir offset direntSize
    if bytes.getD 0 0 = 0 then
      if curN + 1 = cnt then pure (some offset) else findSlots dir cnt k (offset + direntSize) (curN + 1)
    else findSlots dir cnt k (offset + direntSize) 0

def darken (dir : ℕ) : ℕ → ℕ → M Unit
  | 0, _ => pure ()
  | n + 1, offset => do
    fileWrite f dir offset darkEntry
    darken dir n (offset + direntSize)

def slotStart (size cnt : ℕ) : Option ℕ → ℕ
  | some endOff => endOff - (cnt - 1) * direntSize
  | none => size

-- The loop that marks the entries leaves the offset behind the last of them, to which their length is added again.
def entryOff (start cnt : ℕ) : ℕ := start + cnt * direntSize + direntSize * (cnt - 1)

def dirAllocEntry (dir cnt : ℕ) : M ℕ := do
  check (1 ≤ cnt) .assertion
  let e ← getDirent dir
  let found ← findSlots f dir cnt ((e.fileSize + direntSize - 1) / direntSize) 0 0
  check (e.fileSize % direntSize = 0) .assertion
  darken f dir cnt (slotStart e.fileSize cnt found)
  let dirent ← direntAlloc
  modifyDirent dirent fun e' => { e' with parentDirOff := entryOff (slotStart e.fileSize cnt found) cnt }
  pure dirent

def writeLong (junk : ℕ → ℕ → Wchar) (dir off : ℕ) : ℕ → ℕ → List Byte → M Unit
  | 0, _, _ => pure ()
  | k + 1, i, name => do
    let (longDir, rest) := fillLongEntry (junk i) name
    let longDir := update longDir 0 (if i = 1 then lastLongEntry else BitVec.ofNat 8 i)
    fileWrite f dir (slotOff off i) (slice longDir 0 direntSize)
    match rest with
    | none => pure ()
    | some name => writeLong junk dir off k (i + 1) name

def Dirent.named (e : Dirent) (name : List Byte) : Dirent :=
  { e with name := name, raw := update (blit e.raw 0 (name.take 10)) 10 0, refcnt := e.refcnt + 1 }

-- The first Dirent is forgotten when `dir_alloc_entry` stores another one in its place.
def dirAllocFile (junk : ℕ → ℕ → Wchar) (dir : ℕ) (name : List Byte) : M ℕ := do
  let _ ← direntAlloc
  let dirent ← dirAllocEntry f dir (getEntryCountByName name)
  modifyDirent dirent fun e => e.named name
  let e ← getDirent dirent
  writeLong f junk dir e.parentDirOff (getEntryCountByName name - 1) 1 name
  pure dirent

def Dirent.placed (e : Dirent) (dir : ℕ) (isDir : Bool) : Dirent :=
  { e with parentDirent := some dir, type := if isDir then .dir else .file }

def Dirent.asDir (e : Dirent) (clus size : ℕ) : Dirent :=
  { e with firstClus := clus, fileSize := size, raw := update e.raw 11 attrDirectory }

def firstDirCluster (isDir : Bool) (file : ℕ) : M Unit :=
  if isDir then do
    let clus ← clusterAlloc f 0
    modifyDirent file fun e => e.asDir clus f.clusSize
  else modifyDirent file fun e => (e.setSize 0).setFirst 0

-- `createItemAt` behind the walk to the directory in which the name is free.
def createItem (junk : ℕ → ℕ → Wchar) (dir : ℕ) (name : List Byte) (isDir : Bool) : M ℕ := do
  dgetPath dir
  let file ← dirAllocFile f junk dir name
  modifyDirent file fun e => e.placed dir isDir
  firstDirCluster f isDir file
  filepntInit f file
  addChild dir file
  syncDirentRawdataBack f file
  pure file

end Code

end FarmOS.Fat

import FarmOS.Lib.Prog

/-! Path walking: the tree of `Dirent`s with its mounted file systems, the reference counts, and `walk_path` of
`kern/fs/fat32/dirent.c` with `file_close`. -/

namespace FarmOS.Walk

open Lib Function

abbrev Name := List UInt8

structure FileSystem (D : Type) where
  root : D
  mountPoint : Option D

structure Dirents (D : Type) where
  name : D → Name
  isDirectory : D → Bool
  isRm : D → Bool
  firstClus : D → BitVec 32
  head : D → Bool
  fileSystem : D → FileSystem D
  parent : D → Option D
  children : D → List D
  fs : List (FileSystem D)

namespace Dirents

variable {D : Type} [DecidableEq D]

def isRoot (t : Dirents D) (d : D) : Prop := d = (t.fileSystem d).root

instance (t : Dirents D) (d : D) : Decidable (t.isRoot d) := inferInstanceAs (Decidable (_ = _))

def up (t : Dirents D) (d : D) : Option D :=
  if t.isRoot d then (t.fileSystem d).mountPoint else t.parent d

def findFsOfDir (t : Dirents D) (dir : D) (fs : FileSystem D) : Bool :=
  match fs.mountPoint with
  | none => false
  | some m => t.firstClus m = t.firstClus dir

def findFsBy (t : Dirents D) (dir : D) : Option (FileSystem D) := t.fs.find? (t.findFsOfDir dir)

def lookup (t : Dirents D) (dir : D) (name : Name) : Option D := (t.children dir).find? fun c => t.name c = name

end Dirents

structure Tree (D : Type) [DecidableEq D] extends Dirents D where
  depth : D → ℕ
  depth_up {d e : D} : toDirents.up d = some e → depth e < depth d
  parent_some {d : D} : ¬ toDirents.isRoot d → ∃ p, parent d = some p
  child {d c : D} : c ∈ children d → parent c = some d ∧ ¬ toDirents.isRoot c
  mounted {f : FileSystem D} : f ∈ fs → fileSystem f.root = f

structure Holder where
  procIndex : BitVec 16
  cnt : BitVec 16

structure Refs (D : Type) where
  refcnt : D → BitVec 16
  holders : D → List Holder

inductive Panic
  | holders | mountFs

inductive Errno
  | nametoolong | notdir | noent

inductive Walked (D : Type)
  | found (pdir : Option D) (file : D)
  | failed (r : Errno) (pdir : Option D) (lastelem : Option Name)

def direntHolderCnt : ℕ := 256

def maxNameLen : ℕ := 128

def slash : UInt8 := 47

def dot : Name := [46]

def dotdot : Name := [46, 46]

def names (path : List UInt8) : List Name := (path.splitOn slash).filter (· ≠ [])

section

variable {D : Type} [DecidableEq D]

def addHolder (cur : BitVec 16) (hs : List Holder) : Option (List Holder) :=
  match hs.findIdx? fun h => h.procIndex = cur with
  | some i => some (hs.modify i fun h => { h with cnt := h.cnt + 1 })
  | none => if hs.length < direntHolderCnt then some (hs ++ [⟨cur, 1⟩]) else none

def dropHolder (cur : BitVec 16) (hs : List Holder) : List Holder :=
  match hs.findIdx? fun h => h.procIndex = cur, hs.getLast? with
  | some i, some last =>
    if (hs[i]?.getD last).cnt - 1 = 0 then (hs.set i last).dropLast
    else hs.modify i fun h => { h with cnt := h.cnt - 1 }
  | _, _ => hs

def dget (cur : BitVec 16) (d : D) : Prog (Refs D) Panic Unit := do
  let s ← get
  match addHolder cur (s.holders d) with
  | none => throw .holders
  | some hs =>
    set { s with
      holders := update s.holders d hs
      refcnt := update s.refcnt d (s.refcnt d + 1) }

def dput (cur : BitVec 16) (d : D) : Prog (Refs D) Panic Unit :=
  modify fun s =>
    { s with
      holders := update s.holders d (dropHolder cur (s.holders d))
      refcnt := update s.refcnt d (s.refcnt d - 1) }

namespace Tree

variable (t : Tree D) (cur : BitVec 16)

def parentFrom : ℕ → D → D
  | 0, d => d
  | n + 1, d =>
    if t.isRoot d then
      match (t.fileSystem d).mountPoint with
      | some m => parentFrom n m
      | none => d
    else (t.parent d).getD d

def getParentDirent (d : D) : D := t.parentFrom (t.depth d + 1) d

def pathFrom : ℕ → D → List D
  | 0, _ => []
  | n + 1, d =>
    d ::
      match t.up d with
      | some e => pathFrom n e
      | none => []

def path (d : D) : List D := t.pathFrom (t.depth d + 1) d

def dgetPath (d : D) : Prog (Refs D) Panic Unit := (t.path d).forM (dget cur)

def dputPath (d : D) : Prog (Refs D) Panic Unit := (t.path d).forM (dput cur)

def tryEnterMountDir (dir : D) : Prog (Refs D) Panic D :=
  if t.head dir then
    match t.findFsBy dir with
    | some fs => pure fs.root
    | none => throw .mountFs
  else pure dir

def enter (dir : D) : Prog (Refs D) Panic D := do
  let tmp ← t.tryEnterMountDir dir
  if tmp ≠ dir then dget cur tmp
  pure tmp

def walkUp (dir : D) : Prog (Refs D) Panic Unit := do
  if t.getParentDirent dir ≠ dir then dput cur dir
  if t.isRoot dir then
    match (t.fileSystem dir).mountPoint with
    | some m => dput cur m
    | none => pure ()

def walkLoop (pdir : Option D) (file : D) : List Name → Prog (Refs D) Panic (Walked D)
  | [] => do
    let file ← t.enter cur file
    pure (.found pdir file)
  | name :: rest =>
    if maxNameLen ≤ name.length then pure (.failed .nametoolong none none)
    else if t.isDirectory file = false then do
      t.dputPath cur file
      pure (.failed .notdir none none)
    else do
      let dir ← t.enter cur file
      if name = dot then walkLoop (some dir) file rest
      else if name = dotdot then do
        t.walkUp cur dir
        walkLoop (some (t.getParentDirent dir)) (t.getParentDirent file) rest
      else
        match t.lookup dir name with
        | some c => do
          dget cur c
          walkLoop (some dir) c rest
        | none => do
          t.dputPath cur dir
          pure (if rest = [] then .failed .noent (some dir) (some name) else .failed .noent none none)

def walkPath (fs : FileSystem D) (path : List UInt8) (baseDir : Option D) : Prog (Refs D) Panic (Walked D) := do
  let file := if path.head? = some slash then fs.root else baseDir.getD fs.root
  t.dgetPath cur file
  t.walkLoop cur none file (names path)

def fileClose (file : D) : Prog (Refs D) Panic Bool := do
  t.dputPath cur file
  let s ← get
  pure (t.isRm file && s.refcnt file = 0)

end Tree

end

end FarmOS.Walk

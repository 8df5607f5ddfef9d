import FarmOS.Fat.Boot
import FarmOS.Lib.Prog

/-! The state of a mounted volume: the sectors of its disk, the Dirents kept in memory with their tables of cluster
numbers, and the free pages. -/

namespace FarmOS.Fat

open Lib

inductive DirentType
  | dir | file | chardev | blkdev
deriving DecidableEq

abbrev Page := ℕ → ℕ

structure Pointer where
  second : ℕ → Option Page
  third : Option (ℕ → Option Page)
  valid : Bool

structure Dirent where
  raw : ℕ → Byte
  name : List Byte
  firstClus : ℕ
  fileSize : ℕ
  pointer : Pointer
  parentDirOff : ℕ
  type : DirentType
  isRm : Bool
  childList : List ℕ
  parentDirent : Option ℕ
  linkcnt : BitVec 16
  refcnt : BitVec 16

def Pointer.zero : Pointer := { second := fun _ => none, third := none, valid := false }

def Dirent.zero : Dirent :=
  { raw := fun _ => 0, name := [], firstClus := 0, fileSize := 0, pointer := .zero, parentDirOff := 0, type := .dir,
    isRm := false, childList := [], parentDirent := none, linkcnt := 0, refcnt := 0 }

namespace Dirent

variable (e : Dirent)

def setPointer (p : Pointer) : Dirent := { e with pointer := p }

def setFirst (c : ℕ) : Dirent := { e with firstClus := c }

def setSize (n : ℕ) : Dirent := { e with fileSize := n }

def setRaw (raw : ℕ → Byte) : Dirent := { e with raw := raw }

variable {e} {p p' : Pointer}

@[simp] lemma pointer_setPointer : (e.setPointer p).pointer = p := rfl

@[simp] lemma setPointer_setPointer : (e.setPointer p).setPointer p' = e.setPointer p' := rfl

end Dirent

structure State where
  disk : Disk
  dirents : ℕ → Dirent
  freeList : List ℕ
  pages : ℕ

inductive Panic
  | volumeFull | badCluster | outOfCluster | outOfTable | assertion | noDirent | noPage | nameOverrun | fuel
deriving DecidableEq

abbrev M := Prog State Panic

def check (b : Prop) [Decidable b] (p : Panic) : M Unit := if b then pure () else throw p

def State.update (s : State) (file : ℕ) (h : Dirent → Dirent) : State :=
  { s with dirents := Function.update s.dirents file (h (s.dirents file)) }

def State.onDisk (s : State) (d : Disk) : State := { s with disk := d }

def State.filed (s : State) (file : ℕ) (d : Disk) (e : Dirent) (n : ℕ) : State :=
  { s with disk := d, dirents := Function.update s.dirents file e, pages := n }

def getDirent (file : ℕ) : M Dirent := do return (← get).dirents file

def modifyDirent (file : ℕ) (h : Dirent → Dirent) : M Unit := modify fun s => s.update file h

def kvmAlloc : M Unit := do
  let s ← get
  check (0 < s.pages) .noPage
  set { s with pages := s.pages - 1 }

def direntAlloc : M ℕ := do
  let s ← get
  match s.freeList with
  | [] => throw .noDirent
  | i :: rest =>
    set { s with dirents := Function.update s.dirents i .zero, freeList := rest }
    pure i

section Update

variable (s : State) (file : ℕ) (h : Dirent → Dirent) {d d' : Disk}

@[simp] lemma dirents_update_self : (s.update file h).dirents file = h (s.dirents file) := Function.update_self ..

@[simp] lemma filed_filed {e e' : Dirent} {n n' : ℕ} :
    (s.filed file d e n).filed file d' e' n' = s.filed file d' e' n' := by
  rw [State.filed, State.filed, State.filed, Function.update_idem]

lemma onDisk_eq_filed (d : Disk) : s.onDisk d = s.filed file d (s.dirents file) s.pages := by
  rw [State.filed, Function.update_eq_self, State.onDisk]

@[simp] lemma dirents_onDisk (d : Disk) : (s.onDisk d).dirents = s.dirents := rfl

@[simp] lemma disk_onDisk (d : Disk) : (s.onDisk d).disk = d := rfl

@[simp] lemma filed_onDisk {e : Dirent} {n : ℕ} : (s.onDisk d).filed file d' e n = s.filed file d' e n := rfl

@[simp] lemma onDisk_filed {e : Dirent} {n : ℕ} : (s.filed file d e n).onDisk d' = s.filed file d' e n := rfl

@[simp] lemma dirents_filed_self {e : Dirent} {n : ℕ} : (s.filed file d e n).dirents file = e :=
  Function.update_self ..

lemma dirents_filed_ne {file file' : ℕ} {e : Dirent} {n : ℕ} (hne : file' ≠ file) :
    (s.filed file d e n).dirents file' = s.dirents file' := Function.update_of_ne hne ..

@[simp] lemma disk_filed {e : Dirent} {n : ℕ} : (s.filed file d e n).disk = d := rfl

@[simp] lemma freeList_filed {e : Dirent} {n : ℕ} : (s.filed file d e n).freeList = s.freeList := rfl

lemma update_eq_filed : s.update file h = s.filed file s.disk (h (s.dirents file)) s.pages := rfl

end Update

section Rules

variable {s : State} {file : ℕ} {h : Dirent → Dirent} {E : Panic → Prop} {Q : Unit → State → Prop}

@[simp] lemma wp_getDirent {Q : Dirent → State → Prop} : wp (getDirent file) Q E s ↔ Q (s.dirents file) s := by
  simp only [getDirent, wp_bind, wp_get, wp_pure]

@[simp] lemma wp_modifyDirent : wp (modifyDirent file h) Q E s ↔ Q () (s.update file h) :=
  wp_modify

lemma wp_check {b : Prop} [Decidable b] {p : Panic} : wp (check b p) Q E s ↔ (b → Q () s) ∧ (¬ b → E p) := by
  simp only [check, wp_ite, wp_pure, wp_throw]

lemma wp_kvmAlloc :
    wp kvmAlloc Q E s ↔ (0 < s.pages → Q () { s with pages := s.pages - 1 }) ∧ (s.pages = 0 → E .noPage) := by
  simp only [kvmAlloc, wp_bind, wp_get, wp_check, wp_set, Nat.not_lt, Nat.le_zero]

lemma wp_direntAlloc {Q : ℕ → State → Prop} : wp direntAlloc Q E s ↔
      (∀ i rest, s.freeList = i :: rest →
        Q i { s with dirents := Function.update s.dirents i .zero, freeList := rest }) ∧
      (s.freeList = [] → E .noDirent) := by
  rw [direntAlloc, wp_bind, wp_get]
  cases h : s.freeList with
  | nil => simp only [wp_throw, reduceCtorEq, false_imp_iff, implies_true, true_and, forall_const]
  | cons i rest =>
    simp only [wp_bind, wp_set, wp_pure, List.cons.injEq, and_imp, reduceCtorEq, false_imp_iff, and_true]
    exact ⟨fun h _ _ hi hr => hi ▸ hr ▸ h, fun h => h i rest rfl rfl⟩

end Rules

end FarmOS.Fat

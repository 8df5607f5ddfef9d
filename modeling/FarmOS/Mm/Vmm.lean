import FarmOS.Lib.Prog
import FarmOS.Mm.Pte

/-! The physical page allocator and the page table code of `kern/mm`, with the fault handlers and the
page copying of fork. A physical page is named by its index in `pages`. -/

namespace FarmOS.Mm

open Lib Function

-- After `overrun`, a write past the end of a buffer of the kernel, anything may happen.
inductive Panic
  | noFreePage | refZero | assertion | nullPointer | invalidPerm | addressTooLow | notMapped | overrun
deriving DecidableEq

structure Phys where
  mem : ℕ → ℕ → BitVec 64
  ref : ℕ → UInt32
  pageFreeList : List ℕ
  pageleft : ℕ
  kernPd : ℕ
  ident : List (ℕ × ℕ)
  ad : Bool

abbrev M := Prog Phys Panic

def Phys.setPage (s : Phys) (f : ℕ) (g : ℕ → BitVec 64) : Phys := { s with mem := update s.mem f g }

def Phys.setWord (s : Phys) (t i : ℕ) (v : BitVec 64) : Phys :=
  s.setPage t (update (s.mem t) i v)

def Phys.setRef (s : Phys) (f : ℕ) (r : UInt32) : Phys := { s with ref := update s.ref f r }

def check (b : Prop) [Decidable b] (p : Panic) : M Unit := if b then pure () else throw p

def pmAlloc : M ℕ := do
  let s ← get
  match s.pageFreeList with
  | [] => throw .noFreePage
  | pp :: rest =>
    set ({ s with pageFreeList := rest, pageleft := s.pageleft - 1 }.setPage pp fun _ => 0)
    pure pp

def pmPageIncRef (pp : ℕ) : M Unit := modify fun s => s.setRef pp (s.ref pp + 1)

def pmPageDecRef (pp : ℕ) : M Unit := do
  let s ← get
  check (s.ref pp ≠ 0) .refZero
  let s := s.setRef pp (s.ref pp - 1)
  if s.ref pp = 0 then
    set { s with pageFreeList := pp :: s.pageFreeList, pageleft := s.pageleft + 1 }
  else set s

def pteToPage (pte : Pte) : M ℕ := do
  check (membase < pteToPa pte) .assertion
  pure (paToPage (pteToPa pte))

def ppDecOnValid (pte : Pte) : M Unit :=
  if has pte pteV ∧ membase ≤ pteToPa pte then do pmPageDecRef (← pteToPage pte) else pure ()

def ppIncOnValid (pte : Pte) : M Unit :=
  if has pte pteV ∧ membase ≤ pteToPa pte then do pmPageIncRef (← pteToPage pte) else pure ()

def store (x : ℕ × ℕ) (v : Pte) : M Unit := modify fun s => s.setWord x.1 x.2 v

def load (x : ℕ × ℕ) : M Pte := do return (← get).mem x.1 x.2

def ptModify (x : ℕ × ℕ) (value : Pte) : M Unit := do
  let old ← load x
  if pteToPa old = pteToPa value then store x value
  else do
    ppDecOnValid old
    store x value
    ppIncOnValid value

def ptClear (x : ℕ × ℕ) : M Unit := do
  ppDecOnValid (← load x)
  store x 0

def ptStep (va : BitVec 64) (create : Bool) (level t : ℕ) : M (Option ℕ) := do
  let pte ← load (t, ptx va level)
  if has pte pteV then pure (some (paToPage (pteToPa pte)))
  else if create then do
    let newPage ← pmAlloc
    ptModify (t, ptx va level) (pageToPte newPage ||| pteV)
    pure (some newPage)
  else pure none

def ptWalk (pageDir : ℕ) (va : BitVec 64) (create : Bool) : M (Option (ℕ × ℕ)) := do
  match ← ptStep va create 1 pageDir with
  | none => pure none
  | some t2 =>
    match ← ptStep va create 2 t2 with
    | none => pure none
    | some t3 => pure (some (t3, ptx va 3))

def kvmAlloc : M ℕ := do
  let pp ← pmAlloc
  pmPageIncRef pp
  pure pp

def kvmFree (pp : ℕ) : M Unit := pmPageDecRef pp

def vmAlloc : M ℕ := pmAlloc

def ptLookup (pgdir : ℕ) (va : BitVec 64) : M Pte := do
  match ← ptWalk pgdir va false with
  | none => pure 0
  | some x => load x

def ptSlot (pgdir : ℕ) (va : BitVec 64) : M (ℕ × ℕ) := do
  match ← ptWalk pgdir va false with
  | some x => pure x
  | none =>
    match ← ptWalk pgdir va true with
    | some x => pure x
    | none => throw .nullPointer

def ptMap (pgdir : ℕ) (va pa : BitVec 64) (perm : Pte) : M ℤ := do
  let x ← ptSlot pgdir va
  let pte ← load x
  let ad := (← get).ad
  if has pte pteV then
    check (pa ≠ 0) .assertion
    ptModify x (mkPte ad pa perm)
    pure 0
  else if pa = 0 then
    check (has perm pteU) .assertion
    ptModify x perm
    pure 0
  else do
    check (membase ≤ pa) .assertion
    ptModify x (mkPte ad pa perm)
    pure 0

def eNoMap : ℤ := 2

def ptUnmap (pgdir : ℕ) (va : BitVec 64) : M ℤ := do
  match ← ptWalk pgdir va false with
  | none => throw .nullPointer
  | some x =>
    if (← load x) = 0 then pure (-eNoMap)
    else
      ptClear x
      pure 0

def pageIndexMax : ℕ := 512

def walkVa (i j k : ℕ) : BitVec 64 := BitVec.ofNat 64 ((i * 512 + j) * 512 + k) <<< 12

def unwrapThen (r : ℤ) (c : M ℤ) : M ℤ := if r ≠ 0 then pure r else c

def walkLeaf (pteCallback : BitVec 64 → M ℤ) (i j pt2 k : ℕ) : M ℤ := do
  if (← load (pt2, k)) ≠ 0 then pteCallback (walkVa i j k) else pure 0

def walkPt2 (pteCallback : BitVec 64 → M ℤ) (ptCallback : ℕ → M ℤ) (i pt1 j : ℕ) : M ℤ := do
  let pte ← load (pt1, j)
  if has pte pteV then
    let pt2 := paToPage (pteToPa pte)
    let r ← loop (walkLeaf pteCallback i j pt2) 0 pageIndexMax
    unwrapThen r (ptCallback pt2)
  else pure 0

def walkPt1 (pteCallback : BitVec 64 → M ℤ) (ptCallback : ℕ → M ℤ) (pd i : ℕ) : M ℤ := do
  let pte ← load (pd, i)
  if has pte pteV then
    let pt1 := paToPage (pteToPa pte)
    let r ← loop (walkPt2 pteCallback ptCallback i pt1) 0 pageIndexMax
    unwrapThen r (ptCallback pt1)
  else pure 0

def pdWalk (pd : ℕ) (pteCallback : BitVec 64 → M ℤ) (ptCallback : ℕ → M ℤ) : M ℤ := do
  let r ← loop (walkPt1 pteCallback ptCallback pd) 0 pageIndexMax
  unwrapThen r (ptCallback pd)

def vmUnmapper (pd : ℕ) (va : BitVec 64) : M ℤ := ptUnmap pd va

def kvmUnmapper (pt : ℕ) : M ℤ := do
  kvmFree pt
  pure 0

def recycleUpt (pd : ℕ) : M ℤ := pdWalk pd (vmUnmapper pd) kvmUnmapper

def duppage (pd childpd : ℕ) (va : BitVec 64) : M ℤ := do
  if (← ptLookup childpd va) = 0 then
    let parentpte ← ptLookup pd va
    let perm := ptePerm parentpte
    if ptePassive perm then ptMap childpd va 0 perm
    else if has perm pteW ∧ has perm pteU ∧ ¬ has perm pteShared then
      let perm := (perm &&& ~~~pteW) ||| pteCow
      let r ← ptMap childpd va (pteToPa parentpte) perm
      if r ≠ 0 then pure 1
      else
        let r ← ptMap pd va (pteToPa parentpte) perm
        pure (if r ≠ 0 then 1 else 0)
    else if has perm pteU then ptMap childpd va (pteToPa parentpte) perm
    else throw .invalidPerm
  else pure 0

def forkPages (pd childpd : ℕ) : M ℤ := pdWalk pd (duppage pd childpd) fun _ => pure 0

def memcpyPage (dst src : ℕ) : M Unit := modify fun s => s.setPage dst (s.mem src)

def cowHandler (pd : ℕ) (pte : Pte) (badva : BitVec 64) : M ℤ := do
  let newPage ← vmAlloc
  memcpyPage newPage (paToPage (pteToPa pte))
  ptMap pd badva (pageToPa newPage) ((ptePerm pte &&& ~~~pteCow) ||| pteW)

def passiveHandler (pd : ℕ) (pte : Pte) (badva : BitVec 64) : M ℤ := do
  check (pte >>> 10 = 0) .assertion
  let newPage ← vmAlloc
  ptMap pd badva (pageToPa newPage) pte

def pageFaultHandler (pd : ℕ) (violate : Pte) (badva : BitVec 64) : M ℤ := do
  let pte ← ptLookup pd badva
  if has violate pteW ∧ pte ≠ 0 ∧ has pte pteU ∧ ¬ has pte pteW ∧ has pte pteCow then
    cowHandler pd pte badva
  else if ¬ has pte pteV ∧ has pte pteU then passiveHandler pd pte badva
  else pure (-1)

end FarmOS.Mm

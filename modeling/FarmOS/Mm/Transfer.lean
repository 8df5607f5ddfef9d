import FarmOS.Mm.Account

/-! User loads and stores, the kernel's copies to and from user memory, and process creation. -/

namespace FarmOS.Mm

open Lib

abbrev Byte := BitVec 8

def readByte (s : Phys) (f off : ℕ) : Byte := (s.mem f (off / 8) >>> (8 * (off % 8))).setWidth 8

def setByte (w : BitVec 64) (k : ℕ) (b : Byte) : BitVec 64 :=
  (w &&& ~~~(0xff#64 <<< (8 * k))) ||| (b.setWidth 64 <<< (8 * k))

def Phys.writeByte (s : Phys) (f off : ℕ) (b : Byte) : Phys :=
  s.setWord f (off / 8) (setByte (s.mem f (off / 8)) (off % 8) b)

def Phys.writeBytes (s : Phys) (f : ℕ) : ℕ → List Byte → Phys
  | _, [] => s
  | off, b :: bs => (s.writeByte f off b).writeBytes f (off + 1) bs

def readBytes (s : Phys) (f off n : ℕ) : List Byte := (List.range n).map fun i => readByte s f (off + i)

def pageOff (va : BitVec 64) : ℕ := va.toNat % pageSize

def allows (perm pte : Pte) : Bool := has pte pteV && has pte pteU && has pte perm

def trapPgfault (pd : ℕ) (violation : Pte) (stval : BitVec 64) : M ℤ :=
  pageFaultHandler pd violation (stval &&& ~~~0xfff)

def userAccess (perm : Pte) (pd : ℕ) (va : BitVec 64) : M Bool := do
  if allows perm (← ptLookup pd va) then pure true
  else if (← trapPgfault pd perm va) ≠ 0 then pure false
  else pure (allows perm (← ptLookup pd va))

def userLoad (pd : ℕ) (va : BitVec 64) : M (Option Byte) := do
  if ← userAccess pteR pd va then
    let pte ← ptLookup pd va
    pure (some (readByte (← get) (paToPage (pteToPa pte)) (pageOff va)))
  else pure none

def userStore (pd : ℕ) (va : BitVec 64) (b : Byte) : M Bool := do
  if ← userAccess pteW pd va then
    let pte ← ptLookup pd va
    modify fun s => s.writeByte (paToPage (pteToPa pte)) (pageOff va) b
    pure true
  else pure false

def panicOn (r : ℤ) : M Unit := check (r = 0) .notMapped

lemma wp_panicOn_zero {Q : Unit → Phys → Prop} {E : Panic → Prop} {s : Phys} {r : ℤ} (hr : r = 0) (h : Q () s) :
    wp (panicOn r) Q E s := by
  rw [panicOn, check, if_pos hr]
  exact wp_pure.mpr h

def testPageFault (upd : ℕ) (va : BitVec 64) (pte permneed : Pte) : M Unit := do
  if ¬ has pte pteV then
    let _ ← pageFaultHandler upd permneed va
  if has permneed pteW ∧ ¬ has pte pteW then
    panicOn (← pageFaultHandler upd pteW va)
  if has permneed pteR ∧ ¬ has pte pteR then
    panicOn (← pageFaultHandler upd pteR va)

-- A callback is given the frame, the offset in it, the offset in the kernel buffer and a length; the flag
-- that it returns ends the copy.
abbrev Callback (κ : Type) := ℕ → ℕ → ℕ → ℕ → κ → M (κ × Bool)

section

variable {κ : Type} (upd : ℕ) (uptr : BitVec 64) (len : ℕ) (callback : Callback κ) (permneed : Pte)

def userToKernel : ℕ → ℕ → ℕ → κ → M κ
  | 0, _, _, buf => pure buf
  | fuel + 1, i, uoff, buf => do
    if i < len then
      let va := uptr + BitVec.ofNat 64 i
      let pte ← ptLookup upd va
      testPageFault upd va pte permneed
      let urealpa := pteToPa (← ptLookup upd va)
      check (0x1000 ≤ urealpa) .addressTooLow
      let ulen := min (len - i) (pageSize - uoff)
      let r ← callback (paToPage urealpa) uoff i ulen buf
      if r.2 then pure r.1 else userToKernel fuel (i + ulen) 0 r.1
    else pure buf

end

def copyOutCallback (data : List Byte) : Callback Unit := fun f off i ulen _ => do
  modify fun s => s.writeBytes f off ((data.drop i).take ulen)
  pure ((), false)

def copyInCallback : Callback (List Byte) := fun f off _ ulen buf => do
  return (buf ++ readBytes (← get) f off ulen, false)

def strncpyLoop (s : Phys) (f : ℕ) : ℕ → ℕ → ℕ → (ℕ → Byte) → (ℕ → Byte) × ℕ
  | 0, _, o, k => (k, o)
  | n + 1, t, o, k =>
    let k := Function.update k o (readByte s f t)
    if k o ≠ 0 then strncpyLoop s f n (t + 1) (o + 1) k else (k, o + 1)

def strncpyJudgeEnd (s : Phys) (f t n o : ℕ) (k : ℕ → Byte) : (ℕ → Byte) × Bool :=
  let r := strncpyLoop s f n t o k
  (r.1, r.1 (r.2 - 1) == 0)

def copyInStrCallback : Callback (ℕ → Byte) := fun f off i ulen k => do
  return strncpyJudgeEnd (← get) f off ulen i k

def copyOut (upd : ℕ) (uptr : BitVec 64) (data : List Byte) : M Unit :=
  userToKernel upd uptr data.length (copyOutCallback data) pteW data.length 0 (pageOff uptr) ()

def copyIn (upd : ℕ) (uptr : BitVec 64) (len : ℕ) : M (List Byte) :=
  userToKernel upd uptr len copyInCallback pteR len 0 (pageOff uptr) []

def copyInStr (upd : ℕ) (uptr : BitVec 64) (k : ℕ → Byte) (n : ℕ) : M (ℕ → Byte) :=
  userToKernel upd uptr n copyInStrCallback pteR n 0 (pageOff uptr) k

structure Image (L : Layout) where
  trampoline : BitVec 64
  userSigReturn : BitVec 64
  trampoline_page : membase ≤ trampoline ∧ paToPage trampoline < L.pageused
  userSigReturn_page : membase ≤ userSigReturn ∧ paToPage userSigReturn < L.pageused

variable {L : Layout}

def procInitupt (img : Image L) : M ℕ := do
  let upt ← kvmAlloc
  panicOn (← ptMap upt trampolineVa img.trampoline (pteR ||| pteX ||| pteG))
  panicOn (← ptMap upt signalTrampolineVa img.userSigReturn (pteR ||| pteX ||| pteU))
  let trapframe ← vmAlloc
  panicOn (← ptMap upt trapframeVa (pageToPa trapframe) (pteR ||| pteW))
  pure upt

def loadDataMapper (pd : ℕ) (va : BitVec 64) (offset : ℕ) (perm : Pte) (src : List Byte) : M ℤ := do
  let pa ← vmAlloc
  modify fun s => s.writeBytes pa offset src
  ptMap pd va (pageToPa pa) perm

def procFork (img : Image L) (pd : ℕ) : M ℕ := do
  let child ← procInitupt img
  let _ ← forkPages pd child
  pure child

end FarmOS.Mm

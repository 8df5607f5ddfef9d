import FarmOS.Mm.Calls
import FarmOS.Mm.TrapPages

/-! Which locks the memory and signal calls hold when they return. -/

namespace FarmOS.Mm.Calls

open Lib Lib.Lockset Triple
open Lib.Lockset.Triple (seq ret choose)

section

variable {α : Type} {h : Lock → ℕ} {l : Lock} {A : α → (Lock → ℕ) → Prop}
  {U : Unit → (Lock → ℕ) → Prop} {Z : ℤ → (Lock → ℕ) → Prop}
  {N : ℕ → (Lock → ℕ) → Prop} {V : BitVec 64 → (Lock → ℕ) → Prop} {r : ℤ}
  {pgdir pd upd fuel i fileid n : ℕ} {va start : BitVec 64} {perm permneed : Pte} {file : File}
  {prot flags fd : BitVec 32} {off : BitVec 32} {len : BitVec 64}

lemma mtxLock_locks (hU : U () (take l h)) : Triple h (mtxLock l) U := Triple.lock hU

lemma mtxUnlock_locks (hU : U () h) : Triple (take l h) (mtxUnlock l) U := unlock hU

lemma sleepOn_locks (hU : U () (take l h)) : Triple (take l h) (sleepOn l) U := sleep hU

lemma onPhys_locks {c : M α} (hA : ∀ a, A a h) : Triple h (onPhys c) A := by
  rintro v rfl
  rw [onPhys, wp_bind, wp_get]
  cases c.run v.shared.phys with
  | ok r =>
    change wp (set _ >>= fun _ => pure r.1) _ _ _
    rw [wp_bind, wp_set, wp_pure]
    exact hA r.1
  | error e =>
    change wp (throw _) _ _ _
    rw [wp_throw]
    trivial

lemma panicOn_locks (hU : U () h) : Triple h (panicOn r) U := choose (ret hU) Triple.panic

lemma given_locks {p : Prop} [Decidable p] {c : Call α} {a : α} (hc : (∀ a, A a h) → Triple h c A)
    (hA : ∀ a, A a h) : Triple h (given p c a) A := choose (hc hA) (ret (hA a))

lemma vmAlloc_locks (hN : ∀ n, N n h) : Triple h vmAlloc N :=
  seq (mtxLock_locks (seq (onPhys_locks fun pp => seq (mtxUnlock_locks (ret (hN pp))))))

lemma ptLookup_locks (hV : ∀ pte, V pte h) : Triple h (ptLookup pgdir va) V := by
  refine seq (mtxLock_locks (seq (onPhys_locks fun pte => seq (mtxUnlock_locks ?_))))
  cases pte with
  | none => exact ret (hV 0)
  | some _ => exact onPhys_locks hV

lemma ptMap_locks {pa : BitVec 64} (hZ : Z 0 h) : Triple h (ptMap pgdir va pa perm) Z := by
  have hend {s t : M Unit} : Triple (take .kvm h)
      (do onPhys s; onPhys t; mtxUnlock .kvm; pure 0 : Call ℤ) Z :=
    seq (onPhys_locks fun _ => seq (onPhys_locks fun _ => seq (mtxUnlock_locks (ret hZ))))
  refine seq (mtxLock_locks (seq (onPhys_locks fun slot => seq (onPhys_locks fun pte => ?_))))
  exact seq (Triple.look fun k => choose hend (choose hend hend))

lemma ptUnmap_locks (hZ : Z 0 h) (he : Z (-eNoMap) (take .kvm h)) : Triple h (ptUnmap pgdir va) Z := by
  refine seq (mtxLock_locks (seq (onPhys_locks fun pte => ?_)))
  cases pte with
  | none => exact Triple.panic
  | some _ =>
    exact seq (onPhys_locks fun _ => choose (ret he) (seq (onPhys_locks fun _ => seq (mtxUnlock_locks (ret hZ)))))

lemma unmapPage_locks (hU : U () h) : Triple h (unmapPage pd va) U := by
  refine seq (ptUnmap_locks (panicOn_locks hU) ?_)
  rw [panicOn, if_neg (by decide)]
  exact Triple.panic

lemma pageFaultHandler_locks {violate : Pte} {badva : BitVec 64} (hZ : ∀ r, Z r h) :
    Triple h (pageFaultHandler pd violate badva) Z := by
  refine seq (ptLookup_locks fun pte => choose ?_ (choose ?_ (ret (hZ _))))
  · exact seq (vmAlloc_locks fun _ => seq (onPhys_locks fun _ => ptMap_locks (hZ 0)))
  · exact seq (onPhys_locks fun _ => seq (vmAlloc_locks fun _ => ptMap_locks (hZ 0)))

lemma testPageFault_locks {pte : Pte} (hU : U () h) : Triple h (testPageFault upd va pte permneed) U := by
  refine seq (given_locks (fun hA => pageFaultHandler_locks hA) fun _ => ?_)
  refine seq (given_locks (fun hA => pageFaultHandler_locks hA) fun _ => seq (panicOn_locks ?_))
  exact seq (given_locks (fun hA => pageFaultHandler_locks hA) fun _ => panicOn_locks hU)

lemma userToKernel_locks {uptr : BitVec 64} {len : ℕ} {callback : Callback α}
    {uoff : ℕ} {buf : α} (hA : ∀ a, A a h) :
    Triple h (userToKernel upd uptr len callback permneed fuel i uoff buf) A := by
  induction fuel generalizing i uoff buf with
  | zero => exact ret (hA buf)
  | succ fuel ih =>
    refine choose (seq (ptLookup_locks fun pte => seq (testPageFault_locks (seq (ptLookup_locks fun pte' => ?_)))))
      (ret (hA buf))
    exact seq (onPhys_locks fun _ => seq (onPhys_locks fun r => choose (ret (hA r.1)) ih))

lemma whilePages_locks {more : BitVec 64 → Bool} {body : BitVec 64 → Call Unit}
    (hbody : ∀ va {U : Unit → (Lock → ℕ) → Prop}, U () h → Triple h (body va) U)
    (hU : U () h) : Triple h (whilePages more body fuel va) U := by
  induction fuel generalizing va with
  | zero => exact unfinished
  | succ fuel ih => exact choose (seq (hbody va ih)) (ret hU)

lemma mapPage_locks (hU : U () h) : Triple h (mapPage pd perm va) U := by
  refine seq (ptLookup_locks fun pte => choose (choose ?_ ?_) (ret hU))
  · exact seq (vmAlloc_locks fun _ => seq (ptMap_locks (panicOn_locks hU)))
  · exact seq (onPhys_locks fun _ => seq (ptMap_locks (panicOn_locks hU)))

lemma sysMap_locks (hZ : Z 0 h) : Triple h (sysMap pd start len perm) Z :=
  seq (whilePages_locks (fun _ _ => mapPage_locks) (ret hZ))

lemma sysUnmap_locks (hZ : Z 0 h) : Triple h (sysUnmap pd start len) Z :=
  seq (mtxLock_locks (seq (whilePages_locks (fun _ _ => unmapPage_locks) (seq (mtxUnlock_locks (ret hZ))))))

lemma allocFileid_locks (hN : ∀ n, N n h) : Triple h (allocFileid fuel) N := by
  induction fuel with
  | zero => exact unfinished
  | succ fuel ih =>
    refine seq (mtxLock_locks (seq (Triple.look fun k => ?_)))
    cases (List.range maxKloadFile).find? fun i => !k.loaded i with
    | some i => exact seq (Triple.write (seq (mtxUnlock_locks (ret (hN i)))))
    | none => exact seq (mtxUnlock_locks (seq (Triple.interfere ih)))

lemma freeFileid_locks (hU : U () h) : Triple h (freeFileid fileid) U :=
  seq (mtxLock_locks (seq (Triple.look fun _ => choose (seq (Triple.write (mtxUnlock_locks hU))) Triple.panic)))

lemma diskRw_locks (hU : U () h) : Triple h (diskRw fuel) U := by
  have hwait {n : ℕ} : Triple (take .virtio h) (waitDisk n) fun _ h' => Triple h' (mtxUnlock .virtio) U := by
    induction n with
    | zero => exact unfinished
    | succ n ih => exact seq (Triple.look fun _ => choose (ret (mtxUnlock_locks hU)) (seq (sleepOn_locks ih)))
  exact seq (mtxLock_locks (seq (Triple.write (seq hwait))))

lemma forEach_locks {body : ℕ → Call Unit} {is : List ℕ}
    (hbody : ∀ i {U : Unit → (Lock → ℕ) → Prop}, U () h → Triple h (body i) U) (hU : U () h) :
    Triple h (forEach body is) U := by
  induction is with
  | nil => exact ret hU
  | cons i is ih => exact seq (hbody i ih)

lemma bufRead_locks {sector : ℕ} (hU : U () h) : Triple h (bufRead fuel sector) U := by
  refine seq (Triple.look fun _ => choose (ret hU) (seq (given_locks (fun hA => diskRw_locks (hA ())) fun _ => ?_)))
  exact diskRw_locks hU

lemma fileRead_locks {off : ℕ} (hN : ∀ n, N n h) : Triple h (fileRead fuel file off n) N := by
  have hend {n : ℕ} : Triple (take .file h) (do mtxUnlock .file; pure n : Call ℕ) N :=
    seq (mtxUnlock_locks (ret (hN n)))
  exact seq (mtxLock_locks (choose hend (choose hend (seq (forEach_locks (fun _ _ => bufRead_locks) hend)))))

lemma fileLoadByDirent_locks (hN : ∀ n, N n h) : Triple h (fileLoadByDirent fuel file) N := by
  refine seq (allocFileid_locks fun fileid => seq (Triple.look fun k => seq (forEach_locks (fun i U hU => ?_) ?_)))
  · exact seq (vmAlloc_locks fun pa => seq (ptMap_locks (panicOn_locks hU)))
  · exact seq (fileRead_locks fun _ => ret (hN fileid))

lemma fileUnload_locks (hU : U () h) : Triple h (fileUnload fileid file) U :=
  seq (Triple.look fun _ => seq (forEach_locks (fun _ _ => unmapPage_locks) (freeFileid_locks hU)))

lemma loadDataMapper_locks {offset : ℕ} {src : List Byte} (hZ : Z 0 h) :
    Triple h (loadDataMapper pd va offset perm src) Z :=
  seq (vmAlloc_locks fun _ => seq (onPhys_locks fun _ => ptMap_locks hZ))

lemma loop_locks {body : ℕ → Call ℤ}
    (hbody : ∀ i {Z : ℤ → (Lock → ℕ) → Prop}, Z 0 h → Triple h (body i) Z) (hZ : Z 0 h) :
    Triple h (loop body i n) Z := by
  induction n generalizing i with
  | zero => exact ret hZ
  | succ n ih =>
    refine seq (hbody i ?_)
    exact ih

lemma fileMap_locks {fileOffset : BitVec 32}
    (hV : ∀ r, V r h) : Triple h (fileMap fuel pd file va len perm fileOffset) V := by
  refine seq (fileLoadByDirent_locks fun fileid => choose (ret (hV _)) (seq (mtxLock_locks (seq ?_))))
  have hrest {binary : List Byte} {first : ℕ} : Triple (take .proc h) (do
      let r ← mapRest pd va perm binary first
      if r ≠ 0 then pure mapFailed
      else
        mtxUnlock .proc
        fileUnload fileid file
        pure va) V := by
    refine seq (loop_locks (fun _ _ => loadDataMapper_locks) ?_)
    rw [if_neg (by simp)]
    exact seq (mtxUnlock_locks (seq (fileUnload_locks (ret (hV va)))))
  refine choose (loadDataMapper_locks ?_) (ret ?_)
  · rw [if_neg (by simp)]
    exact hrest
  · rw [if_neg (by simp)]
    exact hrest

lemma mmapTo_locks (hV : ∀ r, V r h) :
    Triple (take .proc h) (mmapTo fuel pd start len prot flags fd off) V := by
  have hend {r : BitVec 64} : Triple (take .proc h) (do mtxUnlock .proc; pure r : Call (BitVec 64)) V :=
    seq (mtxUnlock_locks (ret (hV r)))
  refine choose (seq (sysMap_locks (choose hend hend))) (seq (mtxUnlock_locks (seq (Triple.look fun k => ?_))))
  cases k.dirent fd with
  | none => exact ret (hV _)
  | some file => exact fileMap_locks hV

lemma sysMmap_locks (hV : ∀ r, V r h) : Triple h (sysMmap fuel pd start len prot flags fd off) V := by
  have hend : Triple (take .proc h) (do mtxUnlock .proc; pure mapFailed : Call (BitVec 64)) V :=
    seq (mtxUnlock_locks (ret (hV _)))
  refine seq (mtxLock_locks (choose hend (choose (seq (Triple.look fun k => choose hend ?_)) (mmapTo_locks hV))))
  exact seq (Triple.write (mmapTo_locks hV))

lemma sysSigprocmask_locks {how : BitVec 32} {set oldset sigsetsize : BitVec 64} {stack : SigSet}
    (hsize : sigsetSize ≤ sigsetsize.toNat → Z (-1) h) (hhow : how ≤ 2 → Z 0 h)
    (hbad : ¬ sigsetSize ≤ sigsetsize.toNat → ¬ how ≤ 2 → Z (-1) (take .thread h)) :
    Triple h (sysSigprocmask pd how set oldset sigsetsize stack) Z := by
  rw [sysSigprocmask]
  by_cases hs : sigsetSize ≤ sigsetsize.toNat
  · rw [if_pos hs]
    exact ret (hsize hs)
  rw [if_neg hs]
  have hend (hle : how ≤ 2) : Triple (take .thread h) (do mtxUnlock .thread; pure 0 : Call ℤ) Z :=
    seq (mtxUnlock_locks (ret (hhow hle)))
  refine seq (given_locks (fun hA => userToKernel_locks hA) fun bytes => seq (mtxLock_locks ?_))
  refine seq (Triple.look fun k => seq (given_locks (fun hA => userToKernel_locks hA) fun _ => ?_))
  split_ifs with h0 h1 h2
  · exact seq (given_locks (fun hA => Triple.write (hA ())) fun _ => hend (by simp [h0]))
  · exact seq (given_locks (fun hA => Triple.write (hA ())) fun _ => hend (by simp [h1]))
  · exact seq (Triple.write (hend (by simp [h2])))
  · refine ret (hbad hs fun hle => ?_)
    bv_omega

end

inductive MemCall
  | ptUnmap (pgdir : ℕ) (va : BitVec 64)
  | unmap (pd : ℕ) (start len : BitVec 64)
  | mmap (pd : ℕ) (start len : BitVec 64) (prot flags fd off : BitVec 32)
  | fileMap (pd : ℕ) (file : File) (va len : BitVec 64) (perm : Pte) (fileOffset : BitVec 32)
  | sigprocmask (pd : ℕ) (how : BitVec 32) (set oldset sigsetsize : BitVec 64) (stack : SigSet)

def MemCall.exec (fuel : ℕ) : MemCall → Call ℤ
  | .ptUnmap pgdir va => Calls.ptUnmap pgdir va
  | .unmap pd start len => sysUnmap pd start len
  | .mmap pd start len prot flags fd off => do
    let r ← sysMmap fuel pd start len prot flags fd off
    pure r.toInt
  | .fileMap pd file va len perm fileOffset => do
    let r ← Calls.fileMap fuel pd file va len perm fileOffset
    pure r.toInt
  | .sigprocmask pd how set oldset sigsetsize stack => sysSigprocmask pd how set oldset sigsetsize stack

def MemCall.Done (r : ℤ) : MemCall → Prop
  | .ptUnmap _ _ => r = 0
  | .sigprocmask _ how _ _ sigsetsize _ => how ≤ 2 ∨ sigsetSize ≤ sigsetsize.toNat
  | _ => True

lemma exec_locks {h : Lock → ℕ} (c : MemCall) (fuel : ℕ) :
    Triple h (c.exec fuel) fun r h' => h' = h ↔ c.Done r := by
  cases c with
  | ptUnmap pgdir va =>
    exact ptUnmap_locks (iff_of_true rfl rfl) (iff_of_false (take_ne _ _) (by decide : ¬ (-eNoMap : ℤ) = 0))
  | unmap pd start len => exact sysUnmap_locks (iff_of_true rfl trivial)
  | mmap pd start len prot flags fd off => exact seq (sysMmap_locks fun _ => ret (iff_of_true rfl trivial))
  | fileMap pd file va len perm fileOffset => exact seq (fileMap_locks fun _ => ret (iff_of_true rfl trivial))
  | sigprocmask pd how set oldset sigsetsize stack =>
    refine sysSigprocmask_locks ?_ ?_ ?_
    · exact fun hs => iff_of_true rfl (.inr hs)
    · exact fun hh => iff_of_true rfl (.inl hh)
    · exact fun hs hh => iff_of_false (take_ne _ _) (by rintro (hle | hle) <;> contradiction)

/-- The kernel as it is when a thread that holds the locks `h` has obtained `kvmlock`. -/
def Kernel.obtained (k : Kernel) (h : Lock → ℕ) (others : List Kernel) : Kernel :=
  if h .kvm = 0 then others.headD k else k

/-- The condition on a call: for `ptUnmap`, on the entry of the page in the state in which it holds `kvmlock`. -/
def MemCall.Released (k : Kernel) : MemCall → Prop
  | .ptUnmap pgdir va => Mm.look k.phys pgdir va ≠ 0
  | .sigprocmask _ how _ _ sigsetsize _ => how ≤ 2 ∨ sigsetSize ≤ sigsetsize.toNat
  | _ => True

section

variable {α : Type} {Q : α → Lockset.View Lock Kernel → Prop} {E : Halt Lock → Prop}
  {v : Lockset.View Lock Kernel} {pgdir : ℕ} {va : BitVec 64} {k : Kernel} {h : Lock → ℕ} {others : List Kernel}

lemma wp_onPhys {c : M α} {a : α} {s : Phys} (hc : c.run v.shared.phys = .ok (a, s))
    (hQ : Q a { v with shared := { v.shared with phys := s } }) : wp (onPhys c) Q E v := by
  rw [onPhys, wp_bind, wp_get, hc]
  change wp (set _ >>= fun _ => pure a) _ _ _
  rwa [wp_bind, wp_set, wp_pure]

lemma ptWalk_run (s : Phys) : (ptWalk pgdir va false).run s = .ok (slot s pgdir va, s) := by
  obtain ⟨_, _, hrun, rfl, rfl⟩ := wp_total (wp_ptWalk_false.mpr ⟨rfl, rfl⟩ :
    wp (ptWalk pgdir va false) (fun a s' => a = slot s pgdir va ∧ s' = s) (fun _ => False) s)
  exact hrun

lemma wp_mtxLock_kvm {c : Call α} (hQ : ∀ v, v.shared = k.obtained h others → wp c Q (fun _ => True) v) :
    wp (mtxLock .kvm >>= fun _ => c) Q (fun _ => True) (.enter k h others) := by
  rw [wp_bind, mtxLock, Lockset.lock, wp_bind, wp_get]
  split
  · next h0 =>
    rw [wp_bind, Lockset.interfere, wp_modify, wp_modify]
    refine hQ _ (Eq.trans ?_ (if_pos h0).symm)
    cases others with
    | nil => rfl
    | cons k' ks => rfl
  · next h0 =>
    rw [show Lock.recursive .kvm = true from rfl, if_pos rfl, wp_modify]
    exact hQ _ (if_neg h0).symm

lemma ptUnmap_done : wp (ptUnmap pgdir va) (fun r _ => r = 0 ↔ Mm.look (k.obtained h others).phys pgdir va ≠ 0)
    (fun _ => True) (.enter k h others) := by
  refine wp_mtxLock_kvm fun v hv => ?_
  rw [wp_bind, ← hv, Mm.look]
  refine wp_onPhys (ptWalk_run _) ?_
  cases slot v.shared.phys pgdir va with
  | none => exact wp_throw.mpr trivial
  | some x =>
    rw [wp_bind]
    refine wp_onPhys (c := load x) rfl ?_
    split
    · next h0 => exact wp_pure.mpr (iff_of_false (by decide) (not_not.mpr h0))
    · next h0 =>
      exact wp_bind.mpr (wp_any fun _ _ => wp_bind.mpr (wp_any fun _ _ => wp_pure.mpr (iff_of_true rfl h0)))

lemma exec_done (c : MemCall) (fuel : ℕ) : wp (c.exec fuel) (fun r _ => c.Done r ↔ c.Released (k.obtained h others))
    (fun _ => True) (.enter k h others) := by
  cases c with
  | ptUnmap pgdir va => exact ptUnmap_done
  | unmap | mmap | fileMap | sigprocmask => exact wp_any fun _ _ => Iff.rfl

end

def Balanced (c : MemCall) (k : Kernel) (h : Lock → ℕ) :
    Except (Halt Lock) (ℤ × Lockset.View Lock Kernel) → Prop
  | .ok (_, v) => v.held = h ↔ c.Released k
  | .error (.notHeld _) => False
  | .error _ => True

theorem memory_calls_release_locks (c : MemCall) (fuel : ℕ) (k : Kernel) (h : Lock → ℕ) (others : List Kernel) :
    Balanced c (k.obtained h others) h ((c.exec fuel).run (.enter k h others)) := by
  have hc := exec_locks c fuel (.enter k h others) rfl
  cases ho : (c.exec fuel).run (.enter k h others) with
  | ok r =>
    have hr := wp_of_ok hc ho
    have hd := wp_of_ok (exec_done c fuel) ho
    exact hr.trans hd
  | error e =>
    have hm := wp_of_error hc ho
    cases e with
    | notHeld l => exact hm
    | notReentrant l => trivial
    | panic => trivial
    | unfinished => trivial

section Leaks

def Kernel.of (s : Phys) : Kernel where
  phys := s
  mmapAddr := 0
  sigmask := 0
  dirent := fun _ => none
  loaded := fun _ => false
  cached := fun _ => false
  dirty := fun _ => false
  diskDone := false

def MemCall.Keeps (c : MemCall) (s : Phys) (r : ℤ) (l : Lock) : Prop :=
  ∃ v, (c.exec 1).run (.enter (Kernel.of s) (fun _ => 0) []) = .ok (r, v) ∧ v.held l = 1

def MemCall.keeps (c : MemCall) (s : Phys) (r : ℤ) (l : Lock) : Bool :=
  returns (c.exec 1) (.enter (Kernel.of s) (fun _ => 0) []) fun r' v => r' == r && v.held l == 1

lemma keeps_of_eval {c : MemCall} {s : Phys} {r : ℤ} {l : Lock} (h : c.keeps s r l = true) : c.Keeps s r l := by
  obtain ⟨r', v, hv, hk⟩ := exists_of_returns h
  rw [Bool.and_eq_true, beq_iff_eq, beq_iff_eq] at hk
  exact ⟨v, hk.1 ▸ hv, hk.2⟩

theorem ptUnmap_and_sigprocmask_keep_locks : ∃ p s, (procInitupt smallImage).run smallMachine = .ok (p, s) ∧
    (MemCall.ptUnmap p (trapframeVa - 0x8000)).Keeps s (-eNoMap) .kvm ∧
    (MemCall.sigprocmask p 3 0 0 8 0).Keeps s (-1) .thread := by
  have hrun : returns (procInitupt smallImage) smallMachine (fun p s =>
      (MemCall.ptUnmap p (trapframeVa - 0x8000)).keeps s (-eNoMap) .kvm &&
      (MemCall.sigprocmask p 3 0 0 8 0).keeps s (-1) .thread) = true := by decide +kernel
  obtain ⟨p, s, hinit, hkeeps⟩ := exists_of_returns hrun
  rw [Bool.and_eq_true] at hkeeps
  exact ⟨p, s, hinit, keeps_of_eval hkeeps.1, keeps_of_eval hkeeps.2⟩

end Leaks

end FarmOS.Mm.Calls

import FarmOS.Fat.Mirror

/-! The files of a volume as independent arrays of bytes, and the offsets for which `file_read` and `file_write` keep to
them. -/

namespace FarmOS.Fat

open Lib Function

structure Plain where
  size : ℕ
  bytes : ℕ → Byte
  zero (o : ℕ) : size ≤ o → bytes o = 0

namespace Plain

def empty : Plain := ⟨0, fun _ => 0, fun _ _ => rfl⟩

def write (a : Plain) (off : ℕ) (src : List Byte) : Plain where
  size := max a.size (off + src.length)
  bytes := blit a.bytes off src
  zero o ho := (blit_of_ge _ _ _ (by omega)).trans (a.zero o (by omega))

def read (a : Plain) (off n : ℕ) : List Byte := slice a.bytes off (min n (a.size - off))

end Plain

inductive FileOp
  | write (file off : ℕ) (src : List Byte)
  | read (file off n : ℕ)

namespace FileOp

def file : FileOp → ℕ
  | write i _ _ | read i _ _ => i

def exec (f : Super) : FileOp → M (List Byte)
  | write i off src => do
    fileWrite f i off src
    pure []
  | read i off n => fileRead f i off n

def Allowed (f : Super) : FileOp → Prop
  | write _ off src => src ≠ [] ∧ Fitting f (off + src.length)
  | read _ off n => off + n < 2 ^ 32

def spec (c : ℕ → Plain) : FileOp → (ℕ → Plain) × List Byte
  | write i off src => (update c i ((c i).write off src), [])
  | read i off n => (c, (c i).read off n)

def Step (f : Super) (F : ℕ → Prop) (s : State) (e : FileOp × List Byte) (s' : State) : Prop :=
  F e.1.file ∧ e.1.Allowed f ∧ (e.1.exec f).run s = .ok (e.2, s')

end FileOp

section Refine

variable {f : Super} {a : AFile} {off : ℕ} {src : List Byte} {t : Tables} {v v' : View} {own own' : ℕ → List ℕ}
  {s' : State} {c : ℕ → Plain} {F : ℕ → Prop} {op : FileOp}

lemma AFile.bytes_write (hf : Consistent f) (h : ∀ o, a.size ≤ o → a.bytes o = 0) :
    (a.write f off src).bytes = Lib.blit a.bytes off src := by
  have hext {n : ℕ} : (a.extend f n).bytes = a.bytes := by
    rw [AFile.extend]
    split_ifs with hle
    · rfl
    · funext o
      refine ite_eq_left_iff.mpr fun ho => (h o ?_).symm
      have hlast := mt (lt_cls hf).mpr ho
      exact Nat.le_trans (Nat.not_lt.mp hlast) (Nat.div_mul_le_self _ _)
  rw [AFile.write, AFile.blit]
  split_ifs
  · exact congrArg (Lib.blit · off src) hext
  · rfl

structure Tables.Holds (f : Super) (t : Tables) (v : View) (own : ℕ → List ℕ) (F : ℕ → Prop) (s' : State)
    (v' : View) (own' : ℕ → List ℕ) (c : ℕ → Plain) : Prop where
  inv : Tables.Inv f ⟨s', t.opened⟩ v' own'
  par : s'.par = t.state.par
  size (i : ℕ) : F i → (files f s' v' own' i).size = (c i).size
  bytes (i : ℕ) : F i → (files f s' v' own' i).bytes = (c i).bytes
  others (j : ℕ) : ¬ F j → (∀ k, t.state.par k ≠ some j) → files f s' v' own' j = files f t.state v own j

lemma not_above_of_leaf {par : ℕ → Option ℕ} {i j : ℕ} (h : ∀ k, par k ≠ some j) : ¬ Above par i j := fun ha => by
  obtain ⟨k, -, hk⟩ := Relation.TransGen.tail'_iff.mp ha
  exact h k hk

namespace Tables.Holds

variable (h : t.Holds f v own F s' v' own' c) (hf : Consistent f)
  (hF : ∀ i, F i → i ∈ t.opened ∧ ∀ j, t.state.par j ≠ some i)
include h hf hF

lemma wp_exec (hop : F op.file) (ha : op.Allowed f) :
    wp (op.exec f) (fun r s'' => ∃ c', op.spec c = (c', r) ∧ ∃ v'' own'', t.Holds f v own F s'' v'' own'' c')
      Full s' := by
  cases op with
  | write i off src =>
    refine wp_seq (h.inv.wp_write hf (hF i hop).1 ha.1 ha.2) fun _ s'' ⟨v'', own'', hinv, hw⟩ => wp_pure.mpr ?_
    have hself := hw.self
    have hother {j : ℕ} (hj : j ≠ i) (hl : ∀ k, t.state.par k ≠ some j) :
        files f s'' v'' own'' j = files f s' v' own' j := by
      refine (hw.other hj (not_above_of_leaf fun k => ?_)).2.2
      change s'.par k ≠ some j
      rw [h.par]
      exact hl k
    refine ⟨_, rfl, v'', own'', hinv, (par_eq hw.rest).trans h.par, fun j hj => ?_, fun j hj => ?_, fun j hj hl => ?_⟩
    · by_cases hji : j = i
      · rw [hji, hself, AFile.size_write, update_self, h.size i hop]
        rfl
      · rw [hother hji (hF j hj).2, update_of_ne hji, h.size j hj]
    · by_cases hji : j = i
      · rw [hji, hself, AFile.bytes_write hf, update_self, h.bytes i hop]
        · rfl
        · intro o ho
          rw [h.bytes i hop]
          exact (c i).zero o (h.size i hop ▸ ho)
      · rw [hother hji (hF j hj).2, update_of_ne hji, h.bytes j hj]
    · have hji : j ≠ i := fun he => hj (he ▸ hop)
      rw [hother hji hl]
      exact h.others j hj hl
  | read i off n =>
    refine wp_mono (wp_readOpened hf (h.inv.files.opened (hF i hop).1) (.inr ha)) fun r s'' ⟨hs, hr⟩ => ?_
    refine ⟨c, Prod.ext rfl ?_, v', own', hs ▸ h⟩
    rw [hr, FileOp.spec, Plain.read, ← h.size i hop, ← h.bytes i hop]
    rfl

end Tables.Holds

theorem files_are_byte_arrays {es : List (FileOp × List Byte)} (hf : Consistent f) (h : t.Inv f v own)
    (hF : ∀ i, F i → (i ∈ t.opened ∧ ∀ j, t.state.par j ≠ some i) ∧ (t.state.dirents i).fileSize = 0)
    (hrun : Run (FileOp.Step f F) t.state es s') :
    ∃ c v' own', Run (fun c e c' => FileOp.spec c e.1 = (c', e.2)) (fun _ => .empty) es c ∧
      (∀ i, F i → (files f s' v' own' i).size = (c i).size ∧ (files f s' v' own' i).bytes = (c i).bytes) ∧
      (∀ j, ¬ F j → (∀ k, t.state.par k ≠ some j) → files f s' v' own' j = files f t.state v own j) ∧
      ∀ (op : FileOp) p, F op.file → op.Allowed f → (op.exec f).run s' = .error p → p = .volumeFull ∨ p = .noPage := by
  have hstart : t.Holds f v own F t.state v own fun _ => .empty := by
    refine ⟨h, rfl, fun i hi => (hF i hi).2, fun i hi => ?_, fun _ _ _ => rfl⟩
    have hnil : own i = [] := (h.files.owns i).empty.mpr (hF i hi).2
    change content f v (own i) = fun _ => 0
    rw [hnil]
    rfl
  have hleaf (i : ℕ) (hi : F i) := (hF i hi).1
  obtain ⟨c, hspec, v', own', h'⟩ := hrun.simulate (R := fun s c => ∃ v' own', t.Holds f v own F s v' own' c)
    ⟨v, own, hstart⟩ fun s e s' c ⟨_, _, hc⟩ ⟨hop, ha, he⟩ => wp_of_ok (hc.wp_exec hf hleaf hop ha) he
  refine ⟨c, v', own', hspec, fun i hi => ⟨h'.size i hi, h'.bytes i hi⟩, h'.others, fun op p hop ha hp => ?_⟩
  have hfull : Full p := wp_of_error (h'.wp_exec hf hleaf hop ha) hp
  exact hfull

theorem files_are_byte_arrays_pair : ∃ s', Run (FileOp.Step smallSuper (· < 2)) blank.state
      [(.write 0 3 [7, 8], []), (.read 0 1 10, [0, 0, 7, 8])] s' ∧
    ∃ c, Run (fun c e c' => FileOp.spec c e.1 = (c', e.2)) (fun _ => .empty)
      [(.write 0 3 [7, 8], []), (.read 0 1 10, [0, 0, 7, 8])] c := by
  have heval : returns ((FileOp.write 0 3 [7, 8]).exec smallSuper) blank.state (fun r s => decide (r = []) &&
      returns ((FileOp.read 0 1 10).exec smallSuper) s fun r _ => r = [0, 0, 7, 8]) = true := by decide +kernel
  obtain ⟨r, s₁, h₁, h⟩ := exists_of_returns heval
  obtain ⟨hr, h⟩ := Bool.and_eq_true_iff.mp h
  obtain ⟨r', s₂, h₂, hr'⟩ := exists_of_returns h
  rw [of_decide_eq_true hr] at h₁
  rw [of_decide_eq_true hr'] at h₂
  have hrun : Run (FileOp.Step smallSuper (· < 2)) blank.state
      [(.write 0 3 [7, 8], []), (.read 0 1 10, [0, 0, 7, 8])] s₂ :=
    .cons ⟨by decide, ⟨nofun, by decide⟩, h₁⟩ (.single ⟨by decide, show 1 + 10 < 2 ^ 32 by decide, h₂⟩)
  have hF (i : ℕ) (hi : i < 2) : (i ∈ [0, 1] ∧ ∀ j, blank.state.par j ≠ some i) ∧
      (blank.state.dirents i).fileSize = 0 := ⟨⟨by simp; omega, fun _ => nofun⟩, rfl⟩
  obtain ⟨c, -, -, hc, -⟩ := files_are_byte_arrays consistent_smallSuper (inv_blank [0, 1]) hF hrun
  exact ⟨s₂, hrun, c, hc⟩

def readLength (size off n : ℕ) : ℕ :=
  if size ≤ off then 0 else if size < u32 (off + n) then size - off else n

/-- `file_read` with the `int` it returns: the length as the code has computed it. -/
def fileReadInt (f : Super) (file off n : ℕ) : M (ℤ × List Byte) := do
  let e ← getDirent file
  let bytes ← fileRead f file off n
  pure ((BitVec.ofNat 32 (readLength e.fileSize off n)).toInt, bytes)

lemma toInt_eq_iff {a m : ℕ} (ha : a < 2 ^ 32) : (BitVec.ofNat 32 a).toInt = m ↔ a = m ∧ m < 2 ^ 31 := by
  rw [BitVec.toInt_eq_toNat_cond, BitVec.toNat_ofNat, Nat.mod_eq_of_lt ha]
  split <;> omega

lemma readLength_eq_iff {size off n : ℕ} (hs : size < 2 ^ 32) (hn : n < 2 ^ 32) :
    (BitVec.ofNat 32 (readLength size off n)).toInt = (min n (size - off) : ℕ) ↔
      size ≤ off ∨ off + n < 2 ^ 32 ∧ min n (size - off) < 2 ^ 31 := by
  have hlt : readLength size off n < 2 ^ 32 := by
    unfold readLength
    split_ifs <;> omega
  rw [toInt_eq_iff hlt, readLength, u32]
  split_ifs <;> omega

end Refine

end FarmOS.Fat

import FarmOS.Fat.Volume

/-! The table of the cluster numbers of a file, `kern/fs/fat32/filepnt.c`: five pages, then a page of pages. -/

namespace FarmOS.Fat

open Lib Function

def pageNClusNo : ℕ := 1024

def nDirentSecPointer : ℕ := 5

def nThirdPointer : ℕ := 512

def tableSize : ℕ := (nDirentSecPointer + nThirdPointer) * pageNClusNo

namespace Pointer

variable (p : Pointer)

def twice (ind1 : ℕ) : Option Page :=
  if ind1 < nDirentSecPointer then p.second ind1
  else if ind1 - nDirentSecPointer < nThirdPointer then p.third.bind (· (ind1 - nDirentSecPointer))
  else none

def setTwice (ind1 : ℕ) (page : Page) : Pointer :=
  if ind1 < nDirentSecPointer then { p with second := update p.second ind1 (some page) }
  else
    { p with third := some (update (p.third.getD fun _ => none) (ind1 - nDirentSecPointer) (some page)) }

def setval (i value : ℕ) : Pointer :=
  p.setTwice (i / pageNClusNo)
    (update ((p.twice (i / pageNClusNo)).getD fun _ => 0) (i % pageNClusNo) value)

def entry (i : ℕ) : ℕ := (p.twice (i / pageNClusNo)).elim 0 (· (i % pageNClusNo))

end Pointer

def kvmAllocIf (b : Prop) [Decidable b] : M Unit := if b then kvmAlloc else pure ()

def filepntSetval (file i value : ℕ) : M Unit := do
  let index1 := i / pageNClusNo
  let p := (← getDirent file).pointer
  kvmAllocIf (nDirentSecPointer ≤ index1 ∧ p.third = none)
  -- The page of pages ends here, which the code does not check.
  check (index1 < nDirentSecPointer + nThirdPointer) .outOfTable
  kvmAllocIf (p.twice index1 = none)
  modifyDirent file fun e => e.setPointer (e.pointer.setval i value)

def filepntGetclusbyno (file fileClusNo : ℕ) : M ℕ := do
  let p := (← getDirent file).pointer
  match p.twice (fileClusNo / pageNClusNo) with
  | none => throw .assertion
  | some twicep =>
    check (twicep (fileClusNo % pageNClusNo) ≠ 0) .assertion
    pure (twicep (fileClusNo % pageNClusNo))

namespace Pointer

variable {p : Pointer} {ind1 ind1' i j value : ℕ} {page : Page}

lemma twice_setTwice_self (h : ind1 < nDirentSecPointer + nThirdPointer) :
    (p.setTwice ind1 page).twice ind1 = some page := by
  rw [setTwice, twice]
  split_ifs with h1 h2
  · exact update_self ..
  · exact update_self ..
  · omega

lemma twice_setTwice_ne (h : ind1' ≠ ind1) : (p.setTwice ind1 page).twice ind1' = p.twice ind1' := by
  rw [setTwice, twice, twice]
  split_ifs with h1 h2 h3 h4
  · exact update_of_ne h ..
  · rfl
  · rfl
  · dsimp only
    rw [Option.bind_some, update_of_ne (by omega)]
    cases p.third with
    | none => rfl
    | some t => rfl
  · rfl

lemma entry_setval (h : i < tableSize) : (p.setval i value).entry = update p.entry i value := by
  have hi : i / pageNClusNo < nDirentSecPointer + nThirdPointer := Nat.div_lt_of_lt_mul (by rwa [Nat.mul_comm])
  funext j
  rw [setval]
  by_cases hq : j / pageNClusNo = i / pageNClusNo
  · rw [entry, hq, twice_setTwice_self hi, Option.elim_some]
    by_cases hr : j % pageNClusNo = i % pageNClusNo
    · obtain rfl : j = i := by rw [← Nat.div_add_mod j pageNClusNo, hq, hr, Nat.div_add_mod]
      rw [update_self, update_self]
    · have hne : j ≠ i := fun he => hr (he ▸ rfl)
      rw [update_of_ne hr, update_of_ne hne, entry, hq]
      cases p.twice (i / pageNClusNo) with
      | none => rfl
      | some t => rfl
  · have hne : j ≠ i := fun he => hq (he ▸ rfl)
    rw [entry, twice_setTwice_ne hq, update_of_ne hne, entry]

@[simp] lemma valid_setval : (p.setval i value).valid = p.valid := by
  rw [setval, setTwice]
  split <;> rfl

end Pointer

section Rules

variable {s : State} {file i value : ℕ} {E : Panic → Prop} {Q : Unit → State → Prop}

lemma wp_kvmAllocIf {b : Prop} [Decidable b] (hQ : ∀ n, Q () { s with pages := n })
    (hE : E .noPage) : wp (kvmAllocIf b) Q E s := by
  rw [kvmAllocIf, wp_ite, wp_kvmAlloc, wp_pure]
  exact ⟨fun _ => ⟨fun _ => hQ _, fun _ => hE⟩, fun _ => hQ s.pages⟩

lemma wp_filepntSetval (hQ : i < tableSize → ∀ p n, p.entry = update (s.dirents file).pointer.entry i value →
      p.valid = (s.dirents file).pointer.valid →
      Q () (s.filed file s.disk ((s.dirents file).setPointer p) n))
    (hE : E .noPage) (hover : tableSize ≤ i → E .outOfTable) : wp (filepntSetval file i value) Q E s := by
  have hi : i / pageNClusNo < nDirentSecPointer + nThirdPointer ↔ i < tableSize := by
    rw [Nat.div_lt_iff_lt_mul (by decide)]
    rfl
  rw [filepntSetval, wp_bind, wp_getDirent]
  dsimp only
  rw [wp_bind]
  refine wp_kvmAllocIf (fun n => ?_) hE
  rw [wp_bind, wp_check]
  refine ⟨fun h => ?_, fun h => hover (Nat.not_lt.mp (mt hi.mpr h))⟩
  rw [wp_bind]
  refine wp_kvmAllocIf (fun n' => ?_) hE
  rw [wp_modifyDirent]
  exact hQ (hi.mp h) _ n' (Pointer.entry_setval (hi.mp h)) Pointer.valid_setval

lemma wp_filepntGetclusbyno {Q : ℕ → State → Prop} (h : (s.dirents file).pointer.entry i ≠ 0)
    (hQ : Q ((s.dirents file).pointer.entry i) s) : wp (filepntGetclusbyno file i) Q E s := by
  rw [filepntGetclusbyno, wp_bind, wp_getDirent]
  dsimp only
  unfold Pointer.entry at h hQ
  cases ht : (s.dirents file).pointer.twice (i / pageNClusNo) with
  | none =>
    rw [ht] at h
    exact absurd rfl h
  | some page =>
    rw [ht] at h hQ
    simp only [wp_bind, wp_check, wp_pure]
    exact ⟨fun _ => hQ, fun hn => absurd h hn⟩

end Rules

end FarmOS.Fat

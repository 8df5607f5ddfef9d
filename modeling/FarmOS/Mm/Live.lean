import FarmOS.Mm.Protect

/-! Processes that change their address spaces, fork, load and store. -/

namespace FarmOS.Mm

open Lib

def Sharing.onto (x : Sharing) (s : Phys) : Sharing := ⟨{ x.users with phys := s }, x.marks⟩

inductive Life
  | doing (d : Doing)
  | load (p : ℕ) (va : BitVec 64) (r : Option Byte)
  | store (p : ℕ) (va : BitVec 64) (b : Byte) (ok : Bool)

variable {L : Layout} {img : Image L} {x x' : Sharing} {l : Life} {v v' : View} {s s' : Phys} {p : ℕ} {va : BitVec 64}

inductive Life.Step (img : Image L) (x : Sharing) : Life → Sharing → Prop
  | doing {d : Doing} {x' : Sharing} : d.Step img x x' → Step img x (.doing d) x'
  | load {p : ℕ} {va : BitVec 64} {r : Option Byte} {s : Phys} : p ∈ x.users.procs → va.toNat < 2 ^ 38 →
      (userLoad p va).run x.users.phys = .ok (r, s) → Step img x (.load p va r) (x.onto s)
  | store {p : ℕ} {va : BitVec 64} {b : Byte} {ok : Bool} {s : Phys} : p ∈ x.users.procs → va.toNat < 2 ^ 38 →
      (userStore p va b).run x.users.phys = .ok (ok, s) → Step img x (.store p va b ok) (x.onto s)

def Life.Careful (L : Layout) (x : Sharing) : Life → Prop
  | doing d => d.Careful L x
  | load _ _ _ | store _ _ _ _ => True

lemma Marked.onto (h : Marked L x v) (hw : Walled L s' v' []) (hr : v'.roots = v.roots)
    (hsh : ∀ q va, q ∈ v.roots → has (look s' q va) pteShared = has (look x.users.phys q va) pteShared) :
    Marked L (x.onto s') v' := by
  refine ⟨hw, hr.trans h.roots, fun q va hq => (h.marks q va hq).trans ?_⟩
  rw [Shared, Shared, ← hsh q va (h.roots ▸ hq)]
  rfl

lemma Marked.live (h : Marked L x v) (hstep : l.Step img x x') (hc : l.Careful L x) : ∃ v', Marked L x' v' := by
  cases hstep with
  | doing hd => exact h.step hd hc
  | load hp _ hrun =>
    obtain ⟨v', hs, -⟩ := wp_of_ok (h.walled.userLoad (h.roots.symm ▸ hp)) hrun
    exact ⟨v', h.onto hs.walled hs.roots hs.quiet.shared⟩
  | store hp hva hrun =>
    obtain ⟨-, v', hw, hr, hst⟩ := wp_of_ok ((walled_stable _ _).userStore h.walled (h.roots.symm ▸ hp) hva) hrun
    exact ⟨v', h.onto hw hr hst.shared⟩

lemma wp_boot_live (b : Board) (img : Image b.layout) (mem : ℕ → ℕ → BitVec 64) :
    wp (boot b) (fun _ s => ∀ ls x, Run (fun x l x' => Life.Step img x l x' ∧ l.Careful b.layout x) (.start s) ls x →
      ∃ v, Marked b.layout x v) NotRefZero (powerOn b mem) := by
  refine wp_mono (wp_boot b mem) fun _ s ⟨v, hk⟩ ls x hrun => ?_
  exact hrun.invariant (P := fun x => ∃ v, Marked b.layout x v) ⟨v, hk.marked img⟩
    fun x l x' ⟨v, hv⟩ hstep => hv.live hstep.1 hstep.2

theorem accesses_panic_only_without_memory (b : Board) (img : Image b.layout) (mem : ℕ → ℕ → BitVec 64) :
    wp (boot b) (fun _ s => ∀ ls x, Run (fun x l x' => Life.Step img x l x' ∧ l.Careful b.layout x) (.start s) ls x →
      ∀ p ∈ x.users.procs, ∀ va : BitVec 64, va.toNat < 2 ^ 38 →
        wp (userLoad p va) (fun r _ => Usable false (look x.users.phys p va) → r = some (content x.users.phys p va))
          OutOfMemory x.users.phys ∧
        ∀ c, wp (userStore p va c) (fun ok _ => Usable true (look x.users.phys p va) → ok = true)
          OutOfMemory x.users.phys) NotRefZero (powerOn b mem) := by
  refine wp_mono (wp_boot_live b img mem) fun _ s h ls x hrun p hp va hva => ?_
  obtain ⟨v, hv⟩ := h ls x hrun
  have hw := hv.walled
  have hroot : p ∈ v.roots := hv.roots ▸ hp
  refine ⟨?_, fun c => ?_⟩
  · refine wp_mono (wp_outOfMemory (hw.userLoad hroot) (hw.wp_userLoad img.used_pos hroot)) fun r _
      ⟨_, _, hb, hsome⟩ hus => ?_
    obtain ⟨y, hr⟩ := Option.ne_none_iff_exists'.mp (hsome hus)
    rw [hr, (hb y hr).1]
  · exact wp_mono (wp_outOfMemory ((walled_stable _ _).userStore hw hroot hva) (hw.wp_userStore img.used_pos hroot))
      fun ok _ hok => hok.1

def runLives (img : Image L) (P : Sharing → Bool) : Sharing → List Life → Bool
  | x, [] => P x
  | x, .doing d :: ls => decide (d.Allowed x) && match d.exec img x with
    | .ok x' => runLives img P x' ls
    | .error _ => false
  | x, .load p va r :: ls => decide (p ∈ x.users.procs) && decide (va.toNat < 2 ^ 38) &&
    returns (userLoad p va) x.users.phys fun r' s => r' == r && runLives img P (x.onto s) ls
  | x, .store p va b ok :: ls => decide (p ∈ x.users.procs) && decide (va.toNat < 2 ^ 38) &&
    returns (userStore p va b) x.users.phys fun ok' s => ok' == ok && runLives img P (x.onto s) ls

lemma run_of_runLives {P : Sharing → Bool} {ls : List Life} (h : runLives img P x ls = true) :
    ∃ x', Run (Life.Step img) x ls x' ∧ P x' = true := by
  induction ls generalizing x with
  | nil => exact ⟨x, .nil, h⟩
  | cons l ls ih =>
    cases l with
    | doing d =>
      rw [runLives, Bool.and_eq_true, decide_eq_true_eq] at h
      obtain ⟨ha, h⟩ := h
      split at h
      · next x1 hx =>
        obtain ⟨x', hr, hP⟩ := ih h
        exact ⟨x', .cons (.doing ⟨ha, hx⟩) hr, hP⟩
      · cases h
    | load p va r =>
      rw [runLives, Bool.and_eq_true, Bool.and_eq_true, decide_eq_true_eq, decide_eq_true_eq] at h
      obtain ⟨⟨hp, hva⟩, h⟩ := h
      obtain ⟨r', s, hacc, hrest⟩ := exists_of_returns h
      rw [Bool.and_eq_true, beq_iff_eq] at hrest
      obtain ⟨x', hr, hP⟩ := ih hrest.2
      exact ⟨x', .cons (.load hp hva (hrest.1 ▸ hacc)) hr, hP⟩
    | store p va b ok =>
      rw [runLives, Bool.and_eq_true, Bool.and_eq_true, decide_eq_true_eq, decide_eq_true_eq] at h
      obtain ⟨⟨hp, hva⟩, h⟩ := h
      obtain ⟨ok', s, hacc, hrest⟩ := exists_of_returns h
      rw [Bool.and_eq_true, beq_iff_eq] at hrest
      obtain ⟨x', hr, hP⟩ := ih hrest.2
      exact ⟨x', .cons (.store hp hva (hrest.1 ▸ hacc)) hr, hP⟩

end FarmOS.Mm

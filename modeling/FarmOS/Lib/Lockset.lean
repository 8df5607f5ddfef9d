import FarmOS.Lib.Prog

/-! A thread's view of code under spin locks: how deep it holds each lock, and what the others do to the shared data
before it gets one. Triples on the locks held. -/

namespace FarmOS.Lib

open Function

namespace Lockset

structure View (L K : Type) where
  shared : K
  held : L → ℕ
  others : List K

inductive Halt (L : Type)
  | notHeld (l : L)
  | notReentrant (l : L)
  | panic
  | unfinished

abbrev Call (L K α : Type) := Prog (View L K) (Halt L) α

variable {L K α β : Type}

def View.enter (k : K) (held : L → ℕ) (others : List K) : View L K := ⟨k, held, others⟩

def look : Call L K K := do
  let v ← get
  pure v.shared

def write (f : K → K) : Call L K Unit := modify fun v => { v with shared := f v.shared }

def interfere : Call L K Unit :=
  modify fun v =>
    match v.others with
    | [] => v
    | k :: ks => { v with shared := k, others := ks }

section

variable [DecidableEq L]

def take (l : L) (h : L → ℕ) : L → ℕ := update h l (h l + 1)

def drop (l : L) (h : L → ℕ) : L → ℕ := update h l (h l - 1)

lemma drop_take (l : L) (h : L → ℕ) : drop l (take l h) = h := by simp [take, drop]

lemma take_apply_ne (l : L) (h : L → ℕ) : take l h l ≠ 0 := by simp [take]

lemma take_ne (l : L) (h : L → ℕ) : take l h ≠ h := fun e => by
  have := congrFun e l
  simp [take] at this

def lock (recursive : L → Bool) (l : L) : Call L K Unit := do
  let v ← get
  if v.held l = 0 then do
    interfere
    modify fun v => { v with held := take l v.held }
  else if recursive l then modify fun v => { v with held := take l v.held }
  else throw (.notReentrant l)

def unlock (l : L) : Call L K Unit := do
  let v ← get
  if v.held l = 0 then throw (.notHeld l) else set { v with held := drop l v.held }

def sleep (recursive : L → Bool) (l : L) : Call L K Unit := do
  unlock l
  interfere
  lock recursive l

end

def Halt.Owned : Halt L → Prop
  | .notHeld _ => False
  | _ => True

def Triple (h : L → ℕ) (c : Call L K α) (Q : α → (L → ℕ) → Prop) : Prop :=
  ∀ v, v.held = h → wp c (fun a v' => Q a v'.held) Halt.Owned v

namespace Triple

variable {h : L → ℕ} {c : Call L K α} {f : α → Call L K β} {l : L} {Q : α → (L → ℕ) → Prop} {R : β → (L → ℕ) → Prop}
  {U : Unit → (L → ℕ) → Prop}

lemma ret {a : α} (hQ : Q a h) : Triple h (pure a : Call L K α) Q := by
  rintro v rfl
  exact wp_pure.mpr hQ

lemma seq (hc : Triple h c fun a h' => Triple h' (f a) R) : Triple h (c >>= f) R := by
  intro v hv
  rw [wp_bind]
  exact wp_mono (hc v hv) fun _ v' hf => hf v' rfl

lemma choose {p : Prop} [Decidable p] {d : Call L K α} (hc : Triple h c Q) (hd : Triple h d Q) :
    Triple h (if p then c else d) Q := by
  split
  · exact hc
  · exact hd

lemma unfinished : Triple h (throw .unfinished : Call L K α) Q := by
  intro v _
  rw [wp_throw]
  trivial

lemma panic : Triple h (throw .panic : Call L K α) Q := by
  intro v _
  rw [wp_throw]
  trivial

lemma look {Q : K → (L → ℕ) → Prop} (hQ : ∀ k, Q k h) : Triple h look Q := by
  rintro v rfl
  rw [Lockset.look, wp_bind, wp_get, wp_pure]
  exact hQ v.shared

lemma write {g : K → K} (hU : U () h) : Triple h (write g : Call L K Unit) U := by
  rintro v rfl
  rw [Lockset.write, wp_modify]
  exact hU

lemma interfere (hU : U () h) : Triple h (interfere : Call L K Unit) U := by
  rintro v rfl
  rw [Lockset.interfere, wp_modify]
  cases v.others with
  | nil => exact hU
  | cons k ks => exact hU

variable [DecidableEq L] {recursive : L → Bool}

lemma lock (hU : U () (take l h)) : Triple h (lock recursive l : Call L K Unit) U := by
  rintro v rfl
  have hm : Triple v.held (modify (fun v : View L K => { v with held := take l v.held }) : Call L K Unit) U := by
    intro w hw
    rw [wp_modify]
    change U () (take l w.held)
    rw [hw]
    exact hU
  rw [Lockset.lock, wp_bind, wp_get]
  split
  · exact seq (interfere hm) v rfl
  · split
    · exact hm v rfl
    · rw [wp_throw]
      trivial

lemma unlock (hU : U () h) : Triple (take l h) (unlock l : Call L K Unit) U := by
  intro v hv
  rw [Lockset.unlock, wp_bind, wp_get, hv, if_neg (take_apply_ne l h), wp_set, drop_take]
  exact hU

lemma sleep (hU : U () (take l h)) : Triple (take l h) (sleep recursive l : Call L K Unit) U := by
  rw [Lockset.sleep]
  exact seq (unlock (seq (interfere (lock hU))))

end Triple

end Lockset

end FarmOS.Lib

import Mathlib.Algebra.BigOperators.Ring.Finset

/-! Records that wander between a free list, some queues and the hands of threads, each in one place at a time, and
how many places of a finite family hold a given value. -/

namespace FarmOS.Lib

section Count

open Finset

variable {α β : Type*} [DecidableEq β]

def occ (S : Finset α) (f : α → β) (k : β) : ℕ := (S.filter fun a => f a = k).card

variable {S : Finset α} {f g : α → β} {k : β} {a : α}

lemma occ_pos : 0 < occ S f k ↔ ∃ a ∈ S, f a = k := by
  simp [occ, card_pos, Finset.Nonempty]

lemma occ_eq_zero : occ S f k = 0 ↔ ∀ a ∈ S, f a ≠ k := by
  simp [occ, card_eq_zero, filter_eq_empty_iff]

lemma occ_congr (h : ∀ a ∈ S, g a = f a) : occ S g k = occ S f k := by
  unfold occ
  congr 1
  exact filter_congr fun a ha => by rw [h a ha]

lemma occ_le_card : occ S f k ≤ S.card := card_filter_le S _

variable [DecidableEq α]

lemma occ_split (ha : a ∈ S) (f : α → β) : occ S f k = occ (S.erase a) f k + if f a = k then 1 else 0 := by
  simp only [occ, card_filter]
  rw [add_comm, add_sum_erase S (fun x => if f x = k then 1 else 0) ha]

lemma occ_change (ha : a ∈ S) (h : ∀ x ∈ S, x ≠ a → g x = f x) :
    occ S g k + (if f a = k then 1 else 0) = occ S f k + if g a = k then 1 else 0 := by
  rw [occ_split ha g, occ_split ha f]
  rw [occ_congr fun x hx => h x (mem_of_mem_erase hx) (ne_of_mem_erase hx)]
  omega

end Count

open Function List

inductive Place (T : Type*)
  | free
  | queue (i : ℕ)
  | hand (t : T)

variable {T : Type*}

def Place.Holds (free : List ℕ) (queue : ℕ → List ℕ) (hand : T → Option ℕ) (m : ℕ) : Place T → Prop
  | .free => m ∈ free
  | .queue i => m ∈ queue i
  | .hand t => hand t = some m

structure Pool (n : ℕ) (free : List ℕ) (queue : ℕ → List ℕ) (hand : T → Option ℕ) (loc : ℕ → Place T) : Prop where
  free_iff (m : ℕ) : m ∈ free ↔ m < n ∧ loc m = .free
  queue_iff (i m : ℕ) : m ∈ queue i ↔ m < n ∧ loc m = .queue i
  hand_iff (t : T) (m : ℕ) : hand t = some m ↔ m < n ∧ loc m = .hand t
  free_nodup : free.Nodup
  queue_nodup (i : ℕ) : (queue i).Nodup

namespace Pool

variable {n i m : ℕ} {t : T} {free rest : List ℕ} {queue : ℕ → List ℕ} {hand : T → Option ℕ} {loc : ℕ → Place T}

lemma init (n : ℕ) : Pool n (range n) (fun _ => []) (fun _ : T => none) (fun _ => .free) := by
  constructor <;> simp [nodup_range]

section

variable (h : Pool n free queue hand loc)
include h

lemma unique (hm : m < n) : ∃! p : Place T, p.Holds free queue hand m := by
  refine ⟨loc m, ?_, fun p hp => ?_⟩
  · cases hl : loc m with
    | free => exact (h.free_iff m).mpr ⟨hm, hl⟩
    | queue i => exact (h.queue_iff i m).mpr ⟨hm, hl⟩
    | hand t => exact (h.hand_iff t m).mpr ⟨hm, hl⟩
  · cases p with
    | free => exact ((h.free_iff m).mp hp).2.symm
    | queue i => exact ((h.queue_iff i m).mp hp).2.symm
    | hand t => exact ((h.hand_iff t m).mp hp).2.symm

lemma not_free_of_hand (ht : hand t = some m) : m ∉ free := fun hm => by
  have := (h.free_iff m).mp hm
  have := (h.hand_iff t m).mp ht
  grind

lemma not_free_of_queue (hi : m ∈ queue i) : m ∉ free := fun hm => by
  have := (h.free_iff m).mp hm
  have := (h.queue_iff i m).mp hi
  grind

lemma not_queue_of_hand (ht : hand t = some m) : m ∉ queue i := fun hm => by
  have := (h.queue_iff i m).mp hm
  have := (h.hand_iff t m).mp ht
  grind

lemma hand_inj {u : T} (ht : hand t = some m) (hu : hand u = some m) : t = u := by
  have := (h.hand_iff t m).mp ht
  have := (h.hand_iff u m).mp hu
  grind

lemma perm {free' : List ℕ} {queue' : ℕ → List ℕ} (hf : free.Perm free')
    (hq : ∀ i, (queue i).Perm (queue' i)) : Pool n free' queue' hand loc where
  free_iff m := hf.mem_iff.symm.trans (h.free_iff m)
  queue_iff i m := (hq i).mem_iff.symm.trans (h.queue_iff i m)
  hand_iff := h.hand_iff
  free_nodup := hf.nodup h.free_nodup
  queue_nodup i := (hq i).nodup (h.queue_nodup i)

end

variable [DecidableEq T]

lemma alloc (h : Pool n (m :: rest) queue hand loc) (ht : hand t = none) :
    Pool n rest queue (update hand t (some m)) (update loc m (.hand t)) := by
  obtain ⟨hf, hq, hh, hn, hd⟩ := h
  have hm := (hf m).mp (by simp)
  have hr := nodup_cons.mp hn
  constructor <;> grind

section

variable (h : Pool n free queue hand loc)
include h

lemma enqueue (ht : hand t = some m) :
    Pool n free (update queue i (queue i ++ [m])) (update hand t none)
      (update loc m (.queue i)) := by
  have hni : m ∉ queue i := h.not_queue_of_hand ht
  obtain ⟨hf, hq, hh, hn, hd⟩ := h
  have hm := (hh t m).mp ht
  have hi := hd i
  constructor <;> grind [nodup_append]

lemma dequeue (hi : queue i = m :: rest) (ht : hand t = none) :
    Pool n free (update queue i rest) (update hand t (some m)) (update loc m (.hand t)) := by
  obtain ⟨hf, hq, hh, hn, hd⟩ := h
  have hm := (hq i m).mp (by simp [hi])
  have hr : m ∉ rest ∧ rest.Nodup := nodup_cons.mp (hi ▸ hd i)
  constructor <;> grind

lemma release (ht : hand t = some m) :
    Pool n (free ++ [m]) queue (update hand t none) (update loc m .free) := by
  have hnf : m ∉ free := h.not_free_of_hand ht
  obtain ⟨hf, hq, hh, hn, hd⟩ := h
  have hm := (hh t m).mp ht
  constructor <;> grind [nodup_append]

end

lemma hand_back (ht : hand t = none) : update (update hand t (some m)) t none = hand := by
  rw [update_idem, ← ht, update_eq_self]

lemma push (h : Pool n (m :: rest) queue hand loc) (ht : hand t = none) :
    ∃ loc', Pool n rest (update queue i (m :: queue i)) hand loc' := by
  have hmid := (h.alloc ht).enqueue (i := i) (update_self t (some m) hand)
  rw [hand_back ht] at hmid
  refine ⟨_, hmid.perm (.refl rest) fun j => ?_⟩
  obtain rfl | hj := eq_or_ne j i
  · rw [update_self, update_self]
    exact perm_append_singleton m (queue j)
  · rw [update_of_ne hj, update_of_ne hj]

lemma pull (h : Pool n free queue hand loc) (ht : hand t = none) (hm : m ∈ queue i) :
    ∃ loc', Pool n (m :: free) (update queue i ((queue i).erase m)) hand loc' := by
  have hfront : Pool n free (update queue i (m :: (queue i).erase m)) hand loc :=
    h.perm (.refl free) fun j => by
      obtain rfl | hj := eq_or_ne j i
      · rw [update_self]
        exact perm_cons_erase hm
      · rw [update_of_ne hj]
  have hmid := (hfront.dequeue (update_self i _ queue) ht).release (update_self t (some m) hand)
  rw [hand_back ht, update_idem] at hmid
  exact ⟨_, hmid.perm (perm_append_singleton m free) fun _ => .refl _⟩

end Pool

end FarmOS.Lib

import FarmOS.Futex.Client
import FarmOS.Lib.Run
import Mathlib.Data.List.TakeWhile

/-! What single calls do to the queues whose locks they hold: `futex_requeue`, and the alarms of `tsleep.c`. -/

namespace FarmOS.Futex

open Lib Function List

variable {T : Type}

section Requeue

-- `futexevent_free_and_wake`, up to the wakeup of the sleeping thread.
def Events.freeAndWake (q : Events T) (t : T) (i : ℕ) : Events T := (q.remove t i).put i

structure Requeue (T : Type) where
  woken : List ℕ
  maxwaiter : BitVec 64
  events : Events T

def requeueStep (t : T) (src dst wakecnt : ℕ) (r : Requeue T) (i : ℕ) : Requeue T :=
  if (r.events.fe i).upaddr = src then
    if r.woken.length < wakecnt then
      { r with woken := r.woken ++ [i], events := r.events.freeAndWake t i }
    else
      { r with
        events := r.events.setEvent i { r.events.fe i with upaddr := dst }
        maxwaiter := r.maxwaiter - 1 }
  else r

def futexRequeue (q : Events T) (t : T) (src dst wakecnt : ℕ) (maxwaiter : BitVec 64) : Requeue T :=
  q.used.foldl (requeueStep t src dst wakecnt) ⟨[], maxwaiter, q⟩

def Events.waiting (q : Events T) (upa : ℕ) (l : List ℕ) : List ℕ := l.filter fun i => (q.fe i).upaddr = upa

variable {q q' : Events T} {t : T} {src dst wakecnt i : ℕ} {l : List ℕ} {r : Requeue T} {fe : FutexEvent T}

lemma Events.waiting_cons (h : (q.fe i).upaddr = src) : q.waiting src (i :: l) = i :: q.waiting src l :=
  filter_cons_of_pos (decide_eq_true h)

lemma Events.waiting_update (hi : i ∉ l) (h : q'.fe = update q.fe i fe) : q'.waiting src l = q.waiting src l :=
  filter_congr fun j hj => by rw [h, update_of_ne (ne_of_mem_of_not_mem hj hi)]

structure Requeued (dst : ℕ) (P W : List ℕ) (r r' : Requeue T) : Prop where
  woken : r'.woken = r.woken ++ P
  used : r'.events.used = r.events.used.filter (· ∉ P)
  fe {j : ℕ} : j ∉ P → r'.events.fe j = if j ∈ W then { r.events.fe j with upaddr := dst } else r.events.fe j

lemma foldl_requeueStep (hl : l.Nodup) (hu : r.events.used.Nodup) :
    Requeued dst ((r.events.waiting src l).take (wakecnt - r.woken.length)) (r.events.waiting src l) r
      (l.foldl (requeueStep t src dst wakecnt) r) := by
  induction l generalizing r with
  | nil => exact ⟨by simp [Events.waiting], by simp [Events.waiting], fun _ => by simp [Events.waiting]⟩
  | cons i l ih =>
    obtain ⟨hi, hl⟩ := nodup_cons.mp hl
    rw [foldl_cons, requeueStep]
    split_ifs with hsrc hlt
    · have hW := r.events.waiting_cons hsrc (l := l)
      obtain ⟨k, hk⟩ : ∃ k, wakecnt - r.woken.length = k + 1 := ⟨wakecnt - r.woken.length - 1, by omega⟩
      have hk' : wakecnt - (r.woken ++ [i]).length = k := by
        rw [length_append, length_singleton]
        omega
      have h := ih (r := { r with woken := r.woken ++ [i], events := r.events.freeAndWake t i }) hl (hu.erase i)
      rw [hk', Events.waiting_update (q := r.events) hi rfl] at h
      rw [hW, hk, take_succ_cons]
      refine ⟨by rw [h.woken, append_assoc]; rfl, ?_, fun {j} hj => ?_⟩
      · rw [h.used]
        change (r.events.used.erase i).filter _ = _
        rw [hu.erase_eq_filter, filter_filter]
        refine filter_congr fun j _ => ?_
        by_cases hji : j = i <;> simp [hji]
      · obtain ⟨hji, hj⟩ := not_or.mp (mem_cons.not.mp hj)
        have hfe : (r.events.freeAndWake t i).fe j = r.events.fe j := update_of_ne hji ..
        rw [h.fe hj, hfe]
        simp only [mem_cons, hji, false_or]
    · have hW := r.events.waiting_cons hsrc (l := l)
      have hk : wakecnt - r.woken.length = 0 := by omega
      have hiW : i ∉ r.events.waiting src l := fun h => hi (mem_of_mem_filter h)
      have h := ih (r := { r with
        events := r.events.setEvent i { r.events.fe i with upaddr := dst }, maxwaiter := r.maxwaiter - 1 }) hl hu
      rw [Events.waiting_update (q := r.events) hi rfl] at h
      rw [hW]
      rw [hk, take_zero] at h ⊢
      refine ⟨h.woken, h.used, fun {j} hj => ?_⟩
      rw [h.fe hj]
      by_cases hji : j = i
      · subst hji
        rw [if_neg hiW, if_pos mem_cons_self]
        exact update_self ..
      · have hfe : (r.events.setEvent i { r.events.fe i with upaddr := dst }).fe j = r.events.fe j :=
          update_of_ne hji ..
        rw [hfe]
        simp only [mem_cons, hji, false_or]
    · have hW : r.events.waiting src (i :: l) = r.events.waiting src l := filter_cons_of_neg (by simpa using hsrc)
      rw [hW]
      exact ih hl hu

theorem futexRequeue_keeps_limits {maxwaiter : BitVec 64} (hn : q.used.Nodup) :
    (futexRequeue q t src dst wakecnt maxwaiter).woken = (q.waiting src q.used).take wakecnt ∧
      (futexRequeue q t src dst wakecnt maxwaiter).events.used =
        q.used.filter (· ∉ (q.waiting src q.used).take wakecnt) ∧
      ((∀ i ∈ (futexRequeue q t src dst wakecnt maxwaiter).events.used,
        (futexRequeue q t src dst wakecnt maxwaiter).events.fe i =
          if i ∈ ((q.waiting src q.used).drop wakecnt).take maxwaiter.toNat then { q.fe i with upaddr := dst }
          else q.fe i) ↔ src = dst ∨ (q.waiting src q.used).length ≤ wakecnt + maxwaiter.toNat) := by
  have h : Requeued dst ((q.waiting src q.used).take wakecnt) (q.waiting src q.used) ⟨[], maxwaiter, q⟩
      (futexRequeue q t src dst wakecnt maxwaiter) := foldl_requeueStep (r := ⟨[], maxwaiter, q⟩) hn hn
  have hw {i : ℕ} (hi : i ∈ q.waiting src q.used) : i ∈ q.used ∧ (q.fe i).upaddr = src :=
    ⟨mem_of_mem_filter hi, of_decide_eq_true (mem_filter.mp hi).2⟩
  refine ⟨h.woken, h.used, fun hall => or_iff_not_imp_left.mpr fun hne => not_lt.mp fun hlt => hne ?_,
    fun hc i hi => ?_⟩
  · obtain ⟨i, hi⟩ : ∃ i, (q.waiting src q.used)[wakecnt + maxwaiter.toNat]? = some i := ⟨_, getElem?_eq_getElem hlt⟩
    have hnd := hn.filter fun i => (q.fe i).upaddr = src
    have hmem : i ∈ q.waiting src q.used := mem_of_getElem? hi
    have hlate {k : ℕ} (hk : k ≤ wakecnt + maxwaiter.toNat) : i ∉ (q.waiting src q.used).take k := fun hm => by
      obtain ⟨j, hj, he⟩ := mem_take_iff_getElem.mp hm
      obtain ⟨hlt', he'⟩ := List.getElem?_eq_some_iff.mp hi
      have := (Nodup.getElem_inj_iff hnd).mp (he.trans he'.symm)
      omega
    have hnot := hlate (Nat.le_add_right wakecnt _)
    have hi' := hall i (by rw [h.used]; exact mem_filter.mpr ⟨(hw hmem).1, decide_eq_true hnot⟩)
    rw [h.fe hnot, if_pos hmem, if_neg fun hm => hlate le_rfl (take_add ▸ mem_append_right _ hm)] at hi'
    exact (hw hmem).2.symm.trans (congrArg FutexEvent.upaddr hi').symm
  · have hnot : i ∉ (q.waiting src q.used).take wakecnt := by
      rw [h.used] at hi
      exact of_decide_eq_true (mem_filter.mp hi).2
    rw [h.fe hnot]
    rcases hc with rfl | hle
    · have hsame (hm : i ∈ q.waiting src q.used) : { q.fe i with upaddr := src } = q.fe i := by rw [← (hw hm).2]
      split_ifs with hm hm' hm'
      · rfl
      · exact hsame hm
      · exact (hsame (mem_of_mem_drop (mem_of_mem_take hm'))).symm
      · rfl
    · have hmem : i ∈ (q.waiting src q.used).drop wakecnt ↔ i ∈ q.waiting src q.used := by
        refine ⟨mem_of_mem_drop, fun hm => ?_⟩
        rw [← take_append_drop wakecnt (q.waiting src q.used), mem_append] at hm
        exact hm.resolve_left hnot
      rw [take_of_length_le (by rw [length_drop]; omega), if_congr hmem rfl rfl]

def pair : Events ℕ where
  fe i := ⟨8, some i, 0⟩
  free := []
  used := [0, 1]
  slot _ := .used
  ticket := id
  tickets := 2

theorem futexRequeue_keeps_limits_pair : (futexRequeue pair 5 8 16 1 1).woken = [0] ∧
    ((futexRequeue pair 5 8 16 1 1).events.fe 1).upaddr = 16 := by
  obtain ⟨hw, hu, hfe⟩ := @futexRequeue_keeps_limits ℕ pair 5 8 16 1 1 (by decide)
  exact ⟨hw, by rw [hfe.mpr (.inr (by decide)) 1 (by rw [hu]; decide)]; rfl⟩

theorem futexRequeue_passes_limit : (pair.waiting 8 pair.used).length = 2 ∧
    ((futexRequeue pair 5 8 16 0 1).events.fe 0).upaddr = 16 ∧
    ((futexRequeue pair 5 8 16 0 1).events.fe 1).upaddr = 16 := by
  decide

end Requeue

section Alarms

namespace Timers

-- `tsleep_check`, up to the wakeups; the list is what is left of the used queue.
def check (now : ℕ) : List ℕ → Timers T → Option (Timers T)
  | [], q => some q
  | j :: js, q =>
    if now < (q.tse j).wakeus ∨ (q.tse j).wakeus = 0 then some q
    else if q.canSetUnused j then check now js (q.setUnused j true) else none

end Timers

-- `stamp` and `arrivals` are auxiliary: an event that is put on the used queue gets the next stamp.
structure Alarms (T : Type) where
  timers : Timers T
  stamp : ℕ → ℕ
  arrivals : ℕ

inductive AlarmOp (T : Type)
  | alloc (td : T) (chan : Chan) (wakeus : ℕ)
  | setUnused (j : ℕ)
  | check (now : ℕ)
  | free (j : ℕ)

namespace Alarms

def due (q : Timers T) (now j : ℕ) : Prop := 0 < (q.tse j).wakeus ∧ (q.tse j).wakeus ≤ now

instance (q : Timers T) (now j : ℕ) : Decidable (due q now j) := instDecidableAnd

def alloc (a : Alarms T) (td : T) (chan : Chan) (wakeus : ℕ) : Option (Alarms T) :=
  match a.timers.free with
  | [] => none
  | j :: rest =>
    let q := ({ a.timers with free := rest } : Timers T).setEvent j ⟨some td, chan, wakeus⟩
    if a.timers.debug j false true && q.debug j false false && (q.insert j).debug j true false then
      some ⟨q.insert j, update a.stamp j a.arrivals, a.arrivals + 1⟩
    else none

-- `tse_free`
def put (q : Timers T) (j : ℕ) : Option (Timers T) :=
  if q.debug j false false then some { q.setEvent j ⟨none, .null, 0⟩ with free := j :: q.free } else none

def step (a : Alarms T) : AlarmOp T → Option (Alarms T)
  | .alloc td chan wakeus => a.alloc td chan wakeus
  | .setUnused j => if a.timers.canSetUnused j then some { a with timers := a.timers.setUnused j false } else none
  | .check now => (a.timers.check now a.timers.used).map fun q => { a with timers := q }
  | .free j => (put a.timers j).map fun q => { a with timers := q }

def Before (a : Alarms T) (j k : ℕ) : Prop :=
  (a.timers.tse j).wakeus ≠ 0 ∧
      ((a.timers.tse k).wakeus = 0 ∨ (a.timers.tse j).wakeus < (a.timers.tse k).wakeus) ∨
    (a.timers.tse j).wakeus = (a.timers.tse k).wakeus ∧ a.stamp j < a.stamp k

structure Ordered (a : Alarms T) : Prop where
  nodup : a.timers.used.Nodup
  apart {j : ℕ} : j ∈ a.timers.used → j ∉ a.timers.free
  early {j : ℕ} : j ∈ a.timers.used → a.stamp j < a.arrivals
  before : a.timers.used.Pairwise a.Before

variable {a a' : Alarms T} {j : ℕ} {q : Timers T} {timeout : Bool}

lemma Ordered.sub (h : a.Ordered) (hsub : a'.timers.used.Sublist a.timers.used) (hn : a.arrivals ≤ a'.arrivals)
    (hk : ∀ j ∈ a'.timers.used, j ∉ a'.timers.free ∧ a'.stamp j = a.stamp j ∧
      (a'.timers.tse j).wakeus = (a.timers.tse j).wakeus) : a'.Ordered := by
  refine ⟨h.nodup.sublist hsub, fun hj => (hk _ hj).1, fun hj => ?_, (h.before.sublist hsub).imp_of_mem ?_⟩
  · rw [(hk _ hj).2.1]
    exact (h.early (hsub.subset hj)).trans_le hn
  · intro j k hj hk' hb
    rw [Before] at hb ⊢
    rwa [(hk j hj).2.1, (hk j hj).2.2, (hk k hk').2.1, (hk k hk').2.2]

lemma wakeus_setUnused (k : ℕ) : ((q.setUnused j timeout).tse k).wakeus = (q.tse k).wakeus := by
  by_cases h : k = j
  · subst h
    simp only [Timers.setUnused, Timers.setEvent, update_self]
  · exact congrArg TsEvent.wakeus (update_of_ne h ..)

lemma Ordered.setUnused (h : a.Ordered) : ({ a with timers := a.timers.setUnused j timeout } : Alarms T).Ordered :=
  h.sub erase_sublist le_rfl fun _ hk => ⟨h.apart (mem_of_mem_erase hk), rfl, wakeus_setUnused _⟩

lemma Ordered.canSetUnused (h : a.Ordered) (hj : j ∈ a.timers.used) : a.timers.canSetUnused j = true := by
  have hf := h.apart hj
  have he : j ∉ a.timers.used.erase j := h.nodup.not_mem_erase
  simp [Timers.canSetUnused, Timers.debug, Timers.setUnused, Timers.setEvent, hj, hf, he]

lemma Ordered.check {l : List ℕ} (h : a.Ordered) (now : ℕ) (hl : a.timers.used = l) :
    ∃ q, a.timers.check now l = some q ∧ ({ a with timers := q } : Alarms T).Ordered ∧
      q.used = l.filter (fun j => ¬ due a.timers now j) ∧
      ∀ j, q.tse j = if j ∈ l ∧ due a.timers now j then { a.timers.tse j with wchan := .minusOne }
        else a.timers.tse j := by
  induction l generalizing a with
  | nil => exact ⟨_, rfl, h, by rw [hl]; rfl, fun j => by simp⟩
  | cons i l ih =>
    have hn := h.nodup
    have hb := h.before
    rw [hl] at hn hb
    obtain ⟨hi, hn⟩ := nodup_cons.mp hn
    rw [Timers.check]
    split_ifs with hlate hcan
    · have hnot : ∀ j ∈ i :: l, ¬ due a.timers now j := by
        intro j hj hd
        rcases mem_cons.mp hj with rfl | hj
        · rw [due] at hd
          omega
        · have := rel_of_pairwise_cons hb hj
          rw [Before] at this
          rw [due] at hd
          omega
      refine ⟨_, rfl, h, ?_, fun j => (if_neg fun hj => hnot j hj.1 hj.2).symm⟩
      rw [hl, filter_eq_self.mpr fun j hj => by simpa using hnot j hj]
    · have hd : due a.timers now i := by
        rw [due]
        omega
      have hdue (j : ℕ) : due (a.timers.setUnused i true) now j ↔ due a.timers now j := by
        rw [due, due, wakeus_setUnused]
      obtain ⟨q, hq, ho, hu, ht⟩ := ih (a := { a with timers := a.timers.setUnused i true }) h.setUnused
        (by rw [Timers.setUnused, hl]; exact erase_cons_head ..)
      refine ⟨q, hq, ho, ?_, fun j => ?_⟩
      · rw [hu, filter_cons_of_neg (by simpa using hd)]
        exact filter_congr fun j _ => decide_eq_decide.mpr (not_congr (hdue j))
      · rw [ht]
        by_cases hji : j = i
        · subst hji
          rw [if_neg fun h => hi h.1, if_pos ⟨mem_cons_self, hd⟩]
          exact update_self ..
        · have hu : (a.timers.setUnused i true).tse j = a.timers.tse j := update_of_ne hji ..
          simp only [hu, hdue, mem_cons, hji, false_or]
    · exact absurd (h.canSetUnused (by rw [hl]; exact mem_cons_self)) hcan

lemma pairwise_insert {R : ℕ → ℕ → Prop} {p : ℕ → Bool} {l : List ℕ} (h : l.Pairwise R)
    (hp : ∀ k ∈ l, p k = true → R k j) (hn : ∀ k ∈ l, ¬ p k = true → R j k)
    (hR : ∀ k k', R k k' → ¬ p k = true → ¬ p k' = true) : (l.takeWhile p ++ j :: l.dropWhile p).Pairwise R := by
  rw [← takeWhile_append_dropWhile (p := p) (l := l), pairwise_append] at h
  obtain ⟨ht, hd, htd⟩ := h
  have hdrop : ∀ k ∈ l.dropWhile p, ¬ p k = true := by
    have hhead := head?_dropWhile_not p l
    cases hl : l.dropWhile p with
    | nil => nofun
    | cons b m =>
      rw [hl] at hhead hd
      have hb : ¬ p b = true := by simpa using hhead
      exact forall_mem_cons.mpr ⟨hb, fun k hk => hR b k (rel_of_pairwise_cons hd hk) hb⟩
  refine pairwise_append.mpr ⟨ht, pairwise_cons.mpr ⟨fun k hk => ?_, hd⟩, fun k hk => ?_⟩
  · exact hn k ((dropWhile_sublist p).subset hk) (hdrop k hk)
  · exact forall_mem_cons.mpr ⟨hp k ((takeWhile_sublist p).subset hk) (mem_takeWhile_imp hk), htd k hk⟩

lemma Ordered.insert (h : a.Ordered) (hj : j ∉ a.timers.used) (hf : j ∉ a.timers.free)
    (hs : ∀ k ∈ a.timers.used, a.stamp k < a.stamp j) (hlt : a.stamp j < a.arrivals) :
    ({ a with timers := a.timers.insert j } : Alarms T).Ordered := by
  have hperm : (a.timers.insert j).used.Perm (j :: a.timers.used) ∧
      (a.timers.insert j).used.Pairwise a.Before := by
    rw [Timers.insert]
    split_ifs with hw
    · refine ⟨perm_append_singleton .., pairwise_append.mpr ⟨h.before, pairwise_singleton .., ?_⟩⟩
      intro k hk i hi
      rw [mem_singleton.mp hi, Before, hw]
      have := hs k hk
      omega
    · refine ⟨perm_middle.trans (by rw [takeWhile_append_dropWhile]), pairwise_insert h.before ?_ ?_ ?_⟩
      all_goals
        simp only [Bool.not_eq_true', Bool.or_eq_false_iff, decide_eq_false_iff_not, beq_eq_false_iff_ne, Before]
      · intro k hk hp
        have := hs k hk
        omega
      · intro k _ hp
        omega
      · intro k k' hb hp
        omega
  have hfree : (a.timers.insert j).free = a.timers.free := by
    rw [Timers.insert]
    split_ifs <;> rfl
  have htse : (a.timers.insert j).tse = a.timers.tse := by
    rw [Timers.insert]
    split_ifs <;> rfl
  have hmem {k : ℕ} (hk : k ∈ (a.timers.insert j).used) : k = j ∨ k ∈ a.timers.used :=
    mem_cons.mp (hperm.1.mem_iff.mp hk)
  refine ⟨hperm.1.nodup_iff.mpr (h.nodup.cons hj), fun {k} hk => ?_, fun {k} hk => ?_, ?_⟩
  · rw [hfree]
    rcases hmem hk with rfl | hk
    · exact hf
    · exact h.apart hk
  · rcases hmem hk with rfl | hk
    · exact hlt
    · exact h.early hk
  · refine hperm.2.imp fun {i k} hb => ?_
    rw [Before] at hb ⊢
    rwa [htse]

lemma Ordered.alloc {td : T} {chan : Chan} {wakeus : ℕ} (h : a.Ordered) (ha : a.alloc td chan wakeus = some a') :
    a'.Ordered := by
  rw [Alarms.alloc] at ha
  split at ha
  · cases ha
  · rename_i j rest hf
    dsimp only at ha
    split_ifs at ha with hd
    cases ha
    simp only [Timers.debug, Bool.and_eq_true, beq_iff_eq, decide_eq_false_iff_not] at hd
    obtain ⟨⟨⟨hj, -⟩, -, hrest⟩, -⟩ := hd
    have hne {k : ℕ} (hk : k ∈ a.timers.used) : k ≠ j := ne_of_mem_of_not_mem hk hj
    have hs {k : ℕ} (hk : k ∈ a.timers.used) : update a.stamp j a.arrivals k = a.stamp k := update_of_ne (hne hk) ..
    have hself : update a.stamp j a.arrivals j = a.arrivals := update_self ..
    refine Ordered.insert (a := ⟨({ a.timers with free := rest } : Timers T).setEvent j ⟨some td, chan, wakeus⟩,
      update a.stamp j a.arrivals, a.arrivals + 1⟩) (h.sub (List.Sublist.refl _)
        (Nat.le_succ _) fun k hk => ?_) hj hrest
      (fun k hk => ?_) (hself.trans_lt (Nat.lt_succ_self _))
    · refine ⟨fun hk' => h.apart hk ?_, hs hk, congrArg TsEvent.wakeus (update_of_ne (hne hk) ..)⟩
      rw [hf]
      exact mem_cons_of_mem _ hk'
    · change update a.stamp j a.arrivals k < update a.stamp j a.arrivals j
      rw [hself, hs hk]
      exact h.early hk

lemma Ordered.step {op : AlarmOp T} (h : a.Ordered) (hs : a.step op = some a') : a'.Ordered := by
  cases op with
  | alloc td chan wakeus => exact h.alloc hs
  | setUnused j =>
    rw [Alarms.step] at hs
    split_ifs at hs
    cases hs
    exact h.setUnused
  | check now =>
    obtain ⟨q, hq, ho, -⟩ := h.check now rfl
    rw [Alarms.step, hq] at hs
    cases hs
    exact ho
  | free j =>
    rw [Alarms.step, put] at hs
    split_ifs at hs with hd <;> cases hs
    simp only [Timers.debug, Bool.and_eq_true, beq_iff_eq, decide_eq_false_iff_not] at hd
    have hne : ∀ k ∈ a.timers.used, k ≠ j := fun k hk => ne_of_mem_of_not_mem hk hd.1
    exact h.sub (List.Sublist.refl _) le_rfl fun k hk => ⟨not_mem_cons_of_ne_of_not_mem (hne k hk) (h.apart hk), rfl,
      congrArg TsEvent.wakeus (update_of_ne (hne k hk) ..)⟩

end Alarms

theorem alarms_ordered_and_exact {a a' : Alarms T} {ops : List (AlarmOp T)} (h : a.timers.used = [])
    (hr : Run (fun a op a' => a.step op = some a') a ops a') :
    a'.timers.used.Pairwise a'.Before ∧ ∀ now, ∃ q, a'.timers.check now a'.timers.used = some q ∧
      q.used = a'.timers.used.filter (fun j => ¬ Alarms.due a'.timers now j) ∧
      ∀ j, q.tse j = if j ∈ a'.timers.used ∧ Alarms.due a'.timers now j then
        { a'.timers.tse j with wchan := .minusOne } else a'.timers.tse j := by
  have h0 : a.Ordered := ⟨by rw [h]; exact nodup_nil, by simp [h], by simp [h], by rw [h]; exact .nil⟩
  have ho : a'.Ordered := hr.invariant h0 fun _ _ _ ha hs => ha.step hs
  refine ⟨ho.before, fun now => ?_⟩
  obtain ⟨q, hq, -, hu, ht⟩ := ho.check now rfl
  exact ⟨q, hq, hu, ht⟩

def quiet : Alarms ℕ := ⟨⟨fun _ => ⟨none, .null, 0⟩, [0, 1, 2, 3], []⟩, id, 0⟩

def ringing : List (AlarmOp ℕ) := [.alloc 1 .null 5, .alloc 2 .null 0, .alloc 3 .null 9, .alloc 4 .null 5]

theorem alarms_ordered_and_exact_ringing : ∃ a', Run (fun a op a' => a.step op = some a') quiet ringing a' ∧
    a'.timers.used = [0, 3, 2, 1] ∧ a'.timers.used.Pairwise a'.Before := by
  have he : (ringing.foldlM Alarms.step quiet).map (fun a => a.timers.used) = some [0, 3, 2, 1] := by decide
  obtain ⟨a', hr, hu⟩ := Run.of_eval (fun _ _ _ h => h) he
  exact ⟨a', hr, hu, (alarms_ordered_and_exact rfl hr).1⟩

end Alarms

end FarmOS.Futex

import FarmOS.Signal.Itimer

/-! While no armed timer is disarmed or outlived, the timer list holds each thread's own timer and sends its alarms. -/

namespace FarmOS.Signal.Itimer

open Lib Function Spec List BitVec Option

structure Info.Expires (i : Info) (v : Option (ℕ × ℕ)) : Prop where
  value : v = some (i.start.toNat + i.lastTime.toNat, i.interval.toNat)
  lt : i.start.toNat + i.lastTime.toNat < 2 ^ 64
  interval : i.interval.toNat < 2 ^ 63

structure Timed (s : State) (x : Spec) : Prop where
  slots : s.slots = x.slots
  cnt : s.cnt = x.cnt
  clock : s.clock = x.now
  early : s.clock < 2 ^ 63
  nodup : s.list.Nodup
  owned : ∀ a ∈ s.list, ∃ i t, s.heap a = some i ∧ s.slots i.td = some t ∧ i.Expires (x.armed t)
  once : ∀ a ∈ s.list, ∀ b ∈ s.list, ∀ i j, s.heap a = some i → s.heap b = some j → i.td = j.td → a = b
  armed : ∀ t, x.armed t ≠ none → ∃ a ∈ s.list, ∃ i, s.heap a = some i ∧ s.slots i.td = some t
  old : ∀ td t, s.slots td = some t → t ≤ s.cnt
  apart : ∀ td td' t, s.slots td = some t → s.slots td' = some t → td = td'
  live : ∀ p ∈ s.sent, p.1 ≠ none
  alarms : ∀ t, (s.sent.filter fun p => p.1 = some t).map Prod.snd = x.alarms t

lemma timed_init : Timed .init .init where
  slots := rfl
  cnt := rfl
  clock := rfl
  early := by decide
  nodup := nodup_nil
  owned := by simp [State.init]
  once := by simp [State.init]
  armed := by simp [init]
  old := by simp [State.init]
  apart := by simp [State.init]
  live := by simp [State.init]
  alarms := by simp [State.init, init]

namespace Timed

variable {s : State} {x : Spec} {a b t t' : ℕ} {i j : Info} {v : Option (ℕ × ℕ)}

section

variable (h : Timed s x)
include h

lemma slot_of_thread (hi : s.slots i.td = some t) (hj : s.slots j.td = some t) : i.td = j.td :=
  h.apart _ _ _ hi hj

lemma thread_ne (ha : a ∈ s.list) (hb : b ∈ s.list) (hab : a ≠ b) (hi : s.heap a = some i)
    (hj : s.heap b = some j) (ht : s.slots i.td = some t) (ht' : s.slots j.td = some t') : t' ≠ t := by
  rintro rfl
  exact hab (h.once a ha b hb i j hi hj (h.slot_of_thread ht ht'))

omit h in
lemma ne_of_thread {k : Info} {u : ℕ} (hi : s.heap a = some i) (ht : s.slots i.td = some t) (hk : s.heap b = some k)
    (hu : s.slots k.td = some u) (hne : u ≠ t) : b ≠ a := by
  rintro rfl
  rw [hi, some_inj] at hk
  rw [← hk, ht, some_inj] at hu
  exact hne hu.symm

lemma rewrite (ha : a ∈ s.list) (hi : s.heap a = some i) (ht : s.slots i.td = some t) (hv : j.Expires v)
    (hj : j.td = i.td) :
    Timed { s with heap := update s.heap a (some j) } (x.arm t v) where
  __ := h
  owned := by
    intro b hb
    obtain rfl | hab := eq_or_ne a b
    · exact ⟨j, t, by simp, hj ▸ ht, by simpa using hv⟩
    · obtain ⟨k, u, hk, hu, he⟩ := h.owned b hb
      have hne := h.thread_ne ha hb hab hi hk ht hu
      refine ⟨k, u, (update_of_ne hab.symm _ _).trans hk, hu, ?_⟩
      rw [armed_arm_of_ne _ _ hne]
      exact he
  once := by
    have hold : ∀ b ∈ s.list, ∀ k, update s.heap a (some j) b = some k → ∃ k', s.heap b = some k' ∧ k.td = k'.td := by
      intro b hb k hk
      obtain rfl | hab := eq_or_ne a b
      · rw [update_self, some_inj] at hk
        exact ⟨i, hi, hk ▸ hj⟩
      · exact ⟨k, by rwa [update_of_ne hab.symm] at hk, rfl⟩
    intro b hb c hc k l hk hl hkl
    obtain ⟨k', hk', hkk⟩ := hold b hb k hk
    obtain ⟨l', hl', hll⟩ := hold c hc l hl
    exact h.once b hb c hc k' l' hk' hl' (hkk ▸ hll ▸ hkl)
  armed := by
    intro u hu
    obtain rfl | hne := eq_or_ne u t
    · exact ⟨a, ha, j, by simp, hj ▸ ht⟩
    · rw [armed_arm_of_ne _ _ hne] at hu
      obtain ⟨b, hb, k, hk, hku⟩ := h.armed u hu
      have hab := ne_of_thread hi ht hk hku hne
      exact ⟨b, hb, k, (update_of_ne hab _ _).trans hk, hku⟩

lemma remove (ha : a ∈ s.list) (hi : s.heap a = some i) (ht : s.slots i.td = some t) :
    Timed { s with list := s.list.erase a, heap := update s.heap a none } (x.arm t none) := by
  have hmem : ∀ {b}, b ∈ s.list.erase a → b ≠ a ∧ b ∈ s.list := fun hb => (h.nodup.mem_erase_iff).mp hb
  have hheap : ∀ {b}, b ∈ s.list.erase a → update s.heap a none b = s.heap b := fun hb =>
    update_of_ne (hmem hb).1 _ _
  exact {
    __ := h
    nodup := h.nodup.erase a
    owned := fun b hb => by
      obtain ⟨k, u, hk, hu, he⟩ := h.owned b (hmem hb).2
      have hne := h.thread_ne ha (hmem hb).2 (hmem hb).1.symm hi hk ht hu
      refine ⟨k, u, (hheap hb).trans hk, hu, ?_⟩
      rw [armed_arm_of_ne _ _ hne]
      exact he
    once := fun b hb c hc k l hk hl hkl =>
      h.once b (hmem hb).2 c (hmem hc).2 k l ((hheap hb).symm.trans hk) ((hheap hc).symm.trans hl) hkl
    armed := fun u hu => by
      have hne : u ≠ t := by
        rintro rfl
        simp at hu
      rw [armed_arm_of_ne _ _ hne] at hu
      obtain ⟨b, hb, k, hk, hku⟩ := h.armed u hu
      have hab := ne_of_thread hi ht hk hku hne
      have hb' := (h.nodup.mem_erase_iff).mpr ⟨hab, hb⟩
      exact ⟨b, hb', k, (hheap hb').trans hk, hku⟩ }

lemma not_mem_of_free (ha : s.heap a = none) : a ∉ s.list := fun hm => by
  obtain ⟨i, -, hi, -⟩ := h.owned a hm
  rw [ha] at hi
  cases hi

lemma alloc (ha : s.heap a = none) (ht : s.slots i.td = some t) (hno : s.Unarmed i.td) (hv : i.Expires v) :
    Timed { s with list := a :: s.list, heap := update s.heap a (some i) } (x.arm t v) := by
  have hnew := h.not_mem_of_free ha
  have hheap : ∀ {b}, b ∈ s.list → update s.heap a (some i) b = s.heap b := fun hb =>
    update_of_ne (by rintro rfl; exact hnew hb) _ _
  exact {
    __ := h
    nodup := nodup_cons.mpr ⟨hnew, h.nodup⟩
    owned := fun b hb => by
      obtain rfl | hb := mem_cons.mp hb
      · exact ⟨i, t, by simp, ht, by simpa using hv⟩
      · obtain ⟨k, u, hk, hu, he⟩ := h.owned b hb
        have hne : u ≠ t := by
          rintro rfl
          exact hno b hb k hk (h.slot_of_thread hu ht)
        refine ⟨k, u, (hheap hb).trans hk, hu, ?_⟩
        rw [armed_arm_of_ne _ _ hne]
        exact he
    once := fun b hb c hc k l hk hl hkl => by
      obtain hba | hb' := mem_cons.mp hb
      · obtain hca | hc' := mem_cons.mp hc
        · exact hba.trans hca.symm
        · have hik : i = k := by simpa [hba] using hk
          exact absurd (hik ▸ hkl).symm (hno c hc' l ((hheap hc').symm.trans hl))
      · obtain hca | hc' := mem_cons.mp hc
        · have hil : i = l := by simpa [hca] using hl
          exact absurd (hil ▸ hkl) (hno b hb' k ((hheap hb').symm.trans hk))
        · exact h.once b hb' c hc' k l ((hheap hb').symm.trans hk) ((hheap hc').symm.trans hl) hkl
    armed := fun u hu => by
      obtain rfl | hne := eq_or_ne u t
      · exact ⟨a, mem_cons_self, i, by simp, ht⟩
      · rw [armed_arm_of_ne _ _ hne] at hu
        obtain ⟨b, hb, k, hk, hku⟩ := h.armed u hu
        exact ⟨b, mem_cons_of_mem a hb, k, (hheap hb).trans hk, hku⟩ }

lemma send (ht : s.slots i.td = some t) :
    Timed { s with sent := s.sent ++ [(s.slots i.td, s.clock)] } (x.alarm t) where
  __ := h
  live := by
    intro p hp
    obtain hp | hp := mem_append.mp hp
    · exact h.live p hp
    · rw [mem_singleton.mp hp, ht]
      simp
  alarms := by
    intro u
    rw [filter_append, map_append, h.alarms u, ht, h.clock]
    obtain rfl | hne := eq_or_ne u t
    · simp [alarm]
    · simp [alarm, hne, hne.symm]

end

end Timed

section

variable {s : State} {x : Spec} {a t : ℕ} {i : Info} {Q : Unit → State → Prop} {E : Fault → Prop}
  {itv : Itimerval} {td : ℕ}

lemma wp_load {Q : Info → State → Prop} (hi : s.heap a = some i) (hQ : Q i s) : wp (load a) Q E s := by
  rw [load, wp_bind, wp_get, hi, wp_pure]
  exact hQ

lemma wp_store {f : Info → Info} (hi : s.heap a = some i)
    (hQ : Q () { s with heap := update s.heap a (some (f i)) }) : wp (store a f) Q E s := by
  rw [store, wp_bind]
  exact wp_load hi (wp_modify.mpr hQ)

lemma wp_itimerRemove (hi : s.heap a = some i)
    (hQ : Q () { s with list := s.list.erase a, heap := update s.heap a none }) :
    wp (itimerRemove a) Q E s := by
  rw [itimerRemove, wp_bind]
  exact wp_load hi (wp_modify.mpr hQ)

lemma wp_find {l : List ℕ} {Q : Option ℕ → State → Prop} (hl : ∀ a ∈ l, ∃ i, s.heap a = some i)
    (hnone : (∀ a ∈ l, ∀ i ∈ s.heap a, i.td ≠ td) → Q none s)
    (hsome : ∀ a ∈ l, ∀ i, s.heap a = some i → i.td = td → Q (some a) s) : wp (find td l) Q E s := by
  induction l with
  | nil => exact wp_pure.mpr (hnone (by simp))
  | cons a l ih =>
    obtain ⟨i, hi⟩ := hl a mem_cons_self
    rw [find, wp_bind]
    refine wp_load hi ?_
    by_cases htd : i.td = td
    · rw [if_pos htd, wp_pure]
      exact hsome a mem_cons_self i hi htd
    · rw [if_neg htd]
      refine ih (fun b hb => hl b (mem_cons_of_mem a hb)) (fun hno => hnone fun b hb => ?_)
        fun b hb => hsome b (mem_cons_of_mem a hb)
      obtain rfl | hb := mem_cons.mp hb
      · intro j hj
        have : i = j := by simpa [hi] using hj
        exact this ▸ htd
      · exact hno b hb

lemma Timed.wp_find {Q : Option ℕ → State → Prop} (h : Timed s x) (hnone : s.Unarmed td → Q none s)
    (hsome : ∀ a ∈ s.list, ∀ i, s.heap a = some i → i.td = td → Q (some a) s) : wp (find td s.list) Q E s :=
  Itimer.wp_find (fun a ha => let ⟨i, _, hi, _⟩ := h.owned a ha; ⟨i, hi⟩) hnone hsome

lemma toNat_timevalToCycle {freq : BitVec 64} {val : Timeval} (h : cyclesOf freq val < 2 ^ 63) :
    (timevalToCycle freq val).toNat = cyclesOf freq val := by
  unfold timevalToCycle cyclesOf at *
  rw [BitVec.toNat_add, toNat_mul, toNat_mul]
  have h1 : val.sec.toNat * freq.toNat < 2 ^ 64 := by omega
  have h2 : val.usec.toNat * (clockPerUsec freq).toNat < 2 ^ 64 := by omega
  rw [Nat.mod_eq_of_lt h1, Nat.mod_eq_of_lt h2, Nat.mod_eq_of_lt (by omega)]

lemma Timed.toNat_clock (h : Timed s x) : (BitVec.ofNat 64 s.clock).toNat = x.now := by
  have := h.early
  rw [BitVec.toNat_ofNat, Nat.mod_eq_of_lt (by omega), h.clock]

lemma Timed.expires (h : Timed s x) {freq : BitVec 64} {i : Info}
    (hvalue : cyclesOf freq itv.value < 2 ^ 63) (hinterval : cyclesOf freq itv.interval < 2 ^ 63)
    (hzero : cyclesOf freq itv.value ≠ 0)
    (hi : i = ⟨BitVec.ofNat 64 s.clock, timevalToCycle freq itv.value, timevalToCycle freq itv.interval, td⟩) :
    i.Expires (timeout freq x.now itv) := by
  have hnow := h.clock ▸ h.early
  subst hi
  constructor
  · rw [timeout, if_neg hzero, h.toNat_clock, toNat_timevalToCycle hvalue, toNat_timevalToCycle hinterval]
  · rw [h.toNat_clock, toNat_timevalToCycle hvalue]
    omega
  · rw [toNat_timevalToCycle hinterval]
    exact hinterval

lemma Spec.arm_self (x : Spec) (t : ℕ) : x.arm t (x.armed t) = x := by
  rw [arm, update_eq_self]

lemma Timed.unarmed (h : Timed s x) (ht : s.slots td = some t) (hno : s.Unarmed td) : x.armed t = none := by
  by_contra hne
  obtain ⟨a, ha, i, hi, hit⟩ := h.armed t hne
  exact hno a ha i hi (h.apart _ _ _ hit ht)

lemma Timed.itimerUpdate (h : Timed s x) {freq : BitVec 64} {td fresh : ℕ}
    (ht : s.slots td = some t) (hfresh : s.heap fresh = none) (hvalue : cyclesOf freq itv.value < 2 ^ 63)
    (hinterval : cyclesOf freq itv.interval < 2 ^ 63) (hdis : cyclesOf freq itv.value = 0 → s.Unarmed td) :
    wp (itimerUpdate freq td itv fresh) (fun _ s' => Timed s' (x.arm t (timeout freq x.now itv)))
      (fun _ => False) s := by
  have hzero : timevalToCycle freq itv.value = 0 ↔ cyclesOf freq itv.value = 0 := by
    rw [← toNat_timevalToCycle hvalue, toNat_eq]
    rfl
  rw [Itimer.itimerUpdate, wp_bind, wp_get, wp_bind]
  refine h.wp_find (fun hno => ?_) fun a ha i hi htd => ?_
  · by_cases hz : cyclesOf freq itv.value = 0
    · rw [if_neg (not_not.mpr (hzero.mpr hz)), wp_pure, timeout, if_pos hz, ← h.unarmed ht hno, arm_self]
      exact h
    · rw [if_pos (mt hzero.mp hz), itimerAlloc, wp_modify]
      exact h.alloc hfresh ht hno (h.expires hvalue hinterval hz rfl)
  · have hz : cyclesOf freq itv.value ≠ 0 := fun hz => hdis hz a ha i hi htd
    change wp (disarmOrSet a _ _ >>= fun _ => _) _ _ _
    rw [wp_bind, disarmOrSet, if_neg (mt hzero.mp hz)]
    refine wp_store hi (wp_store (update_self a _ s.heap) ?_)
    have hv : Info.Expires ⟨_, _, _, i.td⟩ _ := h.expires hvalue hinterval hz rfl
    simpa only [update_idem] using h.rewrite ha hi (htd ▸ ht) hv rfl

end

def Spec.tickOn (x : Spec) (done : List ℕ) : Spec :=
  { x with
    armed := fun t => if t ∈ done ∧ x.due t then (x.fire t).armed t else x.armed t
    alarms := fun t => if t ∈ done ∧ x.due t then x.alarms t ++ [x.now] else x.alarms t }

section

variable {x : Spec} {t : ℕ} {done : List ℕ}

lemma armed_tickOn (ht : t ∉ done) : (x.tickOn done).armed t = x.armed t := if_neg fun h => ht h.1

lemma tickOn_nil : x.tickOn [] = x := by simp [tickOn]

lemma tickOn_early (hd : x.due t = false) : x.tickOn (t :: done) = x.tickOn done := by
  have hiff (u : ℕ) : (u ∈ t :: done ∧ x.due u) ↔ (u ∈ done ∧ x.due u) := by
    refine and_congr_left fun hu => mem_cons.trans (or_iff_right ?_)
    rintro rfl
    rw [hd] at hu
    cases hu
  simp only [tickOn, hiff]

lemma tickOn_due (ht : t ∉ done) (hd : x.due t = true) : x.tickOn (t :: done) = (x.tickOn done).fire t := by
  have hother {u : ℕ} (hu : u ≠ t) : (u ∈ t :: done ∧ x.due u) ↔ (u ∈ done ∧ x.due u) :=
    and_congr_left fun _ => mem_cons.trans (or_iff_right hu)
  have hnow : (x.tickOn done).now = x.now := rfl
  have harmed (u : ℕ) : (x.tickOn (t :: done)).armed u = ((x.tickOn done).fire t).armed u := by
    obtain rfl | hu := eq_or_ne u t
    · rw [fire, armed_arm, armed_tickOn ht, hnow]
      exact (if_pos ⟨mem_cons_self, hd⟩).trans (armed_arm _ _ _)
    · rw [fire, armed_arm_of_ne _ _ hu]
      simp only [tickOn, alarm, hother hu]
  have halarms (u : ℕ) : (x.tickOn (t :: done)).alarms u = ((x.tickOn done).fire t).alarms u := by
    obtain rfl | hu := eq_or_ne u t
    · simp [tickOn, fire, alarm, arm, hd, ht]
    · simp only [tickOn, fire, alarm, arm, hother hu, update_of_ne hu]
  calc x.tickOn (t :: done) = ⟨x.slots, x.cnt, x.now, ((x.tickOn done).fire t).armed,
        ((x.tickOn done).fire t).alarms⟩ := by rw [← funext harmed, ← funext halarms]; rfl
    _ = (x.tickOn done).fire t := rfl

lemma tickOn_all {freq : BitVec 64} (h : ∀ t, x.armed t ≠ none → t ∈ done) : x.tickOn done = x.apply freq .tick := by
  have hiff (u : ℕ) : (u ∈ done ∧ x.due u) ↔ x.due u = true := by
    refine and_iff_right_of_imp fun hu => h u fun hn => ?_
    rw [due, hn] at hu
    cases hu
  simp only [tickOn, apply, hiff]

end

structure Ticking (x : Spec) (s : State) (done l : List ℕ) : Prop where
  timed : Timed s (x.tickOn done)
  nodup : l.Nodup
  left : ∀ a ∈ l, a ∈ s.list ∧ ∀ i t, s.heap a = some i → s.slots i.td = some t → t ∉ done
  all : ∀ t, x.armed t ≠ none → t ∈ done ∨ ∃ a ∈ l, ∃ i, s.heap a = some i ∧ s.slots i.td = some t

namespace Ticking

variable {x : Spec} {s s' : State} {done l : List ℕ} {a t : ℕ} {i : Info}

lemma start (h : Timed s x) : Ticking x s [] s.list where
  timed := tickOn_nil.symm ▸ h
  nodup := h.nodup
  left := fun _ ha => ⟨ha, fun _ _ _ _ => not_mem_nil⟩
  all := fun t ht => .inr (h.armed t ht)

section

variable (h : Ticking x s done (a :: l))
include h

lemma next (hi : s.heap a = some i) (ht : s.slots i.td = some t)
    (htimed : Timed s' (x.tickOn (t :: done))) (hslots : s'.slots = s.slots) (hheap : ∀ b ≠ a, s'.heap b = s.heap b)
    (hlist : ∀ b ≠ a, b ∈ s.list → b ∈ s'.list) : Ticking x s' (t :: done) l := by
  have hne : ∀ b ∈ l, b ≠ a := by
    rintro b hb rfl
    exact (nodup_cons.mp h.nodup).1 hb
  refine ⟨htimed, (nodup_cons.mp h.nodup).2, fun b hb => ?_, fun u hu => ?_⟩
  · obtain ⟨hbs, hbt⟩ := h.left b (mem_cons_of_mem a hb)
    refine ⟨hlist b (hne b hb) hbs, fun j u hj hju hmem => ?_⟩
    rw [hheap b (hne b hb)] at hj
    rw [hslots] at hju
    obtain rfl | hmem := mem_cons.mp hmem
    · exact h.timed.thread_ne (h.left a mem_cons_self).1 hbs (hne b hb).symm hi hj ht hju rfl
    · exact hbt j u hj hju hmem
  · obtain hdone | ⟨b, hb, j, hj, hju⟩ := h.all u hu
    · exact .inl (mem_cons_of_mem t hdone)
    · obtain rfl | hb := mem_cons.mp hb
      · rw [hi, some_inj] at hj
        rw [← hj, ht, some_inj] at hju
        exact .inl (hju ▸ mem_cons_self)
      · exact .inr ⟨b, hb, j, (hheap b (hne b hb)).trans hj, hslots ▸ hju⟩

lemma due_iff (ht : t ∉ done) (he : i.Expires ((x.tickOn done).armed t)) :
    x.due t = true ↔ i.start + i.lastTime ≤ BitVec.ofNat 64 s.clock := by
  rw [due, ← armed_tickOn ht, he.value, BitVec.le_def, BitVec.toNat_add, Nat.mod_eq_of_lt he.lt,
    h.timed.toNat_clock]
  exact decide_eq_true_iff

lemma rearmed_expires (he : i.Expires ((x.tickOn done).armed t))
    (hz : i.interval ≠ 0) :
    Info.Expires { i with lastTime := i.interval, start := BitVec.ofNat 64 s.clock }
      (((x.tickOn done).armed t).bind fun v => rearmed (x.tickOn done).now v.2) := by
  have hnow := h.timed.clock ▸ h.timed.early
  have hint := he.interval
  have hz' : i.interval.toNat ≠ 0 := fun h0 => hz (eq_of_toNat_eq h0)
  constructor
  · rw [he.value, bind_some, rearmed, if_neg hz', h.timed.toNat_clock]
  · change (BitVec.ofNat 64 s.clock).toNat + i.interval.toNat < 2 ^ 64
    rw [h.timed.toNat_clock]
    omega
  · exact hint

end

lemma wp_checkEntries {freq : BitVec 64} {clock : ℕ} (h : Ticking x s done l) (hc : s.clock = clock) :
    wp (checkEntries (BitVec.ofNat 64 clock) l) (fun _ s' => Timed s' (x.apply freq .tick)) (fun _ => False) s := by
  induction l generalizing s done with
  | nil =>
    rw [checkEntries, wp_pure, ← tickOn_all fun t ht => (h.all t ht).resolve_right (by simp)]
    exact h.timed
  | cons a l ih =>
    obtain ⟨ha, hleft⟩ := h.left a mem_cons_self
    obtain ⟨i, t, hi, ht, he⟩ := h.timed.owned a ha
    have hdone := hleft i t hi ht
    rw [checkEntries, wp_bind]
    refine wp_load hi ?_
    by_cases hd : x.due t = true
    · rw [if_pos (hc ▸ (h.due_iff hdone he).mp hd), wp_bind, sigSendTd, wp_modify]
      have hsent := h.timed.send ht
      have hfire := tickOn_due hdone hd
      by_cases hz : i.interval = 0
      · rw [if_neg (not_not.mpr hz), wp_bind]
        refine wp_itimerRemove hi (ih (h.next hi ht ?_ rfl ?_ ?_) hc)
        · rw [hfire, fire, he.value, bind_some, rearmed, if_pos (by simp [hz])]
          exact hsent.remove ha hi ht
        · exact fun b hb => update_of_ne hb _ _
        · exact fun b hb hbs => (h.timed.nodup.mem_erase_iff).mpr ⟨hb, hbs⟩
      · rw [if_pos hz, wp_bind]
        refine wp_store hi (ih (h.next hi ht ?_ rfl ?_ fun _ _ hbs => hbs) hc)
        · rw [hfire, fire]
          exact hsent.rewrite ha hi ht (hc ▸ h.rearmed_expires he hz) rfl
        · exact fun b hb => update_of_ne hb _ _
    · rw [if_neg (hc ▸ mt (h.due_iff hdone he).mpr hd)]
      refine ih (h.next hi ht ?_ rfl (fun _ _ => rfl) fun _ _ hbs => hbs) hc
      rw [tickOn_early (Bool.eq_false_iff.mpr hd)]
      exact h.timed

end Ticking

namespace Timed

variable {freq : BitVec 64} {s : State} {x : Spec} {slot : ℕ}

section

variable (h : Timed s x)
include h

lemma itimerCheck :
    wp Itimer.itimerCheck (fun _ s' => Timed s' (x.apply freq .tick)) (fun _ => False) s := by
  rw [Itimer.itimerCheck, wp_bind, wp_get]
  exact (Ticking.start h).wp_checkEntries rfl

lemma itimerGet {Q : Itimerval → State → Prop} (hQ : ∀ itv, Q itv s) :
    wp (Itimer.itimerGet freq slot) Q (fun _ => False) s := by
  rw [Itimer.itimerGet, wp_bind, wp_get, wp_bind]
  refine h.wp_find (fun _ => wp_pure.mpr (hQ _)) fun a _ i hi _ => ?_
  change wp (load a >>= fun i => pure _) _ _ _
  rw [wp_bind]
  exact wp_load hi (wp_pure.mpr (hQ _))

lemma create (hslot : s.slots slot = none) :
    Timed { s with slots := update s.slots slot (some (s.cnt + 1)), cnt := s.cnt + 1 }
      (x.apply freq (.create slot)) := by
  have hold {td t : ℕ} (ht : s.slots td = some t) : update s.slots slot (some (s.cnt + 1)) td = some t := by
    rw [update_of_ne ?_, ht]
    rintro rfl
    rw [hslot] at ht
    cases ht
  have hcases {td t : ℕ} (ht : update s.slots slot (some (s.cnt + 1)) td = some t) :
      td = slot ∧ t = s.cnt + 1 ∨ s.slots td = some t := by
    obtain rfl | hne := eq_or_ne td slot
    · exact .inl ⟨rfl, by simpa using ht.symm⟩
    · exact .inr (by rwa [update_of_ne hne] at ht)
  exact {
    slots := by simp only [apply, h.slots, h.cnt]
    cnt := by simp only [apply, h.cnt]
    __ := h
    owned := fun a ha => let ⟨i, t, hi, ht, he⟩ := h.owned a ha; ⟨i, t, hi, hold ht, he⟩
    armed := fun t hv => let ⟨a, ha, i, hi, ht⟩ := h.armed t hv; ⟨a, ha, i, hi, hold ht⟩
    old := fun td t ht => by
      obtain ⟨-, ht'⟩ | ht' := hcases ht
      · exact Nat.le_of_eq ht'
      · exact Nat.le_succ_of_le (h.old td t ht')
    apart := fun td td' t ht ht' => by
      obtain ⟨hs, hn⟩ | hu := hcases ht
      · obtain ⟨hs', -⟩ | hu' := hcases ht'
        · exact hs.trans hs'.symm
        · exact absurd (h.old td' t hu') (by omega)
      · obtain ⟨-, hn⟩ | hu' := hcases ht'
        · exact absurd (h.old td t hu) (by omega)
        · exact h.apart td td' t hu hu' }

lemma exit {t : ℕ} (ht : s.slots slot = some t) (hno : s.Unarmed slot) :
    Timed { s with slots := update s.slots slot none } (x.apply freq (.exit slot)) := by
  have hkept {a : ℕ} (ha : a ∈ s.list) {i : Info} (hi : s.heap a = some i) :
      update s.slots slot none i.td = s.slots i.td := update_of_ne (hno a ha i hi) _ _
  have hback {td u : ℕ} (hu : update s.slots slot none td = some u) : s.slots td = some u := by
    obtain rfl | hne := eq_or_ne td slot
    · simp at hu
    · rwa [update_of_ne hne] at hu
  have happly : x.apply freq (.exit slot) = { x with slots := update x.slots slot none } := by
    simp only [apply, ← h.slots, ht, ← h.unarmed ht hno, arm_self]
  rw [happly]
  exact {
    slots := by simp only [h.slots]
    __ := h
    owned := fun a ha => let ⟨i, t, hi, ht, he⟩ := h.owned a ha; ⟨i, t, hi, (hkept ha hi).trans ht, he⟩
    armed := fun t hv => let ⟨a, ha, i, hi, ht⟩ := h.armed t hv; ⟨a, ha, i, hi, (hkept ha hi).trans ht⟩
    old := fun td u hu => h.old td u (hback hu)
    apart := fun td td' u hu hu' => h.apart td td' u (hback hu) (hback hu') }

lemma pass {cycles : ℕ} (hc : s.clock + cycles < 2 ^ 63) :
    Timed { s with clock := s.clock + cycles } (x.apply freq (.pass cycles)) :=
  { h with
    slots := h.slots
    clock := by simp only [apply, h.clock]
    early := hc }

lemma step {e : Event} (he : e.Enabled s) (hc : e.Careful freq s) :
    wp (e.exec freq) (fun _ s' => Timed s' (x.apply freq e)) (fun _ => False) s := by
  cases e with
  | create slot => exact wp_modify.mpr (h.create he)
  | exit slot =>
    obtain ⟨t, ht⟩ := ne_none_iff_exists'.mp he
    exact wp_modify.mpr (h.exit ht hc)
  | set slot itv fresh =>
    obtain ⟨t, ht⟩ := ne_none_iff_exists'.mp he.1
    have happly : x.apply freq (.set slot itv fresh) = x.arm t (timeout freq x.now itv) := by
      simp only [apply, ← h.slots, ht]
    rw [happly]
    exact h.itimerUpdate ht he.2 hc.1 hc.2.1 hc.2.2
  | get slot =>
    rw [Event.exec, wp_bind]
    exact h.itimerGet fun _ => wp_pure.mpr h
  | tick => exact h.itimerCheck
  | pass cycles => exact wp_modify.mpr (h.pass hc)

end

end Timed

theorem timers_belong_to_their_threads (freq : BitVec 64) {es : List Event} {s : State}
    (hrun : Run (Event.CarefulStep freq) .init es s) :
    (s.list.Nodup ∧ ∀ a ∈ s.list, ∀ b ∈ s.list, ∀ i j, s.heap a = some i → s.heap b = some j → i.td = j.td → a = b) ∧
    (∀ a ∈ s.list, ∃ i t, s.heap a = some i ∧ s.slots i.td = some t ∧
      (es.foldl (Spec.apply freq) .init).armed t = some (i.start.toNat + i.lastTime.toNat, i.interval.toNat)) ∧
    (∀ t, (es.foldl (Spec.apply freq) .init).armed t ≠ none →
      ∃ a ∈ s.list, ∃ i, s.heap a = some i ∧ s.slots i.td = some t) ∧
    (∀ p ∈ s.sent, p.1 ≠ none) ∧
    (∀ t, (s.sent.filter fun p => p.1 = some t).map Prod.snd = (es.foldl (Spec.apply freq) .init).alarms t) ∧
    ∀ e : Event, e.Enabled s → e.Careful freq s → ∃ s', (e.exec freq).run s = .ok ((), s') := by
  have h : Timed s (es.foldl (Spec.apply freq) .init) :=
    hrun.folded timed_init fun a e b y hy ⟨hc, he, hstep⟩ => by
      have hb := wp_of_ok (hy.step he hc) hstep
      exact hb
  refine ⟨⟨h.nodup, h.once⟩, fun a ha => ?_, h.armed, h.live, h.alarms, fun e he hc => ?_⟩
  · obtain ⟨i, t, hi, ht, hx⟩ := h.owned a ha
    exact ⟨i, t, hi, ht, hx.value⟩
  · obtain ⟨_, s', hs, _⟩ := wp_total (h.step he hc)
    exact ⟨s', hs⟩

section Runs

def qemuFreq : BitVec 64 := 10000000

def micros (value interval : BitVec 64) : Itimerval := ⟨⟨0, interval⟩, ⟨0, value⟩⟩

instance (s : State) (slot : ℕ) : Decidable (s.Unarmed slot) :=
  inferInstanceAs (Decidable (∀ a ∈ s.list, ∀ i ∈ s.heap a, i.td ≠ slot))

instance (freq : BitVec 64) (s : State) : (e : Event) → Decidable (e.Careful freq s)
  | .exit slot => inferInstanceAs (Decidable (s.Unarmed slot))
  | .set slot itv _ => inferInstanceAs (Decidable (cyclesOf freq itv.value < 2 ^ 63 ∧
      cyclesOf freq itv.interval < 2 ^ 63 ∧ (cyclesOf freq itv.value = 0 → s.Unarmed slot)))
  | .pass cycles => inferInstanceAs (Decidable (s.clock + cycles < 2 ^ 63))
  | .create _ | .get _ | .tick => .isTrue trivial

def Event.next (freq : BitVec 64) : State → Event → Option State :=
  Run.guarded (fun s e => e.Enabled s) fun s e => Prog.next (e.exec freq) s

lemma step_of_next {freq : BitVec 64} {s s' : State} {e : Event} (h : Event.next freq s e = some s') :
    e.Step freq s s' := by
  obtain ⟨he, hn⟩ := Run.of_guarded h
  exact ⟨he, run_of_next hn⟩

def Event.carefulNext (freq : BitVec 64) : State → Event → Option State :=
  Run.guarded (fun s e => e.Careful freq s) (Event.next freq)

lemma careful_of_next {freq : BitVec 64} {s s' : State} {e : Event} (h : Event.carefulNext freq s e = some s') :
    e.CarefulStep freq s s' := by
  obtain ⟨hc, hn⟩ := Run.of_guarded h
  exact ⟨hc, step_of_next hn⟩

def oneTimer : List Event := [.create 0, .set 0 (micros 5 3) 7, .pass 100, .tick, .pass 20, .tick]

theorem timer_of_one_thread : ∃ s, Run (Event.CarefulStep qemuFreq) .init oneTimer s ∧ s.sent = [(some 2, 100)] ∧
    ∀ t, (s.sent.filter fun p => p.1 = some t).map Prod.snd =
      (oneTimer.foldl (Spec.apply qemuFreq) .init).alarms t := by
  obtain ⟨s, hrun, hsent⟩ := Run.of_eval (fun _ _ _ => careful_of_next)
    (show (oneTimer.foldlM (Event.carefulNext qemuFreq) .init).map State.sent = some [(some 2, 100)] by decide +kernel)
  exact ⟨s, hrun, hsent, (timers_belong_to_their_threads qemuFreq hrun).2.2.2.2.1⟩

def outlived : List Event := [.create 0, .set 0 (micros 5 0) 7, .exit 0, .create 0, .pass 100, .tick]

def distant : List Event := [.create 0, .pass 10, .set 0 ⟨⟨0, 0⟩, ⟨1844674407370, 955161⟩⟩ 7, .tick]

theorem timers_misfire : (∃ s, Run (Event.Step qemuFreq) .init outlived s ∧ s.sent = [(some 3, 100)]) ∧
    (∃ s, Run (Event.Step qemuFreq) .init [.create 0, .set 0 (micros 5 0) 7] s ∧
      (Event.set 0 (micros 0 0) 8).Enabled s ∧
      ((Event.set 0 (micros 0 0) 8).exec qemuFreq).run s = .error (.freed 7)) ∧
    ∃ s, Run (Event.Step qemuFreq) .init distant s ∧ s.sent = [(some 2, 10)] := by
  refine ⟨?_, ?_, ?_⟩
  · exact Run.of_eval (fun _ _ _ => step_of_next) (show (outlived.foldlM (Event.next qemuFreq) .init).map State.sent =
      some [(some 3, 100)] by decide +kernel)
  · refine ⟨_, .cons (step_of_next rfl) (.single (step_of_next rfl)), by decide, rfl⟩
  · exact Run.of_eval (fun _ _ _ => step_of_next) (show (distant.foldlM (Event.next qemuFreq) .init).map State.sent =
      some [(some 2, 10)] by decide +kernel)

end Runs

end FarmOS.Signal.Itimer

import FarmOS.Futex.Effect

/-! The queues of futex events, and what holds of them at each stage of a thread. -/

namespace FarmOS.Futex

open Proc Function List Events

variable {T : Type}

namespace Events

structure Ok (q : Events T) : Prop where
  free_iff (i : ℕ) : i ∈ q.free ↔ q.slot i = .free
  used_iff (i : ℕ) : i ∈ q.used ↔ q.slot i = .used
  free_nodup : q.free.Nodup
  used_nodup : q.used.Nodup
  waiter {i : ℕ} : i ∈ q.used → (q.fe i).waiterpid ≠ none
  unique {i j : ℕ} : i ∈ q.used → j ∈ q.used → (q.fe i).waiterpid = (q.fe j).waiterpid → i = j
  ticket_lt {i : ℕ} : i ∈ q.used → q.ticket i < q.tickets
  ordered : q.used.Pairwise fun i j => q.ticket i < q.ticket j

def Owns (q : Events T) (t : T) (i : ℕ) : Prop := i ∈ q.used ∧ (q.fe i).waiterpid = some t

def Absent (q : Events T) (t : T) : Prop := ∀ i, ¬ q.Owns t i

variable {q : Events T} {t u : T} {i j : ℕ} {fe : FutexEvent T} {rest : List ℕ}

lemma setEvent_owns (hi : i ∉ q.used) : (q.setEvent i fe).Owns u j ↔ q.Owns u j := by
  refine and_congr_right fun hj => ?_
  rw [show (q.setEvent i fe).fe j = q.fe j from update_of_ne (ne_of_mem_of_not_mem hj hi) ..]

lemma insert_owns : (q.insert i).Owns u j ↔ q.Owns u j ∨ j = i ∧ (q.fe i).waiterpid = some u := by
  simp only [Owns, insert, setSlot, mem_append, mem_singleton]
  constructor
  · rintro ⟨hj | rfl, hu⟩
    · exact .inl ⟨hj, hu⟩
    · exact .inr ⟨rfl, hu⟩
  · rintro (⟨hj, hu⟩ | ⟨rfl, hu⟩)
    · exact ⟨.inl hj, hu⟩
    · exact ⟨.inr rfl, hu⟩

lemma remove_owns (hn : q.used.Nodup) : (q.remove t i).Owns u j ↔ q.Owns u j ∧ j ≠ i := by
  simp only [Owns, remove, setEvent, setSlot, hn.mem_erase_iff]
  constructor
  · rintro ⟨⟨hne, hj⟩, hu⟩
    rw [update_of_ne hne] at hu
    exact ⟨⟨hj, hu⟩, hne⟩
  · rintro ⟨⟨hj, hu⟩, hne⟩
    rw [update_of_ne hne]
    exact ⟨⟨hne, hj⟩, hu⟩

namespace Ok

variable (h : q.Ok)
include h

lemma not_mem_used {a : Slot T} (hs : q.slot i = a) (ha : a ≠ .used) : i ∉ q.used :=
  fun hi => ha (hs.symm.trans ((h.used_iff i).mp hi))

lemma take (hfree : q.free = i :: rest) : (q.take t i rest).Ok := by
  have hnodup := h.free_nodup
  rw [hfree, nodup_cons] at hnodup
  have hi : q.slot i = .free := (h.free_iff i).mp (hfree ▸ mem_cons_self)
  have hused := h.not_mem_used hi nofun
  refine { h with free_iff := fun j => ?_, used_iff := fun j => ?_, free_nodup := hnodup.2 }
  · by_cases hj : j = i
    · subst hj
      simp [Events.take, setSlot, hnodup.1]
    · simp [Events.take, setSlot, ← h.free_iff, hfree, hj]
  · by_cases hj : j = i
    · subst hj
      simp [Events.take, setSlot, hused]
    · simp [Events.take, setSlot, update_of_ne hj, ← h.used_iff]

lemma fill (hi : i ∉ q.used) : (q.setEvent i fe).Ok := by
  have hfe : ∀ {j}, j ∈ q.used → (q.setEvent i fe).fe j = q.fe j := fun hj =>
    update_of_ne (ne_of_mem_of_not_mem hj hi) ..
  refine { h with waiter := fun hj => ?_, unique := fun hj hk => ?_ }
  · rw [hfe hj]
    exact h.waiter hj
  · rw [hfe hj, hfe hk]
    exact h.unique hj hk

lemma insert (hi : q.slot i = .held t) (ht : (q.fe i).waiterpid = some t) (ha : q.Absent t) : (q.insert i).Ok := by
  have hused := h.not_mem_used hi nofun
  have hne : ∀ {j}, j ∈ q.used → (q.fe j).waiterpid ≠ (q.fe i).waiterpid := fun hj he => ha _ ⟨hj, he.trans ht⟩
  have hticket : ∀ {j}, j ∈ q.used → (q.insert i).ticket j = q.ticket j := fun hj =>
    update_of_ne (ne_of_mem_of_not_mem hj hused) ..
  have hself : (q.insert i).ticket i = q.tickets := update_self ..
  have hmem : ∀ {j}, j ∈ (q.insert i).used → j ∈ q.used ∨ j = i := fun hj => by
    simpa [Events.insert] using hj
  refine ⟨fun j => ?_, fun j => ?_, h.free_nodup, ?_, fun hj => ?_, fun hj hk he => ?_, fun hj => ?_, ?_⟩
  · by_cases hj : j = i
    · subst hj
      simp [Events.insert, setSlot, h.free_iff, hi]
    · simp [Events.insert, setSlot, update_of_ne hj, h.free_iff]
  · by_cases hj : j = i
    · subst hj
      simp [Events.insert, setSlot]
    · simp [Events.insert, setSlot, ← h.used_iff, hj]
  · exact nodup_append.mpr ⟨h.used_nodup, nodup_singleton i, fun j hj k hk he =>
      hused (mem_singleton.mp hk ▸ he ▸ hj)⟩
  · rcases hmem hj with hj | rfl
    · exact h.waiter hj
    · exact ht ▸ nofun
  · rcases hmem hj with hj' | rfl <;> rcases hmem hk with hk' | rfl
    · exact h.unique hj' hk' he
    · exact absurd he (hne hj')
    · exact absurd he.symm (hne hk')
    · rfl
  · rcases hmem hj with hj | rfl
    · rw [hticket hj]
      exact (h.ticket_lt hj).trans (Nat.lt_succ_self _)
    · rw [hself]
      exact Nat.lt_succ_self _
  · refine pairwise_append.mpr ⟨?_, pairwise_singleton _ i, fun j hj k hk => ?_⟩
    · refine h.ordered.imp_of_mem fun hj hk hlt => ?_
      rwa [hticket hj, hticket hk]
    · rw [mem_singleton.mp hk, hticket hj, hself]
      exact h.ticket_lt hj

lemma remove (hi : i ∈ q.used) : (q.remove t i).Ok := by
  have hmem : ∀ {j}, j ∈ (q.remove t i).used → j ≠ i ∧ j ∈ q.used := fun hj => h.used_nodup.mem_erase_iff.mp hj
  have hfe : ∀ {j}, j ≠ i → (q.remove t i).fe j = q.fe j := fun hj => update_of_ne hj ..
  refine ⟨fun j => ?_, fun j => ?_, h.free_nodup, h.used_nodup.erase i, fun hj => ?_, fun hj hk => ?_,
    fun hj => h.ticket_lt (hmem hj).2, h.ordered.sublist erase_sublist⟩
  · by_cases hj : j = i
    · subst hj
      simp [Events.remove, setEvent, setSlot, h.free_iff, (h.used_iff j).mp hi]
    · simp [Events.remove, setEvent, setSlot, update_of_ne hj, h.free_iff]
  · by_cases hj : j = i
    · subst hj
      simp [Events.remove, setEvent, setSlot, h.used_nodup.mem_erase_iff]
    · simp [Events.remove, setEvent, setSlot, update_of_ne hj, ← h.used_iff, mem_erase_of_ne hj]
  · rw [hfe (hmem hj).1]
    exact h.waiter (hmem hj).2
  · rw [hfe (hmem hj).1, hfe (hmem hk).1]
    exact h.unique (hmem hj).2 (hmem hk).2

lemma put (hi : q.slot i = .held t) : (q.put i).Ok := by
  have hfree : i ∉ q.free := fun hf => nomatch hi.symm.trans ((h.free_iff i).mp hf)
  have hused := h.not_mem_used hi nofun
  refine { h with free_iff := fun j => ?_, used_iff := fun j => ?_, free_nodup := h.free_nodup.cons hfree }
  · by_cases hj : j = i
    · subst hj
      simp [Events.put, setSlot]
    · simp [Events.put, setSlot, ← h.free_iff, hj]
  · by_cases hj : j = i
    · subst hj
      simp [Events.put, setSlot, hused]
    · simp [Events.put, setSlot, update_of_ne hj, ← h.used_iff]

end Ok

lemma Ok.init (n : ℕ) : (Events.init n : Events T).Ok where
  free_iff i := by
    simp only [Events.init, mem_range]
    split_ifs with hi <;> simp [hi]
  used_iff i := by
    simp only [Events.init, not_mem_nil, false_iff]
    split_ifs <;> exact nofun
  free_nodup := nodup_range
  used_nodup := nodup_nil
  waiter h := absurd h not_mem_nil
  unique h := absurd h not_mem_nil
  ticket_lt h := absurd h not_mem_nil
  ordered := .nil

end Events

namespace Events

variable {q : Events T} {x : Entry T}

lemma entry_fst (h : x ∈ q.entries) : q.entry x.1 = x := by
  obtain ⟨i, -, rfl⟩ := mem_map.mp h
  rfl

lemma entries_fst (q : Events T) : q.entries.map Prod.fst = q.used := by
  rw [entries, map_map]
  exact map_id' q.used

lemma entries_congr {q' : Events T} (hu : q'.used = q.used) (hfe : ∀ i ∈ q.used, q'.fe i = q.fe i) :
    q'.entries = q.entries := by
  rw [entries, hu]
  exact map_congr_left fun i hi => congrArg (Prod.mk i) (hfe i hi)

end Events

def Hit (upa : ℕ) (x : Entry T) : Bool := x.2.upaddr == upa

structure Scan.Visited (w : Scan T) (n : ℕ) (q : Events T) (front : List (Entry T)) : Prop where
  before : w.before = front ++ w.rest.map q.entry
  now : q.entries = front.filter (! Hit w.upa ·) ++ w.rest.map q.entry
  count : n = (front.filter (Hit w.upa)).length
  lt : w.haswake < w.wakecnt
  nodup : (w.before.map Prod.fst).Nodup

structure Served (upa wakecnt n : ℕ) (before after front back : List (Entry T)) : Prop where
  split : before = front ++ back
  left : after = front.filter (! Hit upa ·) ++ back
  count : n = (front.filter (Hit upa)).length
  min_count : n = min wakecnt (before.filter (Hit upa)).length
  nodup : (before.map Prod.fst).Nodup

variable {q q' : Events T} {w : Scan T} {n i : ℕ} {rest : List ℕ} {front : List (Entry T)} {t u : T}

namespace Scan.Visited

lemma first (hq : q.used.Nodup) (upa : ℕ) (hn : 0 < n) : Visited ⟨upa, n, 0, q.used, q.entries⟩ 0 q [] :=
  ⟨rfl, rfl, rfl, hn, by rwa [q.entries_fst]⟩

variable (h : w.Visited n q front)
include h

lemma mem_used (hi : i ∈ w.rest) : i ∈ q.used := by
  have hmem : q.entry i ∈ q.entries := h.now ▸ mem_append_right _ (mem_map_of_mem hi)
  obtain ⟨j, hj, he⟩ := mem_map.mp hmem
  obtain rfl : j = i := congrArg Prod.fst he
  exact hj

lemma congr (hu : q'.used = q.used) (hfe : ∀ i ∈ q.used, q'.fe i = q.fe i) : w.Visited n q' front := by
  have hrest : w.rest.map q'.entry = w.rest.map q.entry :=
    map_congr_left fun i hi => congrArg (Prod.mk i) (hfe i (h.mem_used hi))
  exact ⟨hrest ▸ h.before, entries_congr hu hfe ▸ hrest ▸ h.now, h.count, h.lt, h.nodup⟩

lemma skip (hr : w.rest = i :: rest) (hi : (q.fe i).upaddr ≠ w.upa) :
    Visited { w with rest := rest } n q (front ++ [q.entry i]) := by
  have hhit : Hit w.upa (q.entry i) = false := beq_false_of_ne hi
  refine ⟨?_, ?_, ?_, h.lt, h.nodup⟩
  · rw [h.before, hr]
    simp
  · rw [h.now, hr]
    simp [hhit]
  · rw [h.count]
    simp [hhit]

lemma hit (hr : w.rest = i :: rest) : Visited { { w with rest := rest } with rest := i :: rest } n q front := by
  obtain ⟨upa, wakecnt, haswake, rest', before⟩ := w
  obtain rfl : rest' = i :: rest := hr
  exact h

lemma last (hr : w.rest = []) (hn : n = w.haswake) : Served w.upa w.wakecnt n w.before q.entries front [] := by
  have hb := h.before
  have hnow := h.now
  rw [hr, map_nil] at hb hnow
  refine ⟨hb, hnow, h.count, ?_, h.nodup⟩
  rw [hb, append_nil, ← h.count, min_eq_right]
  exact hn ▸ h.lt.le

lemma full (hn : n = w.wakecnt) : Served w.upa w.wakecnt n w.before q.entries front (w.rest.map q.entry) := by
  refine ⟨h.before, h.now, h.count, ?_, h.nodup⟩
  rw [h.before, filter_append, length_append, ← h.count, hn, min_eq_left (Nat.le_add_right ..)]

end Scan.Visited

lemma Served.not_mem {upa wakecnt : ℕ} {before back : List (Entry T)} {x : Entry T}
    (h : Served upa wakecnt n before q.entries front back) (hx : x ∈ front) (hit : Hit upa x = true) :
      x.1 ∉ q.used := by
  intro hmem
  obtain ⟨y, hy, hxy⟩ := mem_map.mp (q.entries_fst ▸ hmem)
  have hnodup := h.nodup
  rw [h.split, map_append] at hnodup
  rw [h.left] at hy
  rcases mem_append.mp hy with hy | hy
  · obtain ⟨hyf, hyh⟩ := mem_filter.mp hy
    obtain rfl : y = x := inj_on_of_nodup_map hnodup.of_append_left hyf hx hxy
    rw [hit] at hyh
    cases hyh
  · exact (disjoint_of_nodup_append hnodup) (mem_map_of_mem hx) (hxy ▸ mem_map_of_mem hy)

lemma Scan.Visited.remove (h : Scan.Visited { w with rest := i :: w.rest } n q front) (hq : q.used.Nodup)
    (hi : (q.fe i).upaddr = w.upa) : w.Visited (n + 1) (q.remove t i) (front ++ [q.entry i]) := by
  have hhit : Hit w.upa (q.entry i) = true := beq_iff_eq.mpr hi
  have hnow : q.entries = front.filter (! Hit w.upa ·) ++ q.entry i :: w.rest.map q.entry := h.now
  have hused : q.used = (front.filter (! Hit w.upa ·)).map Prod.fst ++ i :: w.rest := by
    rw [← q.entries_fst, hnow, map_append, map_cons, map_map]
    exact congrArg _ (congrArg _ (map_id' w.rest))
  rw [hused] at hq
  have hout : ∀ {j}, j ∈ (front.filter (! Hit w.upa ·)).map Prod.fst ∨ j ∈ w.rest → j ≠ i := by
    rintro j hj rfl
    have := nodup_middle.mp hq
    exact (nodup_cons.mp this).1 (mem_append.mpr hj)
  have hentry : ∀ {j}, j ≠ i → (q.remove t i).entry j = q.entry j := fun hj =>
    congrArg (Prod.mk _) (update_of_ne hj ..)
  have hrest : w.rest.map (q.remove t i).entry = w.rest.map q.entry :=
    map_congr_left fun j hj => hentry (hout (.inr hj))
  refine ⟨?_, ?_, ?_, h.lt, h.nodup⟩
  · rw [hrest, append_assoc]
    exact h.before
  · have herase : (q.remove t i).used = (front.filter (! Hit w.upa ·)).map Prod.fst ++ w.rest := by
      change q.used.erase i = _
      rw [hused, erase_append_right _ fun hi => hout (.inl hi) rfl, erase_cons_head]
    have hfront : (front.filter (! Hit w.upa ·)).map ((q.remove t i).entry ∘ Prod.fst) =
        (front.filter (! Hit w.upa ·)).map id := by
      refine map_congr_left fun x hx => ?_
      have hx' : x ∈ q.entries := hnow ▸ mem_append_left _ hx
      exact (hentry (hout (.inl (mem_map_of_mem hx)))).trans (entry_fst hx')
    rw [entries, herase, map_append, map_map, hfront, map_id, filter_append]
    simp [hhit]
  · rw [h.count]
    simp [hhit]

def Scan.Ahead (w : Scan T) (q : Events T) : Prop := ∃ front, w.Visited (w.haswake + 1) q front

def Stage.Holds (t : T) (q : Events T) : Stage T → Prop
  | .out | .slept .. => q.Absent t
  | .taken i => q.Absent t ∧ q.slot i = .held t
  | .filled i upa | .entered i upa =>
    q.Absent t ∧ q.slot i = .held t ∧ (q.fe i).waiterpid = some t ∧ (q.fe i).upaddr = upa
  | .queued i upa => q.Owns t i ∧ (q.fe i).upaddr = upa
  | .scanning w => q.Absent t ∧ ∃ front, w.Visited w.haswake q front
  | .removing i none => q.Owns t i
  | .removing i (some w) =>
    q.Absent t ∧ (∃ front, Scan.Visited { w with rest := i :: w.rest } w.haswake q front) ∧ (q.fe i).upaddr = w.upa
  | .removed i k => q.Absent t ∧ q.slot i = .held t ∧ ∀ w ∈ k, w.Ahead q
  | .freed i k | .announced i k => q.Absent t ∧ i ∉ q.used ∧ ∀ w ∈ k, w.Ahead q
  | .served w => q.Absent t ∧ ∃ front back, Served w.upa w.wakecnt w.haswake w.before q.entries front back
  | .expiring => False

variable {a b : Stage T} {ph : Phase Chan} {k : Option (Scan T)} {c : Stage T}

lemma Stage.Holds.removing_mem (h : (Stage.removing i k).Holds t q) : i ∈ q.used := by
  cases k with
  | none => exact h.1
  | some w =>
    obtain ⟨-, ⟨front, hv⟩, -⟩ := h
    exact hv.mem_used mem_cons_self

lemma Stage.locked_of_owns (h : a.Holds t q) (ho : q.Owns t i) : a.Locked := by
  cases a with
  | out | slept => exact absurd ho (h i)
  | taken | filled => exact absurd ho (h.1 i)
  | expiring => exact h
  | _ => trivial

lemma Effect.ok (h : Effect t q a ph b q') (hq : q.Ok) (ha : a.Holds t q) : q'.Ok := by
  cases h with
  | take hfree => exact hq.take hfree
  | fill => exact hq.fill (hq.not_mem_used ha.2 nofun)
  | insert => exact hq.insert ha.2.1 ha.2.2.1 ha.1
  | remove => exact hq.remove ha.removing_mem
  | put => exact hq.put ha.2.1
  | _ => exact hq

lemma Effect.holds (h : Effect t q a ph b q') (hq : q.Ok) (ha : a.Holds t q) (hph : ph.Holds) : b.Holds t q' := by
  cases h with
  | keep | enter | announce | wake => exact ha
  | take hfree => exact ⟨ha, update_self ..⟩
  | fill =>
    have hi := hq.not_mem_used ha.2 nofun
    refine ⟨fun j hj => ha.1 j ((setEvent_owns hi).mp hj), ha.2, ?_, ?_⟩
    all_goals simp [Events.setEvent]
  | insert => exact ⟨insert_owns.mpr (.inr ⟨rfl, ha.2.2.1⟩), ha.2.2.2⟩
  | mismatch => exact ha.1
  | sleep => exact absurd hph id
  | @remove i k =>
    have hslot : (q.remove t i).slot i = .held t := update_self ..
    refine ⟨fun j hj => ?_, hslot, fun w hw => ?_⟩
    · obtain ⟨hj, hne⟩ := (remove_owns hq.used_nodup).mp hj
      cases k with
      | none => exact hne (hq.unique hj.1 ha.1 (hj.2.trans ha.2.symm))
      | some w => exact ha.1 j hj
    · cases hw
      obtain ⟨-, ⟨front, hv⟩, hi⟩ := ha
      exact ⟨_, hv.remove hq.used_nodup hi⟩
  | put =>
    obtain ⟨habs, hslot, hk⟩ := ha
    exact ⟨habs, hq.not_mem_used hslot nofun, fun w hw => (hk w hw).imp fun _ hv => hv.congr rfl fun _ _ => rfl⟩
  | mismatched => exact ha.1
  | first hn => exact ⟨ha, [], .first hq.used_nodup _ hn⟩
  | hit hr hi => exact ⟨ha.1, ha.2.imp fun _ hv => hv.hit hr, hi⟩
  | skip hr hi =>
    obtain ⟨habs, front, hv⟩ := ha
    exact ⟨habs, _, hv.skip hr hi⟩
  | last hr =>
    obtain ⟨habs, front, hv⟩ := ha
    exact ⟨habs, _, _, hv.last hr rfl⟩
  | @count w i hn =>
    obtain ⟨habs, -, hk⟩ := ha
    obtain ⟨front, hv⟩ := hk w rfl
    exact ⟨habs, front, hv.before, hv.now, hv.count, Nat.lt_of_le_of_ne hv.lt hn, hv.nodup⟩
  | @full w i hn =>
    obtain ⟨habs, -, hk⟩ := ha
    obtain ⟨front, hv⟩ := hk w rfl
    exact ⟨habs, _, _, hv.full hn⟩
  | exit => exact ha.1

section

variable (h : Effect u q a ph b q') (hq : q.Ok) (ha : a.Holds u q)
include h hq ha

lemma Effect.absent (hne : t ≠ u) (ht : q.Absent t) : q'.Absent t := by
  cases h with
  | fill =>
    have hi := hq.not_mem_used ha.2 nofun
    exact fun j hj => ht j ((setEvent_owns hi).mp hj)
  | insert =>
    intro j hj
    rcases insert_owns.mp hj with hj | ⟨rfl, hu⟩
    · exact ht j hj
    · exact hne (Option.some.inj (hu.symm.trans ha.2.2.1))
  | remove => exact fun j hj => ht j ((remove_owns hq.used_nodup).mp hj).1
  | _ => exact ht

lemma Effect.held (hne : t ≠ u) (hi : q.slot i = .held t) : q'.slot i = .held t ∧ q'.fe i = q.fe i := by
  have hother : ∀ {j}, q.slot j = .held u → i ≠ j := by
    rintro j hj rfl
    exact hne (Slot.held.inj (hi.symm.trans hj))
  cases h with
  | @take j rest hfree =>
    have hj : q.slot j = .free := (hq.free_iff j).mp (hfree ▸ mem_cons_self)
    have hij : i ≠ j := by
      rintro rfl
      exact nomatch hi.symm.trans hj
    exact ⟨(update_of_ne hij ..).trans hi, rfl⟩
  | fill => exact ⟨hi, update_of_ne (hother ha.2) ..⟩
  | insert => exact ⟨(update_of_ne (hother ha.2.1) ..).trans hi, rfl⟩
  | @remove j k =>
    have hij : i ≠ j := by
      rintro rfl
      exact hq.not_mem_used hi nofun ha.removing_mem
    exact ⟨(update_of_ne hij ..).trans hi, update_of_ne hij ..⟩
  | put => exact ⟨(update_of_ne (hother ha.2.1) ..).trans hi, rfl⟩
  | _ => exact ⟨hi, rfl⟩

lemma Effect.owns (ht : q.Owns t i) : q'.Owns t i ∧ q'.fe i = q.fe i ∨ (∃ k, b = .removed i k) ∧ q'.Absent t := by
  cases h with
  | fill =>
    have hi := hq.not_mem_used ha.2 nofun
    exact .inl ⟨(setEvent_owns hi).mpr ht, update_of_ne (ne_of_mem_of_not_mem ht.1 hi) ..⟩
  | insert => exact .inl ⟨insert_owns.mpr (.inl ht), rfl⟩
  | @remove j k =>
    by_cases hij : i = j
    · subst hij
      refine .inr ⟨⟨k, rfl⟩, fun l hl => ?_⟩
      obtain ⟨hl, hne⟩ := (remove_owns hq.used_nodup).mp hl
      exact hne (hq.unique hl.1 ht.1 (hl.2.trans ht.2.symm))
    · exact .inl ⟨(remove_owns hq.used_nodup).mpr ⟨ht, hij⟩, update_of_ne hij ..⟩
  | _ => exact .inl ⟨ht, rfl⟩

lemma Effect.unlocked (hl : ¬ a.Locked) : q'.used = q.used ∧ ∀ i ∈ q.used, q'.fe i = q.fe i := by
  cases h with
  | fill =>
    have hi := hq.not_mem_used ha.2 nofun
    exact ⟨rfl, fun j hj => update_of_ne (ne_of_mem_of_not_mem hj hi) ..⟩
  | insert | remove | put => exact absurd trivial hl
  | _ => exact ⟨rfl, fun _ _ => rfl⟩

lemma Effect.stable (hc : c.Holds t q) (hne : t ≠ u) (hl : c.Locked → ¬ a.Locked) : c.Holds t q' := by
  have habs : q.Absent t → q'.Absent t := h.absent hq ha hne
  have hslot : ∀ {i}, q.slot i = .held t → q'.slot i = .held t ∧ q'.fe i = q.fe i := h.held hq ha hne
  have hsame : c.Locked → q'.used = q.used ∧ ∀ i ∈ q.used, q'.fe i = q.fe i := fun hlc => h.unlocked hq ha (hl hlc)
  have howns : c.Locked → ∀ {i}, q.Owns t i → q'.Owns t i := by
    intro hlc i ⟨hi, ht⟩
    obtain ⟨hused, hfe⟩ := hsame hlc
    exact ⟨hused ▸ hi, hfe i hi ▸ ht⟩
  have hahead : c.Locked → ∀ w : Scan T, w.Ahead q → w.Ahead q' := fun hlc w hw =>
    hw.imp fun _ hv => hv.congr (hsame hlc).1 (hsame hlc).2
  cases c with
  | out | slept => exact habs hc
  | taken => exact ⟨habs hc.1, (hslot hc.2).1⟩
  | filled | entered =>
    obtain ⟨h1, h2, h3⟩ := hc
    obtain ⟨hs, hf⟩ := hslot h2
    exact ⟨habs h1, hs, hf ▸ h3⟩
  | queued i upa => exact ⟨howns trivial hc.1, (hsame trivial).2 i hc.1.1 ▸ hc.2⟩
  | scanning w => exact ⟨habs hc.1, hc.2.imp fun _ hv => hv.congr (hsame trivial).1 (hsame trivial).2⟩
  | removing i k =>
    cases k with
    | none => exact howns trivial hc
    | some w =>
      have hi := hc.removing_mem
      obtain ⟨h1, h2, h3⟩ := hc
      exact ⟨habs h1, h2.imp fun _ hv => hv.congr (hsame trivial).1 (hsame trivial).2, (hsame trivial).2 i hi ▸ h3⟩
  | removed i k => exact ⟨habs hc.1, (hslot hc.2.1).1, fun w hw => hahead trivial w (hc.2.2 w hw)⟩
  | freed i k | announced i k =>
    exact ⟨habs hc.1, (hsame trivial).1 ▸ hc.2.1, fun w hw => hahead trivial w (hc.2.2 w hw)⟩
  | served w => exact ⟨habs hc.1, entries_congr (hsame trivial).1 (hsame trivial).2 ▸ hc.2⟩
  | expiring => exact hc

end

def Stage.Asserts (t : T) (q : Events T) (a : Stage T) : Phase Chan → Prop
  | .awake => a.Holds t q
  | .waking chan => a.Holds t q ∧ ∃ i k, a = .announced i k ∧ chan = .event i
  | .asleep chan => ∃ i upa, a = .slept i upa ∧ chan = .event i ∧ (q.Absent t ∨ q.Owns t i ∧ (q.fe i).upaddr = upa)
  | .woken => a.Holds t q ∧ ∃ i upa, a = .slept i upa

lemma Effect.asserts (h : Effect t q a ph b q') (hq : q.Ok) (ha : a.Holds t q) : b.Asserts t q' ph := by
  have hold := h.holds hq ha
  cases h with
  | sleep => exact ⟨_, _, rfl, rfl, .inr ha⟩
  | announce => exact ⟨hold trivial, _, _, rfl, rfl⟩
  | _ => exact hold trivial

lemma Effect.asserts_stable {ph' : Phase Chan} (h : Effect u q a ph b q') (hq : q.Ok) (ha : a.Holds u q)
    (hc : c.Asserts t q ph') (hne : t ≠ u) (hl : ph'.Holds → c.Locked → ¬ a.Locked) : c.Asserts t q' ph' := by
  cases ph' with
  | awake => exact h.stable hq ha hc hne (hl trivial)
  | waking chan => exact ⟨h.stable hq ha hc.1 hne (hl trivial), hc.2⟩
  | asleep chan =>
    obtain ⟨i, upa, rfl, rfl, hor⟩ := hc
    refine ⟨i, upa, rfl, rfl, ?_⟩
    rcases hor with habs | ⟨ho, hupa⟩
    · exact .inl (h.absent hq ha hne habs)
    · rcases h.owns hq ha ho with ⟨ho', hfe⟩ | ⟨-, habs⟩
      · exact .inr ⟨ho', hfe ▸ hupa⟩
      · exact .inl habs
  | woken =>
    obtain ⟨hc, i, upa, rfl⟩ := hc
    exact ⟨h.stable hq ha hc hne nofun, i, upa, rfl⟩

end FarmOS.Futex

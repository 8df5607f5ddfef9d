import FarmOS.Net.Handshake

/-! Requests are accepted in the order they were queued; a client that nobody wakes too early learns of its own. -/

namespace FarmOS.Net.Handshake

open Lib Function List State Nat

variable {T : Type*} {s s' : State T} {t : T} {e : Event T} {k : ℕ} {ph : Phase} {chan c : ℤ} {es : List (Event T)}

structure Ring (server : Socket) (queued : List Request) (accepted : List SocketAddr) : Prop where
  waitingT : server.waitingT = BitVec.ofNat 32 queued.length
  waitingH : server.waitingH = BitVec.ofNat 32 accepted.length
  order : accepted = (queued.map Request.addr).take accepted.length
  room : queued.length ≤ accepted.length + pendingCount
  slots (k : ℕ) (hk : k < queued.length) : accepted.length ≤ k →
    server.waitingQueue ((k % pendingCount : ℕ) : ℤ) = queued[k].addr

lemma slot_ofNat (hk : k < 2 ^ 31) : slot (BitVec.ofNat 32 k) = ((k % pendingCount : ℕ) : ℤ) := by
  have : (BitVec.ofNat 32 k).toInt = k := by
    rw [BitVec.toInt_eq_toNat_of_lt (by rw [BitVec.toNat_ofNat]; omega), BitVec.toNat_ofNat,
      mod_eq_of_lt (by omega)]
  rw [slot, this]
  rfl

namespace Ring

variable {server : Socket} {queued : List Request} {accepted : List SocketAddr} {r : Request}

section

variable (h : Ring server queued accepted)
include h

lemma le : accepted.length ≤ queued.length := by
  have := congrArg length h.order
  rw [length_take, length_map] at this
  omega

lemma pending : (server.waitingT - server.waitingH).toNat = queued.length - accepted.length := by
  have := h.le
  have := h.room
  simp only [pendingCount] at this
  rw [h.waitingT, h.waitingH, BitVec.toNat_sub, BitVec.toNat_ofNat, BitVec.toNat_ofNat]
  omega

lemma lt_of_not_full (hf : server.pendingFull = false) : queued.length < accepted.length + pendingCount := by
  have hp := h.pending
  have := h.room
  have hne : server.waitingT - server.waitingH ≠ BitVec.ofNat 32 pendingCount := of_decide_eq_false hf
  have : (server.waitingT - server.waitingH).toNat ≠ pendingCount := fun he =>
    hne (BitVec.eq_of_toNat_eq (by rw [he]; rfl))
  omega

lemma lt_of_not_empty (he : server.pendingEmpty = false) : accepted.length < queued.length := by
  refine lt_of_le_of_ne h.le fun hl => ?_
  have hne : server.waitingH ≠ server.waitingT := of_decide_eq_false he
  rw [h.waitingH, h.waitingT, hl] at hne
  exact hne rfl

lemma pend (hf : server.pendingFull = false) (hb : queued.length + 1 < 2 ^ 31) :
    Ring (server.pend r.addr) (queued ++ [r]) accepted := by
  have hlt := h.lt_of_not_full hf
  have hle := h.le
  have hslot : slot server.waitingT = ((queued.length % pendingCount : ℕ) : ℤ) := by
    rw [h.waitingT, slot_ofNat (by omega)]
  constructor
  · rw [Socket.pend, h.waitingT, length_append, BitVec.ofNat_add]
    rfl
  · exact h.waitingH
  · rw [map_append, take_append_of_le_length (by simpa using hle)]
    exact h.order
  · rw [length_append, length_singleton]
    omega
  · intro k hk hak
    change update server.waitingQueue (slot server.waitingT) r.addr _ = _
    rw [hslot]
    rw [length_append, length_singleton] at hk
    by_cases he : k = queued.length
    · subst he
      simp
    · have hne : ((k % pendingCount : ℕ) : ℤ) ≠ ((queued.length % pendingCount : ℕ) : ℤ) := by
        simp only [pendingCount] at hlt ⊢
        omega
      rw [update_of_ne hne, h.slots k (by omega) hak, getElem_append_left]

lemma unpend (he : server.pendingEmpty = false) (hb : queued.length < 2 ^ 31) :
    Ring server.unpend queued (accepted ++ [server.nextPending]) := by
  have hlt := h.lt_of_not_empty he
  have hnext : server.nextPending = queued[accepted.length].addr := by
    rw [Socket.nextPending, h.waitingH, slot_ofNat (by omega)]
    exact h.slots _ hlt (le_refl _)
  constructor
  · exact h.waitingT
  · rw [Socket.unpend, h.waitingH, length_append, BitVec.ofNat_add]
    rfl
  · rw [length_append, length_singleton, take_add_one, getElem?_map,
      getElem?_eq_getElem hlt, hnext]
    nth_rewrite 1 [h.order]
    rfl
  · have := h.room
    rw [length_append]
    omega
  · intro k hk hak
    rw [length_append, length_singleton] at hak
    exact h.slots k hk (by omega)

lemma pendedSlot (hb : queued.length + pendingCount < 2 ^ 31) :
    (server.pend r.addr).pendedSlot = ((queued.length % pendingCount : ℕ) : ℤ) := by
  have : server.waitingT + 1 - 1 + BitVec.ofNat 32 pendingCount = BitVec.ofNat 32 (queued.length + pendingCount) := by
    rw [BitVec.add_sub_cancel, h.waitingT, BitVec.ofNat_add]
  rw [Socket.pendedSlot, Socket.pend, this, slot_ofNat hb, add_mod_right]

lemma unpendedSlot (hb : accepted.length + pendingCount < 2 ^ 31) :
    server.unpend.unpendedSlot = ((accepted.length % pendingCount : ℕ) : ℤ) := by
  have : server.waitingH + 1 - 1 + BitVec.ofNat 32 pendingCount = BitVec.ofNat 32 (accepted.length + pendingCount) := by
    rw [BitVec.add_sub_cancel, h.waitingH, BitVec.ofNat_add]
  rw [Socket.unpendedSlot, Socket.unpend, this, slot_ofNat hb, add_mod_right]

end

end Ring

def Bounded (s : State T) : Prop := s.queued.length + pendingCount < 2 ^ 31

structure InOrder (s : State T) : Prop where
  accepted_prefix : s.accepted <+: s.queued.map Request.addr
  pending_nonneg : 0 ≤ s.server.waitingT.toInt - s.server.waitingH.toInt
  pending_le : s.server.waitingT.toInt - s.server.waitingH.toInt ≤ pendingCount
  kept (k : ℕ) (hk : k < s.queued.length) : s.accepted.length ≤ k →
    s.server.waitingQueue (slot (BitVec.ofNat 32 k)) = s.queued[k].addr

lemma Ring.inOrder (h : Ring s.server s.queued s.accepted) (hb : Bounded s) : InOrder s := by
  have hle := h.le
  have hroom := h.room
  rw [Bounded] at hb
  have hint {k : ℕ} (hk : k < 2 ^ 31) : (BitVec.ofNat 32 k).toInt = k := by
    rw [BitVec.toInt_eq_toNat_of_lt (by rw [BitVec.toNat_ofNat]; omega), BitVec.toNat_ofNat,
      mod_eq_of_lt (by omega)]
  refine ⟨?_, ?_, ?_, fun k hk hak => ?_⟩
  · rw [h.order]
    exact take_prefix _ _
  · rw [h.waitingT, h.waitingH, hint (by omega), hint (by omega)]
    omega
  · rw [h.waitingT, h.waitingH, hint (by omega), hint (by omega)]
    omega
  · rw [slot_ofNat (by omega)]
    exact h.slots k hk hak

structure Answered (s : State T) : Prop where
  waiting (t : T) (c : ℤ) (k : ℕ) : s.phase t = .waiting c k →
    c = ((k % pendingCount : ℕ) : ℤ) ∧ s.accepted.length ≤ k ∧ k < s.queued.length
  woken (t : T) (k : ℕ) : s.phase t = .woken k → k < s.accepted.length
  connected (k : ℕ) : k ∈ s.connected → k < s.accepted.length

def Apart (s : State T) : Prop := ∀ r ∈ s.queued, r.tid ≠ s.server.tid

lemma ring_init (server : Socket) : Ring (init server : State T).server [] [] :=
  ⟨rfl, rfl, rfl, zero_le _, nofun⟩

lemma wakeup_waiting (h : ph.wakeup chan = .waiting c k) : ph = .waiting c k ∧ c ≠ chan := by
  cases ph <;> simp only [Phase.wakeup] at h <;> grind

lemma wakeup_woken (h : ph.wakeup chan = .woken k) : ph = .woken k ∨ ph = .waiting chan k := by
  cases ph <;> simp only [Phase.wakeup] at h <;> grind

def Phase.waitsOn (chan : ℤ) : Phase → Bool
  | .waiting c _ => c = chan
  | _ => false

variable [DecidableEq T]

section

variable (h : Effect s s')
include h

lemma Effect.queued_prefix : s.queued <+: s'.queued := by
  cases h with
  | queue | own => exact prefix_append ..
  | _ => exact prefix_refl _

lemma Effect.tid : s'.server.tid = s.server.tid := by
  cases h <;> rfl

lemma Effect.bounded (hb : Bounded s') : Bounded s := by
  have := h.queued_prefix.length_le
  rw [Bounded] at hb ⊢
  omega

lemma Effect.apart (ha : Apart s') : Apart s := fun r hr => by
  rw [← h.tid]
  exact ha r (h.queued_prefix.subset hr)

lemma Effect.ring (hr : Ring s.server s.queued s.accepted) (hb : Bounded s') :
    Ring s'.server s'.queued s'.accepted := by
  have hb' := h.bounded hb
  rw [Bounded] at hb'
  cases h with
  | phase | keep | resume => exact hr
  | queue _ hf | own _ hf =>
    simp only [pendingCount] at hb'
    exact hr.pend hf (by omega)
  | take he => exact hr.unpend he (by omega)

end

lemma run_ring {server : Socket} (h : Run Step (init server) es s) :
    Bounded s → Ring s.server s.queued s.accepted :=
  h.invariant (P := fun s => Bounded s → Ring s.server s.queued s.accepted) (fun _ => ring_init server)
    fun _ _ _ hr hs hb => hs.effect.ring (hr (hs.effect.bounded hb)) hb

def Prompt (s : State T) (e : Event T) (s' : State T) : Prop :=
  Step s e s' ∧ (s'.queued.length ≠ s.queued.length → ∀ t, (s.phase t).waitsOn 0 = false)

namespace Answered

lemma setPhase (h : Answered s) (hw : ∀ c k, ph ≠ .waiting c k) (hk : ∀ k, ph ≠ .woken k) :
    Answered (s.setPhase t ph) := by
  refine ⟨fun u c k hu => h.waiting u c k ?_, fun u k hu => h.woken u k ?_, h.connected⟩
  all_goals
    simp only [State.setPhase] at hu
    by_cases hut : u = t
    · rw [hut, update_self] at hu
      first
      | exact absurd hu (hw _ _)
      | exact absurd hu (hk _)
    · rwa [update_of_ne hut] at hu

section

variable (h : Answered s) (hr : Ring s.server s.queued s.accepted)
include h hr

lemma queue {r : Request} (hb : Bounded s) (hz : ∀ t, (s.phase t).waitsOn 0 = false) :
    Answered (((s.enqueue r).wakeup 0).setPhase t (.waiting (s.server.pend r.addr).pendedSlot s.queued.length)) := by
  have hlen : (s.queued ++ [r]).length = s.queued.length + 1 := by simp
  refine ⟨fun u c k hu => ?_, fun u k hu => ?_, h.connected⟩
  · simp only [State.setPhase, State.wakeup, State.enqueue] at hu ⊢
    rw [hlen]
    by_cases hut : u = t
    · rw [hut, update_self, hr.pendedSlot hb] at hu
      obtain ⟨rfl, rfl⟩ := Phase.waiting.inj hu
      exact ⟨rfl, hr.le, lt_succ_self _⟩
    · rw [update_of_ne hut] at hu
      obtain ⟨hc, ha, hk⟩ := h.waiting u c k (wakeup_waiting hu).1
      exact ⟨hc, ha, lt_succ_of_lt hk⟩
  · simp only [State.setPhase, State.wakeup, State.enqueue] at hu ⊢
    by_cases hut : u = t
    · rw [hut, update_self] at hu
      cases hu
    · rw [update_of_ne hut] at hu
      rcases wakeup_woken hu with hu | hu
      · exact h.woken u k hu
      · exact absurd (hz u) (by simp [hu, Phase.waitsOn])

lemma take (hb : Bounded s) : Answered ((s.dequeue.wakeup s.server.unpend.unpendedSlot).setPhase t .idle) := by
  have hle := hr.le
  have hroom := hr.room
  have hslot : s.server.unpend.unpendedSlot = ((s.accepted.length % pendingCount : ℕ) : ℤ) :=
    hr.unpendedSlot (by rw [Bounded] at hb; omega)
  have hlen : (s.accepted ++ [s.server.nextPending]).length = s.accepted.length + 1 := by simp
  refine setPhase ⟨fun u c k hu => ?_, fun u k hu => ?_, fun k hk => ?_⟩ nofun nofun
  · simp only [State.wakeup, dequeue] at hu ⊢
    obtain ⟨hu, hne⟩ := wakeup_waiting hu
    obtain ⟨hc, ha, hk⟩ := h.waiting u c k hu
    rw [hlen]
    refine ⟨hc, ?_, hk⟩
    have : k ≠ s.accepted.length := by
      rintro rfl
      exact hne (hc.trans hslot.symm)
    omega
  · simp only [State.wakeup, dequeue] at hu ⊢
    rw [hlen]
    rcases wakeup_woken hu with hu | hu
    · exact lt_succ_of_lt (h.woken u k hu)
    · obtain ⟨hc, ha, hk⟩ := h.waiting u _ k hu
      rw [hslot] at hc
      simp only [pendingCount] at hc hroom
      omega
  · simp only [State.wakeup, dequeue] at hk ⊢
    rw [hlen]
    exact lt_succ_of_lt (h.connected k hk)

lemma effect (hb : Bounded s') (ha : Apart s')
    (he : Effect s s') (hz : s'.queued.length ≠ s.queued.length → ∀ t, (s.phase t).waitsOn 0 = false) :
      Answered s' := by
  have hb' := he.bounded hb
  cases he with
  | phase hw hk => exact h.setPhase hw hk
  | @keep t =>
    have hi : Answered (s.setPhase t .idle) := h.setPhase nofun nofun
    exact ⟨hi.waiting, hi.woken, hi.connected⟩
  | queue => exact h.queue hr hb' (hz (by simp [State.setPhase, State.wakeup, State.enqueue]))
  | own _ _ ht => exact absurd ht (ha _ (by simp [State.setPhase, State.wakeup, State.enqueue]))
  | @resume t k hp =>
    have hi : Answered (s.setPhase t .idle) := h.setPhase nofun nofun
    refine ⟨hi.waiting, hi.woken, fun j hj => ?_⟩
    rcases mem_append.mp hj with hj | hj
    · exact h.connected j hj
    · rw [mem_singleton.mp hj]
      exact h.woken t k hp
  | take => exact h.take hr hb'

end

end Answered

lemma run_answered {server : Socket} (h : Run Prompt (init server) es s) :
    Bounded s → Apart s → Ring s.server s.queued s.accepted ∧ Answered s :=
  h.invariant (P := fun s => Bounded s → Apart s → Ring s.server s.queued s.accepted ∧ Answered s)
    (fun _ _ => ⟨ring_init server, nofun, nofun, nofun⟩) fun _ _ _ hi hs hb ha => by
    have he := hs.1.effect
    obtain ⟨hr, hans⟩ := hi (he.bounded hb) (he.apart ha)
    exact ⟨he.ring hr hb, hans.effect hr hb ha he hs.2⟩

theorem handshake_in_order (server : Socket) (es : List (Event T)) (s : State T)
    (h : Run Step (init server) es s) (hb : Bounded s) :
    InOrder s ∧ (Run Prompt (init server) es s → Apart s → ∀ k ∈ s.connected, k < s.accepted.length) :=
  ⟨(run_ring h hb).inOrder hb, fun hp ha => (run_answered hp hb ha).2.connected⟩

section Runs

def promptNext [Fintype T] (s : State T) (e : Event T) : Option (State T) :=
  (next s e).filter fun s' => s'.queued.length ≠ s.queued.length → ∀ t, (s.phase t).waitsOn 0 = false

lemma prompt_of_next [Fintype T] (s : State T) (e : Event T) (s' : State T) (h : promptNext s e = some s') :
    Prompt s e s' := by
  obtain ⟨hs, hp⟩ := Option.filter_eq_some_iff.mp h
  exact ⟨hs, of_decide_eq_true hp⟩

def listener : Socket := { Socket.zero with used := true, type := sockStream, listening := true, tid := 9 }

def first : Request := ⟨⟨2, 10000, 1⟩, 1⟩
def second : Request := ⟨⟨2, 10001, 1⟩, 2⟩

def served : List (Event Bool) :=
  [.accept false false, .serve false true, .connect true first, .pend true, .serve false true, .resume true]

lemma served_eval : (served.foldlM promptNext (init listener)).map
    (fun s => (s.connected, s.accepted, s.queued.map Request.tid, s.server.tid)) =
      some ([0], [first.addr], [1], 9) := by
  decide +kernel

theorem handshake_served : ∃ s : State Bool, InOrder s ∧ s.connected = [0] ∧ ∀ k ∈ s.connected,
    k < s.accepted.length := by
  obtain ⟨s, hr, hv⟩ := Run.of_eval prompt_of_next served_eval
  simp only [Prod.mk.injEq] at hv
  obtain ⟨hc, ha, hq, ht⟩ := hv
  have hb : Bounded s := by
    rw [Bounded, ← length_map Request.tid, hq]
    decide
  have hapart : Apart s := fun r hr => by
    have : r.tid ∈ s.queued.map Request.tid := mem_map_of_mem hr
    rw [hq, mem_singleton] at this
    rw [this, ht]
    decide
  obtain ⟨ho, hk⟩ := handshake_in_order listener _ s (hr.mono fun _ _ _ h => h.1) hb
  exact ⟨s, ho, hc, hk hr hapart⟩

def woken : List (Event Bool) := [.connect true first, .pend true, .connect false second, .pend false, .resume true]

lemma woken_eval : (woken.foldlM next (init listener)).map
    (fun s => (s.connected, s.accepted, s.queued.map Request.tid, s.server.tid)) = some ([0], [], [1, 2], 9) := by
  decide +kernel

theorem connect_returns_unaccepted : ∃ s : State Bool, Run Step (init listener) woken s ∧ Bounded s ∧ Apart s ∧
    0 ∈ s.connected ∧ s.accepted = [] := by
  obtain ⟨s, hr, hv⟩ := Run.of_eval (fun _ _ _ => id) woken_eval
  simp only [Prod.mk.injEq] at hv
  obtain ⟨hc, ha, hq, ht⟩ := hv
  refine ⟨s, hr, ?_, fun r hr => ?_, by simp [hc], ha⟩
  · rw [Bounded, ← length_map Request.tid, hq]
    decide
  · have : r.tid ∈ s.queued.map Request.tid := mem_map_of_mem hr
    rw [hq] at this
    rw [ht]
    revert this
    generalize r.tid = d
    simp only [mem_cons, not_mem_nil, or_false]
    rintro (rfl | rfl) <;> decide

end Runs

end FarmOS.Net.Handshake

import FarmOS.Net.UdpContent

/-! What each socket was sent and what it gave out: in every orderly run datagrams arrive whole, once and in order. -/

namespace FarmOS.Net.Udp

open Lib Function List State
open State (setSocket setQueue)

def Phase.aim : Phase → Option (Request × Target)
  | .sending r g | .holding r g _ => some (r, g)
  | _ => none

def Phase.carries : Phase → Option (Target × ℕ)
  | .filled g m => some (g, m)
  | _ => none

lemma hand_of_carries {ph : Phase} {g : Target} {m : ℕ} (h : ph.carries = some (g, m)) : ph.hand = some m := by
  cases ph <;> simp_all [Phase.carries, Phase.hand]

variable {T : Type*}

def Datagram.Meant (d : Datagram) (sock : ℕ) : Prop := d.found = sock ∧ d.port = d.dst.port

structure History (s : State T) : Prop where
  order (id : ℕ) : (s.taken id).map Receipt.datagram <+: s.queued id
  current (i : ℕ) : (s.sockets i).used = true →
    s.queued (s.born i) = (s.taken (s.born i)).map Receipt.datagram ++ (s.queue i).map s.tag
  fresh (id : ℕ) : s.births ≤ id → s.queued id = [] ∧ s.taken id = []
  meant (id : ℕ) (d : Datagram) : d ∈ s.queued id → d.Meant id
  carried (t : T) (g : Target) (m : ℕ) : (s.phase t).carries = some (g, m) → (s.tag m).Meant g.sock
  aimed (t : T) (r : Request) (g : Target) : (s.phase t).aim = some (r, g) → g.port = r.dst.port

lemma history_init (mem : ℕ → UInt8) : History (init mem : State T) := by
  constructor <;> simp [init, Socket.zero, Phase.carries, Phase.aim]

variable {s s' : State T} {t : T} {i m : ℕ} {k : Socket} {loc : ℕ → Place T}

namespace History

lemma congr (h : History s) (hq : s'.queued = s.queued) (hk : s'.taken = s.taken) (ht : s'.tag = s.tag)
    (hb : s'.born = s.born) (hc : s'.births = s.births) (hp : s'.phase = s.phase)
    (hs : ∀ i, (s'.sockets i).used = true → (s.sockets i).used = true ∧ s'.queue i = s.queue i) : History s' := by
  refine ⟨?_, fun i hi => ?_, ?_, ?_, ?_, ?_⟩
  · rw [hq, hk]
    exact h.order
  · rw [hq, hk, hb, ht, (hs i hi).2]
    exact h.current i (hs i hi).1
  · rw [hq, hk, hc]
    exact h.fresh
  · rw [hq]
    exact h.meant
  · rw [hp, ht]
    exact h.carried
  · rw [hp]
    exact h.aimed

lemma fill {r : Request} {g : Target} (h : History s) (hl : Pooled s loc) (hp : s.phase t = .holding r g m) :
    History (s.fill r g m) ∧ ((s.fill r g m).tag m).Meant g.sock := by
  have hhand : s.hand t = some m := Pooled.hand_eq hp
  have htag {n : ℕ} (hn : n ≠ m) : (s.fill r g m).tag n = s.tag n := update_of_ne hn ..
  refine ⟨⟨h.order, fun i hi => ?_, h.fresh, h.meant, fun u g' n hu => ?_, h.aimed⟩, ?_⟩
  · have hmap : (s.queue i).map (s.fill r g m).tag = (s.queue i).map s.tag :=
      map_congr_left fun n hn => htag fun he => Pool.not_queue_of_hand hl hhand (he ▸ hn)
    exact (h.current i hi).trans (congrArg _ hmap.symm)
  · have hne : n ≠ m := by
      rintro rfl
      obtain rfl := Pool.hand_inj hl hhand (hand_of_carries hu)
      simp only [State.fill, hp, Phase.carries] at hu
      cases hu
    rw [htag hne]
    exact h.carried u g' n hu
  · simp only [State.fill, update_self]
    exact ⟨rfl, h.aimed t r g (by rw [hp]; rfl)⟩

lemma insert {g : Target} (h : History s) (hs : Slots s) (hp : s.phase t = .filled g m) :
    History (s.insert g.slot m) := by
  obtain ⟨hused, hborn⟩ := hs.goals t g.slot g.sock (by rw [hp]; rfl)
  have htag : (s.tag m).Meant g.sock := h.carried t g m (by rw [hp]; rfl)
  have hu (i : ℕ) : ((s.insert g.slot m).sockets i).used = (s.sockets i).used := by
    simp only [State.insert, State.wakeup, setQueue, setSocket]
    by_cases hi : i = g.slot
    · rw [hi, update_self]
    · rw [update_of_ne hi]
  have hqd (id : ℕ) : (s.insert g.slot m).queued id =
      if id = s.born g.slot then s.queued id ++ [s.tag m] else s.queued id := by
    simp only [State.insert, update_apply]
    split <;> simp_all
  refine ⟨fun id => ?_, fun i hi => ?_, fun id hid => ?_, fun id d hd => ?_, fun u g' n hn => ?_, fun u r g' hn => ?_⟩
  · rw [hqd]
    split
    · exact (h.order id).trans (prefix_append ..)
    · exact h.order id
  · rw [hu] at hi
    rw [queue_insert, hqd]
    change (if s.born i = s.born g.slot then s.queued (s.born i) ++ [s.tag m] else s.queued (s.born i)) =
      (s.taken (s.born i)).map _ ++ map s.tag _
    by_cases hig : i = g.slot
    · rw [hig, update_self, if_pos rfl, h.current g.slot hused, map_append, append_assoc]
      rfl
    · rw [update_of_ne hig, if_neg fun he => hig (hs.born_inj i g.slot hi hused he)]
      exact h.current i hi
  · have hlt := hs.born_lt g.slot hused
    have hid' : s.births ≤ id := hid
    rw [hqd, if_neg (by omega)]
    exact h.fresh id hid'
  · rw [hqd] at hd
    split at hd
    · next he =>
      rcases mem_append.mp hd with hd | hd
      · exact h.meant id d hd
      · rw [mem_singleton.mp hd, he, hborn]
        exact htag
    · exact h.meant id d hd
  · exact h.carried u g' n (of_wakeup Phase.carries (fun _ => rfl) .. ▸ hn)
  · exact h.aimed u r g' (of_wakeup Phase.aim (fun _ => rfl) .. ▸ hn)

lemma receive {a : Ask} {ms : List ℕ} (h : History s) (hs : Slots s) (hused : (s.sockets a.l).used = true)
    (hq : (s.sockets a.l).messages = m :: ms) : History (s.receive a m) := by
  have hu (i : ℕ) : ((s.receive a m).sockets i).used = (s.sockets i).used := by
    simp only [State.receive, setQueue, setSocket]
    by_cases hi : i = a.l
    · rw [hi, update_self]
    · rw [update_of_ne hi]
  have hqueue := queue_receive hq
  have htk (id : ℕ) : ((s.receive a m).taken id).map Receipt.datagram =
      if id = s.born a.l then (s.taken id).map Receipt.datagram ++ [s.tag m]
      else (s.taken id).map Receipt.datagram := by
    simp only [State.receive, update_apply]
    split
    · next he => simp [he]
    · rfl
  have hcur : s.queued (s.born a.l) = (s.taken (s.born a.l)).map Receipt.datagram ++ s.tag m :: ms.map s.tag := by
    rw [h.current a.l hused, queue, hq]
    rfl
  refine ⟨fun id => ?_, fun i hi => ?_, fun id hid => ?_, h.meant, h.carried, h.aimed⟩
  · rw [htk]
    change _ <+: s.queued id
    split
    · next he =>
      rw [he, hcur]
      exact ⟨ms.map s.tag, by rw [append_assoc, singleton_append]⟩
    · exact h.order id
  · rw [hu] at hi
    rw [hqueue]
    change s.queued (s.born i) = ((s.receive a m).taken (s.born i)).map _ ++ map s.tag _
    rw [htk]
    by_cases hia : i = a.l
    · rw [hia, update_self, if_pos rfl, hcur, append_cons]
    · rw [update_of_ne hia, if_neg fun he => hia (hs.born_inj i a.l hi hused he)]
      exact h.current i hi
  · have hlt := hs.born_lt a.l hused
    have hid' : s.births ≤ id := hid
    obtain ⟨hq0, ht0⟩ := h.fresh id hid'
    have htaken : (s.receive a m).taken id = s.taken id := update_of_ne (by omega) ..
    exact ⟨hq0, htaken.trans ht0⟩

lemma create (h : History s) (hm : k.messages = []) : History (s.create i k) := by
  have hbi : (s.create i k).born i = s.births := update_self ..
  have hbj {j : ℕ} (hj : j ≠ i) : (s.create i k).born j = s.born j := update_of_ne hj ..
  have hsj {j : ℕ} (hj : j ≠ i) : (s.create i k).sockets j = s.sockets j := update_of_ne hj ..
  refine ⟨h.order, fun j hj => ?_, fun id hid => h.fresh id (Nat.le_of_succ_le hid), h.meant, h.carried, h.aimed⟩
  by_cases hji : j = i
  · obtain ⟨hq0, ht0⟩ := h.fresh s.births (Nat.le_refl _)
    have hqueue : (s.create i k).queue i = [] := by
      rw [← hm, queue]
      exact congrArg Socket.messages (update_self ..)
    rw [hji, hbi, hqueue]
    change s.queued s.births = (s.taken s.births).map _ ++ _
    rw [hq0, ht0]
    rfl
  · rw [hsj hji] at hj
    have hqueue : (s.create i k).queue j = s.queue j := by rw [queue, hsj hji, queue]
    rw [hbj hji, hqueue]
    exact h.current j hj

variable [DecidableEq T]

lemma setPhase (h : History s) {ph : Phase} (hc : ∀ g n, ph.carries = some (g, n) → (s.tag n).Meant g.sock)
    (ha : ∀ r g, ph.aim = some (r, g) → g.port = r.dst.port) : History (s.setPhase t ph) := by
  have hcarried := (forall_update_iff s.phase (a := t) fun _ p => ∀ g n, p.carries = some (g, n) →
    (s.tag n).Meant g.sock).mpr ⟨hc, fun u _ => h.carried u⟩
  have haimed := (forall_update_iff s.phase (a := t) fun _ p => ∀ r g, p.aim = some (r, g) →
    g.port = r.dst.port).mpr ⟨ha, fun u _ => h.aimed u⟩
  exact { h with carried := hcarried, aimed := haimed }

lemma stay (h : History s) {old ph : Phase} (hp : s.phase t = old) (hc : ph.carries = none)
    (ha : ph.aim = none ∨ ph.aim = old.aim) : History (s.setPhase t ph) := by
  refine h.setPhase (fun g n hn => ?_) fun r g hr => ?_
  · rw [hc] at hn
    cases hn
  · rcases ha with he | he
    · rw [he] at hr
      cases hr
    · exact h.aimed t r g (by rw [hp, ← he, hr])

lemma effect (h : History s) (hl : Pooled s loc) (hs : Slots s) (he : Effect s s') : History s' := by
  cases he with
  | call hp | pass hp | quit hp | fail hp | ask hp | doze hp => exact h.stay hp rfl (.inl rfl)
  | found hp hd =>
    refine h.setPhase (by rintro _ _ ⟨⟩) ?_
    rintro r g ⟨⟩
    simp only [Socket.datagramAt, Bool.and_eq_true, decide_eq_true_eq] at hd
    exact hd.1.2
  | @alloc t r g m page rest hp =>
    have hc : History (s.alloc m rest page) := h.congr rfl rfl rfl rfl rfl rfl fun _ hi => ⟨hi, rfl⟩
    exact hc.stay hp rfl (.inr rfl)
  | @fill t r g m hp =>
    obtain ⟨hf, hm⟩ := h.fill hl hp
    refine hf.setPhase ?_ (by rintro _ _ ⟨⟩)
    rintro g' n ⟨⟩
    exact hm
  | @insert t g m hp =>
    exact (h.insert hs hp).stay (phase_insert hp) rfl (.inl rfl)
  | receive hp hq => exact (h.receive hs (hs.used_of_goal hp rfl) hq).stay hp rfl (.inl rfl)
  | @free t m hp =>
    have hc : History (s.messageFree m) := h.congr rfl rfl rfl rfl rfl rfl fun _ hi => ⟨hi, rfl⟩
    exact hc.stay hp rfl (.inl rfl)
  | @drained t i m hp =>
    have hc : History (s.messageFree m) := h.congr rfl rfl rfl rfl rfl rfl fun _ hi => ⟨hi, rfl⟩
    exact hc.stay hp rfl (.inl rfl)
  | @map t i hp =>
    have hc : History (s.setMapped i true) := h.congr rfl rfl rfl rfl rfl rfl fun _ hi => ⟨hi, rfl⟩
    exact hc.stay hp rfl (.inl rfl)
  | @unmap t i hp =>
    have hc : History (s.setMapped i false) := h.congr rfl rfl rfl rfl rfl rfl fun _ hi => ⟨hi, rfl⟩
    exact hc.stay hp rfl (.inl rfl)
  | create hp _ _ hm => exact (h.create hm).stay hp rfl (.inl rfl)
  | @shut t i hp =>
    have hc : History (s.shut t i) := h.congr rfl rfl rfl rfl rfl rfl fun j hj => by
      refine ⟨?_, congrFun (queue_shut s t i) j⟩
      by_cases hji : j = i
      · subst hji
        simp [shut, setSocket, Socket.clear] at hj
      · simpa [shut, setSocket, hji] using hj
    exact hc.stay hp rfl (.inl rfl)
  | @drain t i m ms hp =>
    have hused := (hs.owned t i (by rw [hp]; rfl)).2
    have hc : History (s.setQueue i ms) := h.congr rfl rfl rfl rfl rfl rfl fun j hj => by
      have hji : j ≠ i := by
        rintro rfl
        simp [setQueue, setSocket, hused] at hj
      rw [queue_setQueue, update_of_ne hji]
      exact ⟨by simpa [setQueue, setSocket, hji] using hj, rfl⟩
    exact hc.stay hp rfl (.inl rfl)
  | @unlock t i hp =>
    have hc : History (s.unlock i) := h.congr rfl rfl rfl rfl rfl rfl fun j hj => by
      refine ⟨?_, congrFun (queue_unlock s i) j⟩
      by_cases hji : j = i
      · subst hji
        simpa [unlock, setSocket] using hj
      · simpa [unlock, setSocket, hji] using hj
    exact hc.stay hp rfl (.inl rfl)
  | @address i k hu hm =>
    refine h.congr rfl rfl rfl rfl rfl rfl fun j hj => ⟨?_, congrFun (queue_setSocket_same hm) j⟩
    by_cases hji : j = i
    · subst hji
      simpa [setSocket, hu] using hj
    · simpa [setSocket, hji] using hj

end History

structure Inv (s : State T) : Prop where
  slots : Slots s
  pooled : ∃ loc, Pooled s loc
  content : Content s
  history : History s

lemma inv_init (mem : ℕ → UInt8) : Inv (init mem : State T) :=
  ⟨slots_init mem, ⟨_, Pool.init messageCount⟩, content_init mem, history_init mem⟩

structure Delivered (s : State T) : Prop where
  order (sock : ℕ) : (s.taken sock).map Receipt.datagram <+: s.queued sock
  meant (sock : ℕ) (d : Datagram) : d ∈ s.queued sock → d.found = sock ∧ d.port = d.dst.port
  whole (sock : ℕ) (r : Receipt) : r ∈ s.taken sock → r.bytes = r.datagram.data.take r.len

structure Conserved (s : State T) : Prop where
  place (m : ℕ) : m < messageCount → ∃! p : Place T, p.Holds s.free s.queue s.hand m
  free_nodup : s.free.Nodup
  queue_nodup (i : ℕ) : (s.queue i).Nodup
  queue_open (i m : ℕ) : m ∈ s.queue i → (s.sockets i).used = true ∨ ∃ t, (s.phase t).drains = some i

def Fits (s : State T) : Prop := ∀ m, s.Stored m → (s.message m).length.toNat ≤ pageSize

lemma Inv.conserved (h : Inv s) : Conserved s := by
  obtain ⟨hs, ⟨loc, hl⟩, -, -⟩ := h
  refine ⟨fun m hm => Pool.unique hl hm, hl.free_nodup, hl.queue_nodup, fun i m hm => ?_⟩
  by_cases hu : (s.sockets i).used = true
  · exact .inl hu
  · right
    cases hh : s.holder i with
    | none =>
      rw [queue, hs.stale i (by simpa using hu) hh] at hm
      cases hm
    | some t => exact ⟨t, hs.keeper t i hh⟩

lemma Inv.fits (h : Inv s) : Fits s := fun m hm => by
  obtain ⟨hlen, hfit, -⟩ := h.content.stored m hm
  rw [hlen, BitVec.toNat_ofNat]
  exact Nat.le_trans (Nat.mod_le _ _) hfit

variable [DecidableEq T]

lemma Inv.effect (h : Inv s) (he : Effect s s') : Inv s' := by
  obtain ⟨hs, ⟨loc, hl⟩, hc, hh⟩ := h
  exact ⟨hs.effect he, hl.effect hs he, hc.effect hl hs he, hh.effect hl hs he⟩

def OrderlyStep (s : State T) (e : Event T) (s' : State T) : Prop := Orderly s e ∧ Step s e s'

theorem datagrams_delivered (mem : ℕ → UInt8) (es : List (Event T)) (s : State T)
    (h : Run OrderlyStep (init mem) es s) : Delivered s ∧ Fits s ∧ Conserved s := by
  have hi := h.invariant (inv_init mem) fun _ _ _ hi hs => hi.effect (hs.2.effect hs.1)
  exact ⟨⟨hi.history.order, hi.history.meant, hi.content.receipts⟩, hi.fits, hi.conserved⟩

section Runs

instance [Fintype T] (s : State T) : DecidablePred (Orderly s)
  | .sendto _ _ _ data => inferInstanceAs (Decidable (data.length ≤ pageSize))
  | .close _ i => inferInstanceAs (Decidable (∀ u, (s.phase u).uses i = false))
  | .receive t =>
    inferInstanceAs (Decidable (∀ a ∈ (s.phase t).ask, ∀ m ∈ s.pick a, (s.sockets a.l).messages.head? = some m))
  | .seek _ | .alloc _ _ | .fill _ | .insert _ | .recvfrom _ _ _ _ | .release _ | .socket _ | .create _ _ _ _ _
  | .drain _ | .unmap _ | .address _ _ _ _ _ => .isTrue trivial

def orderlyNext [Fintype T] (s : State T) (e : Event T) : Option (State T) := if Orderly s e then next s e else none

lemma orderly_of_next [Fintype T] (s : State T) (e : Event T) (s' : State T) (h : orderlyNext s e = some s') :
    OrderlyStep s e s' := by
  rw [orderlyNext] at h
  split at h
  · exact ⟨‹_›, h⟩
  · cases h

def boot : State Bool := init fun _ => 0

def twoSockets : List (Event Bool) :=
  [.socket true, .create true 2 sockDgram 1 fun _ => 0, .socket true, .create true 2 sockDgram 1 fun _ => 0,
    .address 0 ⟨2, 5, 0⟩ .zero false (-1), .address 1 ⟨2, 7, 0⟩ .zero false (-1)]

def sends (l : ℕ) (data : List UInt8) (page : ℕ) : List (Event Bool) :=
  [.sendto true l ⟨2, 7, 0⟩ data, .seek true, .seek true, .alloc true page, .fill true, .insert true]

def exchange : List (Event Bool) :=
  twoSockets ++ sends 0 [1, 2, 3] 8 ++ [.recvfrom false 1 2 false, .receive false, .release false]

lemma exchange_eval : (exchange.foldlM orderlyNext boot).map
    (fun s => ((s.taken 1).map fun r => (r.bytes, r.datagram.data), (s.phase true).hand, s.free.getLast?)) =
      some ([([1, 2], [1, 2, 3])], none, some 0) := by
  decide +kernel

theorem datagrams_delivered_exchange : ∃ s : State Bool, Run OrderlyStep boot exchange s ∧ Delivered s ∧ Fits s ∧
    Conserved s ∧ ∃ r ∈ s.taken 1, r.bytes = [1, 2] := by
  obtain ⟨s, hr, hv⟩ := Run.of_eval orderly_of_next exchange_eval
  obtain ⟨hd, hf, hc⟩ := datagrams_delivered _ _ s hr
  obtain ⟨r, hrs, he⟩ := map_eq_singleton_iff.mp (Prod.mk.inj hv).1
  exact ⟨s, hr, hd, hf, hc, r, by simp [hrs], (Prod.mk.inj he).1⟩

def tooLong : List (Event Bool) := twoSockets ++ (sends 0 (replicate 5000 0) 8).take 5

lemma tooLong_eval : (tooLong.foldlM next boot).map (fun s => ((s.phase true).parcel, (s.message 0).length.toNat)) =
    some (some 0, 5000) := by
  decide +kernel

def tooLate : List (Event Bool) :=
  twoSockets ++ (sends 0 [1] 8).take 3 ++ [.close false 1, .drain false, .unmap false] ++ (sends 0 [1] 8).drop 3

lemma tooLate_eval : (tooLate.foldlM next boot).map
    (fun s => (s.queue 1, (s.sockets 1).used, (s.phase true).drains, (s.phase false).drains)) =
      some ([0], false, none, none) := by
  decide +kernel

def passedOver : List (Event Bool) :=
  twoSockets ++ [.address 1 ⟨2, 7, 0⟩ ⟨2, 6, 0⟩ false (-1)] ++
    [.socket true, .create true 2 sockDgram 1 fun _ => 0, .address 2 ⟨2, 6, 0⟩ .zero false (-1)] ++
    sends 0 [1] 8 ++ sends 2 [2] 9 ++ [.recvfrom false 1 2 true, .receive false]

lemma passedOver_eval : (passedOver.foldlM next boot).map
    (fun s => ((s.taken 1).map (·.datagram.data), (s.queued 1).map (·.data))) = some ([[2]], [[1], [2]]) := by
  decide +kernel

theorem datagrams_lost_and_overflowing :
    (∃ s : State Bool, Run Step boot tooLong s ∧ ¬ Fits s) ∧ (∃ s : State Bool, Run Step boot tooLate s ∧
      ¬ Conserved s) ∧
      ∃ s : State Bool, Run Step boot passedOver s ∧ ¬ Delivered s := by
  refine ⟨?_, ?_, ?_⟩
  · obtain ⟨s, hr, hv⟩ := Run.of_eval (fun _ _ _ => id) tooLong_eval
    obtain ⟨hp, hl⟩ := Prod.mk.inj hv
    refine ⟨s, hr, fun hf => ?_⟩
    have := hf 0 (.inr ⟨true, hp⟩)
    rw [hl] at this
    exact absurd this (by decide)
  · obtain ⟨s, hr, hv⟩ := Run.of_eval (fun _ _ _ => id) tooLate_eval
    simp only [Prod.mk.injEq] at hv
    obtain ⟨hq, hu, ht, hf⟩ := hv
    refine ⟨s, hr, fun hc => ?_⟩
    rcases hc.queue_open 1 0 (by simp [hq]) with h | ⟨t, h⟩
    · rw [hu] at h
      cases h
    · cases t
      · rw [hf] at h
        cases h
      · rw [ht] at h
        cases h
  · obtain ⟨s, hr, hv⟩ := Run.of_eval (fun _ _ _ => id) passedOver_eval
    obtain ⟨ht, hq⟩ := Prod.mk.inj hv
    refine ⟨s, hr, fun hd => ?_⟩
    have := (hd.order 1).map Datagram.data
    rw [map_map, hq] at this
    rw [show Datagram.data ∘ Receipt.datagram = fun r => r.datagram.data from rfl, ht] at this
    exact absurd this (by decide)

end Runs

end FarmOS.Net.Udp

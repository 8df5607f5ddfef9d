import FarmOS.Net.StreamPair

/-! A connected pair of stream sockets is a FIFO byte stream both ways; a write keeps to its buffer exactly when no
chunk of it finds more room than it has bytes left. -/

namespace FarmOS.Net.Stream

open Lib State List
open Fs.PipeDev (WriteReq Chunk Finished Faithful pipeBufSize shortReq longReq)

variable {T : Type*} {a b : ℕ} {s s' : State T} {th : T} {sockets : ℕ → Socket} {e : Event T} {call : ℕ}
  {r : WriteReq} {i : BitVec 32}

def Fresh (s : Socket) : Prop := s.socketReadPos = 0 ∧ s.socketWritePos = 0

structure Sound (a b : ℕ) (s : State T) : Prop where
  good : Good a b s
  inv : Fs.PipeDev.Inv (s.toPipe a b)

lemma sound_init (h : Joined a b sockets) (hb : Fresh (sockets b)) : Sound a b (init sockets : State T) := by
  refine ⟨⟨h, fun _ => trivial⟩, ?_⟩
  have hinit : (init sockets : State T).toPipe a b = Fs.PipeDev.State.init (sockets b).buffer := by
    simp only [toPipe, init, Fs.PipeDev.State.init, Phase.toPipe, Socket.ring, hb.1, hb.2]
  rw [hinit]
  exact Fs.PipeDev.inv_init _

variable [DecidableEq T]

lemma phase_setPhase (s : State T) (th : T) (ph : Phase) : (s.setPhase th ph).phase th = ph := Function.update_self ..

def Finishes (a b : ℕ) (s : State T) (call : ℕ) (r : WriteReq) : Prop :=
  ∃ es s' ret, Run (Step a b) s es s' ∧ ⟨call, r, ret⟩ ∈ s'.finished a

lemma Finishes.after (h : Finishes a b s' call r) (hs : Step a b s e s') : Finishes a b s call r := by
  obtain ⟨es, u, ret, hr, hf⟩ := h
  have h1 : Run (Step a b) s [e] s' := .single hs
  exact ⟨_, u, ret, h1.append hr, hf⟩

section

variable (h : Sound a b s)
include h

lemma Sound.step (hs : Step a b s e s') : Sound a b s' := by
  have hm := h.good.moves hs
  refine ⟨h.good.step hm, ?_⟩
  rcases h.good.simulates hm with he | ⟨e, he⟩
  · rw [he]
    exact h.inv
  · exact h.inv.step he

omit h in
lemma finish_step (hp : s.phase th = .running (.write a b call r i))
    (hi : ¬ (i.signExtend 64).ult r.n = true) : Finishes a b s call r := by
  refine ⟨[.advance th], _, i, .single (by rw [Step, next, hp]), ?_⟩
  rw [advanceWrite, if_neg hi]
  simp [State.returns, setHolder]

lemma Sound.running_finishes
    (hp : s.phase th = .running (.write a b call r i)) (hn : r.n.toNat < 2 ^ 31)
    (hroom : r.n.toNat ≤ i.toNat + (s.sockets b).ring.leftSize.toNat) : Finishes a b s call r := by
  by_cases hlt : (i.signExtend 64).ult r.n = true
  · obtain ⟨hfull, hdone⟩ := h.inv.fifo.last_chunk hn hlt hroom
    have hf : ¬ (s.sockets b).full = true := fun hf => hfull (toPipe_full.mpr hf)
    have hph : (advanceWrite s th a b call r i).phase th =
        .running (.write a b call r (i + (Fs.PipeDev.writeLength (s.sockets b).ring r).setWidth 32)) := by
      rw [advanceWrite, if_pos hlt, if_neg (by simp [h.good.joined.open_left.isClose]),
        if_neg (by simp [h.good.joined.open_right.selfReadClose]), if_neg hf]
      simp [setPhase, setSocket]
    exact Finishes.after (finish_step hph hdone) (e := .advance th) (by rw [Step, next, hp])
  · exact finish_step hp hlt

lemma Sound.ready_finishes
    (hp : s.phase th = .ready (.write a b call r i)) (hfree : s.holder b = none) (hn : r.n.toNat < 2 ^ 31)
    (hroom : r.n.toNat ≤ i.toNat + (s.sockets b).ring.leftSize.toNat) : Finishes a b s call r := by
  set u := (s.setPhase th (.running (.write a b call r i))).setHolder b (some th) with hu
  have hstep : Step a b s (.acquire th) u := by
    rw [Step, next, hp]
    exact if_pos hfree
  have hph : u.phase th = .running (.write a b call r i) := phase_setPhase ..
  exact Finishes.after ((h.step hstep).running_finishes hph hn hroom) hstep

lemma Sound.scanning_finishes {k : ℕ}
    (hp : s.phase th = .scanning a k call r) (hfree : ∀ j, s.holder j = none) (hn : r.n.toNat < 2 ^ 31)
    (hroom : r.n.toNat ≤ (s.sockets b).ring.leftSize.toNat) : Finishes a b s call r := by
  have hj := h.good.joined
  have hk : k ≤ b := by
    have hok : a = a ∧ k ≤ b ∨ a = b ∧ k ≤ a := h.good.phase_ok hp
    have := hj.ne
    omega
  induction hd : b - k generalizing s k with
  | zero =>
    obtain rfl : k = b := by omega
    set u := (s.setPhase th (.running (.write a k call r 0))).setHolder k (some th) with hu
    have hstep : Step a k s (.scan th) u := by
      rw [Step, next, hp]
      simp only [if_pos hj.lt_right, if_pos (hfree k), scan]
      rw [if_pos ⟨hj.ne, hj.peer_right⟩, if_neg (by simp [hj.open_right.selfReadClose])]
    have hph : u.phase th = .running (.write a k call r 0) := phase_setPhase ..
    exact Finishes.after ((h.step hstep).running_finishes hph hn (Nat.le_trans hroom (Nat.le_add_left ..))) hstep
  | succ d ih =>
    have hpass : ¬ (a ≠ k ∧ (s.sockets k).peerOf (s.sockets a) = true) := by
      rintro ⟨hak, hpk⟩
      have := hj.peer (.inl rfl) hak hpk
      have := hj.ne
      omega
    have hlt := hj.lt_right
    have hstep : Step a b s (.scan th) (s.setPhase th (.scanning a (k + 1) call r)) := by
      rw [Step, next, hp]
      simp only [if_pos (show k < socketCount by omega), if_pos (hfree k), scan]
      rw [if_neg hpass]
    have hs := h.step hstep
    exact Finishes.after (ih hs (phase_setPhase ..) hfree hroom hj (by omega) (by omega)) hstep

lemma Sound.entering_finishes (hp : s.phase th = .entering a call r)
    (hfree : ∀ j, s.holder j = none) (hn : r.n.toNat < 2 ^ 31)
    (hroom : r.n.toNat ≤ (s.sockets b).ring.leftSize.toNat) : Finishes a b s call r := by
  have hstep : Step a b s (.enter th) (s.setPhase th (.scanning a 0 call r)) := by
    rw [Step, next, hp]
    simp only [if_pos (hfree a), enter]
    rw [if_neg (by simp [h.good.joined.open_left.selfWriteClose])]
  exact Finishes.after ((h.step hstep).scanning_finishes (phase_setPhase ..) hfree hn hroom) hstep

structure Streams (a b : ℕ) (s : State T) : Prop where
  fifo : s.returned b <+: s.appended a
  bound : ((s.sockets b).socketWritePos - (s.sockets b).socketReadPos).toNat ≤ pipeBufSize
  inside (c : Chunk) : c ∈ s.chunks a → c.req.n.toNat < 2 ^ 31 → (c.Inside ↔ c.Fits)
  faithful (f : Finished) : f ∈ s.finished a →
    (Faithful f (s.chunksOf a f.call) ↔ f.req.n.toNat < 2 ^ 31 ∧ ∀ c ∈ s.chunksOf a f.call, c.Fits)
  begun (th : T) (call : ℕ) (r : WriteReq) : s.phase th = .entering a call r → (∀ j, s.holder j = none) →
    r.n.toNat < 2 ^ 31 → r.n.toNat ≤ (s.sockets b).ring.leftSize.toNat → Finishes a b s call r
  woken (th : T) (call : ℕ) (r : WriteReq) (i : BitVec 32) : s.phase th = .ready (.write a b call r i) →
    s.holder b = none → r.n.toNat < 2 ^ 31 → r.n.toNat ≤ i.toNat + (s.sockets b).ring.leftSize.toNat →
    Finishes a b s call r

lemma Sound.streams : Streams a b s where
  fifo := by
    have := h.inv.fifo.taken_eq
    rw [show s.returned b = (s.toPipe a b).returned from rfl, this]
    exact take_prefix _ _
  bound := by
    have hu := h.inv.fifo.used
    have hb := h.inv.fifo.bound
    change (s.sockets b).ring.used.toNat ≤ _
    rw [show (s.sockets b).ring.used = (s.toPipe a b).pipe.used from rfl, hu]
    omega
  inside c hc hn := (h.inv.valid c hc).inside_iff hn
  faithful f hf := by
    obtain ⟨-, hw, hlt⟩ := h.inv.calls.done f hf
    exact hw.faithful_iff hlt f.call
  begun _ _ _ hp hfree hn hroom := h.entering_finishes hp hfree hn hroom
  woken _ _ _ _ hp hfree hn hroom := h.ready_finishes hp hfree hn hroom

end

lemma sound_run (h : Joined a b sockets) (hb : Fresh (sockets b)) {es : List (Event T)}
    (hr : Run (Step a b) (init sockets) es s) : Sound a b s :=
  hr.invariant (sound_init h hb) fun _ _ _ hs he => hs.step he

theorem socket_pair_streams (a b : ℕ) (sockets : ℕ → Socket) (h : Joined a b sockets) (ha : Fresh (sockets a))
    (hb : Fresh (sockets b)) (es : List (Event T)) (s : State T) (hr : Run (Step a b) (init sockets) es s) :
    Streams a b s ∧ Streams b a s := by
  have hr' : Run (Step b a) (init sockets) es s := hr.mono fun s e s' he => by
    rw [Step, ← next_symm]
    exact he
  exact ⟨(sound_run h hb hr).streams, (sound_run h.symm ha hr').streams⟩

def pairTable (i : ℕ) : Socket :=
  if i = 0 then { Socket.zero with used := true, type := sockStream, addr := ⟨2, 1, 0⟩, targetAddr := ⟨2, 2, 0⟩ }
  else if i = 1 then { Socket.zero with used := true, type := sockStream, addr := ⟨2, 2, 0⟩, targetAddr := ⟨2, 1, 0⟩ }
  else .zero

lemma joined_pairTable : Joined 0 1 pairTable := by
  refine ⟨by decide, by decide, by decide, ?_, ?_, by decide, by decide, fun i h0 h1 => ?_⟩
  · constructor <;> rfl
  · constructor <;> rfl
  · rw [pairTable, if_neg h0, if_neg h1]
    exact ⟨rfl, rfl⟩

lemma step_of_next (s : State T) (e : Event T) (s' : State T) (h : next a b s e = some s') : Step a b s e s' := h

def shortWrite : List (Event Bool) :=
  [.callWrite true 0 shortReq, .enter true, .scan true, .scan true, .advance true, .advance true]

lemma shortWrite_eval : (shortWrite.foldlM (next 0 1) (init pairTable)).map (fun s =>
    ((s.finished 0).map fun f => (f.ret, f.req.n.toNat), (s.chunks 0).map fun c =>
      (c.i.toNat, c.left, c.req.n.toNat))) = some ([(3, 3)], [(0, 131072, 3)]) := by
  decide +kernel

theorem socket_pair_streams_short : ∃ s : State Bool, Run (Step 0 1) (init pairTable) shortWrite s ∧
    Streams 0 1 s ∧ ∃ f ∈ s.finished 0, f.ret = 3 ∧ Faithful f (s.chunksOf 0 f.call) := by
  obtain ⟨s, hr, hv⟩ := Run.of_eval step_of_next shortWrite_eval
  obtain ⟨hf, hc⟩ := Prod.mk.inj hv
  obtain ⟨f, hfs, hf⟩ := map_eq_singleton_iff.mp hf
  obtain ⟨c, hcs, hc⟩ := map_eq_singleton_iff.mp hc
  obtain ⟨hret, hn⟩ := Prod.mk.inj hf
  have hmem : f ∈ s.finished 0 := by simp [hfs]
  have hst := (socket_pair_streams 0 1 pairTable joined_pairTable ⟨rfl, rfl⟩ ⟨rfl, rfl⟩ _ s hr).1
  refine ⟨s, hr, hst, f, hmem, hret, (hst.faithful f hmem).mpr ⟨by omega, fun c' hc' => ?_⟩⟩
  have he : c' = c := by
    have := (mem_filter.mp hc').1
    simpa [hcs] using this
  simp only [Prod.mk.injEq] at hc
  rw [he, Chunk.Fits, hc.1, hc.2.1, hc.2.2]
  decide

def overrun : List (Event Bool) :=
  [.callWrite true 0 longReq, .enter true, .scan true, .scan true, .advance true, .advance true,
    .callRead false 1 100, .enter false, .advance false, .wake true, .acquire true, .advance true, .advance true]

lemma overrun_eval : (overrun.foldlM (next 0 1) (init pairTable)).map (fun s =>
    ((s.finished 0).map fun f => (f.ret.toInt, f.req.n.toNat), (s.chunks 0).map fun c =>
      (c.i.toNat, c.left, c.req.n.toNat))) =
    some ([(131172, 131082)], [(0, 131072, 131082), (131072, 100, 131082)]) := by
  decide +kernel

theorem socket_write_overruns : ∃ s : State Bool, Run (Step 0 1) (init pairTable) overrun s ∧
    Joined 0 1 pairTable ∧ ∃ f ∈ s.finished 0, f.req.n.toNat = 131082 ∧ f.ret.toInt = 131172 ∧
      ¬ Faithful f (s.chunksOf 0 f.call) ∧ ∃ c ∈ s.chunks 0, ¬ c.Inside := by
  obtain ⟨s, hr, hv⟩ := Run.of_eval step_of_next overrun_eval
  obtain ⟨hf, hc⟩ := Prod.mk.inj hv
  obtain ⟨f, hfs, hf⟩ := map_eq_singleton_iff.mp hf
  obtain ⟨hret, hn⟩ := Prod.mk.inj hf
  have hst := (sound_run joined_pairTable ⟨rfl, rfl⟩ hr).streams
  refine ⟨s, hr, joined_pairTable, f, by simp [hfs], hn, hret, fun hfaith => ?_, ?_⟩
  · have := hfaith.ret
    omega
  · obtain ⟨c, hcs, hc⟩ : ∃ c ∈ s.chunks 0, (c.i.toNat, c.left, c.req.n.toNat) = (131072, 100, 131082) :=
      mem_map.mp (hc ▸ by simp)
    simp only [Prod.mk.injEq] at hc
    refine ⟨c, hcs, fun hin => ?_⟩
    have hfit := (hst.inside c hcs (by omega)).mp hin
    rw [Chunk.Fits, hc.1, hc.2.1, hc.2.2] at hfit
    exact absurd hfit (by decide)

end FarmOS.Net.Stream

import FarmOS.Fs.PipeCalls

/-! A pipe is a FIFO byte stream in every interleaving; a write keeps to its buffer exactly when no
chunk of it finds more room than it has bytes left. -/

namespace FarmOS.Fs.PipeDev

open Lib State List

variable {T : Type*} {s s' : State T} {t : T} {e : Event T} {ph : Phase} {j : Job} {k : ℕ} {r : WriteReq}
  {i : BitVec 32}

structure Inv (s : State T) : Prop where
  fifo : Fifo s.pipe s.appended s.returned
  calls : Calls s
  valid (c : Chunk) : c ∈ s.chunks → c.Valid

lemma inv_init (buf : ℕ → UInt8) : Inv (init buf : State T) := by
  refine ⟨⟨rfl, rfl, rfl, Nat.zero_le _, by simp [appended, init]⟩, ?_, ?_⟩
  · constructor <;> simp [init, job, Phase.job?]
  · simp [init]

lemma job_of_phase (h : s.phase t = ph) : s.job t = ph.job? := by rw [job, h]

variable [DecidableEq T]

lemma Inv.asleep (h : Inv s) (ht : s.phase t = .running j) : Inv ((s.setPhase t (.asleep j)).unlock) := by
  refine ⟨h.fifo, ?_, h.valid⟩
  exact h.calls.congr (job_setPhase_same s t (job_of_phase ht).symm) rfl rfl rfl

lemma Inv.advanceWrite (h : Inv s) (ht : s.phase t = .running (.write k r i)) : Inv (advanceWrite s t k r i) := by
  have hj : s.job t = some (.write k r i) := job_of_phase ht
  unfold PipeDev.advanceWrite
  split
  · next hlt =>
    split
    · exact h.asleep ht
    · next hfull =>
      have hn : 0 < r.n.toNat := by
        simp only [BitVec.ult, decide_eq_true_eq] at hlt
        omega
      have hlen : (writeLength s.pipe r).toNat = min s.pipe.leftSize.toNat r.n.toNat := by
        rw [h.fifo.writeLength, h.fifo.leftSize]
      have hval : Chunk.Valid ⟨k, r, i, s.pipe.leftSize.toNat, writeAddrs s.pipe r i⟩ := by
        refine ⟨hlt, ?_, ?_⟩
        · have := h.fifo.room hfull
          have := h.fifo.le
          simp only [h.fifo.leftSize]
          omega
        · rw [h.fifo.writeAddrs_eq hfull hn, hlen]
      refine ⟨?_, ?_, fun c hc => ?_⟩
      · have := h.fifo.write (i := i) hfull hn
        simpa [appended, returned, Chunk.bytes, setPhase] using this
      · have := h.calls.append_chunk (p := s.pipe.write r i) hj hval
        simpa only [← hlen, BitVec.ofNat_toNat] using this
      · rcases mem_append.mp hc with hc | hc
        · exact h.valid c hc
        · rw [mem_singleton.mp hc]
          exact hval
  · next hlt => exact ⟨h.fifo, h.calls.finish hj hlt, h.valid⟩

lemma Inv.advanceRead (h : Inv s) {n : BitVec 64} (ht : s.phase t = .running (.read n)) :
    Inv (advanceRead s t n) := by
  unfold PipeDev.advanceRead
  split
  · exact h.asleep ht
  · refine ⟨?_, ?_, h.valid⟩
    · have := h.fifo.read (n := n)
      simpa [appended, returned, setPhase, unlock] using this
    · have hidle : Calls (s.setPhase t .idle) := h.calls.open_read (by simp [Phase.job?])
      exact hidle.congr rfl rfl rfl rfl

lemma Inv.step (h : Inv s) (hs : Step s e s') : Inv s' := by
  cases e with
  | callWrite t r =>
    simp only [Step, next] at hs
    split at hs
    · cases hs
      exact ⟨h.fifo, h.calls.open_write t r, h.valid⟩
    · cases hs
  | callRead t n =>
    simp only [Step, next] at hs
    split at hs
    · cases hs
      exact ⟨h.fifo, h.calls.open_read (by simp [Phase.job?]), h.valid⟩
    · cases hs
  | acquire t =>
    simp only [Step, next] at hs
    split at hs
    · next j hph _ =>
      cases hs
      exact ⟨h.fifo, h.calls.congr (job_setPhase_same s t (job_of_phase hph).symm) rfl rfl rfl, h.valid⟩
    · cases hs
  | advance t =>
    simp only [Step, next] at hs
    split at hs
    · next k r i ht =>
      cases hs
      exact h.advanceWrite ht
    · next n ht =>
      cases hs
      exact h.advanceRead ht
    · cases hs
  | wake t =>
    simp only [Step, next] at hs
    split at hs
    · next j hph =>
      cases hs
      exact ⟨h.fifo, h.calls.congr (job_setPhase_same s t (job_of_phase hph).symm) rfl rfl rfl, h.valid⟩
    · cases hs

lemma acquire_step (hph : s.phase t = .ready j) (hfree : s.holder = none) :
    Step s (.acquire t) { s.setPhase t (.running j) with holder := some t } := by
  simp only [Step, next, hph, hfree]

lemma advance_step (hph : s.phase t = .running (.write k r i)) : Step s (.advance t) (advanceWrite s t k r i) := by
  simp only [Step, next, hph]

lemma running_finishes (hph : s.phase t = .running (.write k r i)) (hi : ¬ (i.signExtend 64).ult r.n = true) :
    ∃ s', Run Step s [.advance t] s' ∧ ⟨k, r, i⟩ ∈ s'.finished := by
  refine ⟨_, .single (advance_step hph), ?_⟩
  rw [advanceWrite, if_neg hi]
  simp

lemma Inv.write_finishes (h : Inv s)
    (hph : s.phase t = .ready (.write k r i)) (hfree : s.holder = none) (hn : r.n.toNat < 2 ^ 31)
    (hroom : r.n.toNat ≤ i.toNat + s.pipe.leftSize.toNat) :
    ∃ es s' ret, Run Step s es s' ∧ ⟨k, r, ret⟩ ∈ s'.finished := by
  have hacq := acquire_step hph hfree
  set s1 : State T := { s.setPhase t (.running (.write k r i)) with holder := some t } with hs1
  have hph1 : s1.phase t = .running (.write k r i) := by simp [hs1, setPhase]
  have h1 : Run Step s [.acquire t] s1 := .single hacq
  by_cases hi : (i.signExtend 64).ult r.n = true
  · obtain ⟨hfull, hdone⟩ := h.fifo.last_chunk hn hi hroom
    replace hfull : s1.pipe.used ≠ BitVec.ofNat 64 pipeBufSize := hfull
    set s2 := PipeDev.advanceWrite s1 t k r i with hs2
    have hph2 : s2.phase t = .running (.write k r (i + (writeLength s.pipe r).setWidth 32)) := by
      rw [hs2, PipeDev.advanceWrite, if_pos hi, if_neg hfull]
      simp [setPhase, hs1]
    obtain ⟨s', hrun, hf⟩ := running_finishes hph2 hdone
    have h2 : Run Step s1 [.advance t] s2 := .single (advance_step hph1)
    exact ⟨_, s', _, (h1.append h2).append hrun, hf⟩
  · obtain ⟨s', hrun, hf⟩ := running_finishes hph1 hi
    exact ⟨_, s', _, h1.append hrun, hf⟩

theorem pipe_stream (buf : ℕ → UInt8) (es : List (Event T)) (s : State T) (h : Run Step (State.init buf) es s) :
    s.returned <+: s.appended ∧ s.pipe.used.toNat ≤ pipeBufSize ∧
      (∀ c ∈ s.chunks, c.req.n.toNat < 2 ^ 31 → (c.Inside ↔ c.Fits)) ∧
      (∀ f ∈ s.finished, Faithful f (s.chunksOf f.call) ↔
        f.req.n.toNat < 2 ^ 31 ∧ ∀ c ∈ s.chunksOf f.call, c.Fits) ∧
      ∀ t k r i, s.phase t = .ready (.write k r i) → s.holder = none → r.n.toNat < 2 ^ 31 →
        r.n.toNat ≤ i.toNat + s.pipe.leftSize.toNat →
        ∃ es' s' ret, Run Step s es' s' ∧ ⟨k, r, ret⟩ ∈ s'.finished := by
  have hi : Inv s := h.invariant (inv_init buf) fun _ _ _ hi hs => hi.step hs
  refine ⟨?_, ?_, fun c hc hn => (hi.valid c hc).inside_iff hn, fun f hf => ?_,
    fun t k r i hph hfree hn hroom => hi.write_finishes hph hfree hn hroom⟩
  · rw [hi.fifo.taken_eq]
    exact take_prefix _ _
  · have := hi.fifo.bound
    rw [hi.fifo.used]
    omega
  · obtain ⟨-, hw, hlt⟩ := hi.calls.done f hf
    exact hw.faithful_iff hlt f.call

def shortReq : WriteReq := ⟨fun a => UInt8.ofNat a.toNat, 7, 3⟩

def shortWrite : List (Event Bool) :=
  [.callWrite true shortReq, .acquire true, .advance true, .advance true]

lemma shortWrite_eval : (shortWrite.foldlM next (init fun _ => 0)).map (fun s =>
    (s.finished.map fun f => (f.ret, f.req.n.toNat), s.chunks.map fun c =>
      (c.i.toNat, c.left, c.req.n.toNat))) = some ([(3, 3)], [(0, 131072, 3)]) := by
  decide +kernel

theorem pipe_stream_short : ∃ s : State Bool, Run Step (State.init fun _ => 0) shortWrite s ∧
    ∃ f ∈ s.finished, f.ret = 3 ∧ Faithful f (s.chunksOf f.call) := by
  obtain ⟨s, hr, hv⟩ := Run.of_eval (fun _ _ _ => id) shortWrite_eval
  obtain ⟨hf, hc⟩ := Prod.mk.inj hv
  obtain ⟨f, hfs, hf⟩ := map_eq_singleton_iff.mp hf
  obtain ⟨c, hcs, hc⟩ := map_eq_singleton_iff.mp hc
  obtain ⟨hret, hn⟩ := Prod.mk.inj hf
  have hmem : f ∈ s.finished := by simp [hfs]
  refine ⟨s, hr, f, hmem, hret, ?_⟩
  refine ((pipe_stream _ _ s hr).2.2.2.1 f hmem).mpr ⟨by omega, fun c' hc' => ?_⟩
  have he : c' = c := by
    have := (mem_filter.mp hc').1
    simpa [hcs] using this
  simp only [Prod.mk.injEq] at hc
  rw [he, Chunk.Fits, hc.1, hc.2.1, hc.2.2]
  decide

def longReq : WriteReq := ⟨fun _ => 0, 0, BitVec.ofNat 64 (pipeBufSize + 10)⟩

def overrun : List (Event Bool) :=
  [.callWrite true longReq, .acquire true, .advance true, .advance true,
    .callRead false 100, .acquire false, .advance false, .wake true, .acquire true, .advance true,
    .advance true]

lemma overrun_eval : (overrun.foldlM next (init fun _ => 0)).map (fun s =>
    (s.finished.map fun f => (f.ret.toInt, f.req.n.toNat), s.chunks.map fun c =>
      (c.i.toNat, c.left, c.req.n.toNat))) =
    some ([(131172, 131082)], [(0, 131072, 131082), (131072, 100, 131082)]) := by
  decide +kernel

theorem write_overruns : ∃ s : State Bool, Run Step (State.init fun _ => 0) overrun s ∧
    ∃ f ∈ s.finished, f.req.n.toNat = 131082 ∧ f.ret.toInt = 131172 ∧
      ¬ Faithful f (s.chunksOf f.call) ∧ ∃ c ∈ s.chunks, ¬ c.Inside := by
  obtain ⟨s, hr, hv⟩ := Run.of_eval (fun _ _ _ => id) overrun_eval
  obtain ⟨hf, hc⟩ := Prod.mk.inj hv
  obtain ⟨f, hfs, hf⟩ := map_eq_singleton_iff.mp hf
  obtain ⟨hret, hn⟩ := Prod.mk.inj hf
  have hi : Inv s := hr.invariant (inv_init _) fun _ _ _ hi hs => hi.step hs
  refine ⟨s, hr, f, by simp [hfs], hn, hret, fun hfaith => ?_, ?_⟩
  · have := hfaith.ret
    omega
  · obtain ⟨c, hcs, hc⟩ : ∃ c ∈ s.chunks, (c.i.toNat, c.left, c.req.n.toNat) = (131072, 100, 131082) :=
      mem_map.mp (hc ▸ by simp)
    simp only [Prod.mk.injEq] at hc
    refine ⟨c, hcs, fun hin => ?_⟩
    have hfit := ((hi.valid c hcs).inside_iff (by omega)).mp hin
    rw [Chunk.Fits, hc.1, hc.2.1, hc.2.2] at hfit
    exact absurd hfit (by decide)

end FarmOS.Fs.PipeDev

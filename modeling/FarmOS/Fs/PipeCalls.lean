import FarmOS.Fs.PipeFifo

/-! What each `write` call appends and returns, over every interleaving. -/

namespace FarmOS.Fs.PipeDev

open Lib List State

structure Chunk.Valid (c : Chunk) : Prop where
  lt : (c.i.signExtend 64).ult c.req.n = true
  left_pos : 0 < c.left
  addrs_eq : c.addrs = copyIn (c.req.buf + c.i.signExtend 64) (min c.left c.req.n.toNat)

def Chunk.Fits (c : Chunk) : Prop := c.i.toNat + min c.left c.req.n.toNat ≤ c.req.n.toNat

def Chunk.Inside (c : Chunk) : Prop := ∀ a ∈ c.addrs, (a - c.req.buf).toNat < c.req.n.toNat

inductive Wrote (r : WriteReq) : List Chunk → BitVec 32 → Prop
  | nil : Wrote r [] 0
  | snoc {cs : List Chunk} {c : Chunk} : Wrote r cs c.i → c.Valid → c.req = r →
      Wrote r (cs ++ [c]) (c.i + BitVec.ofNat 32 (min c.left r.n.toNat))

structure Faithful (f : Finished) (cs : List Chunk) : Prop where
  bytes : cs.flatMap Chunk.bytes = (copyIn f.req.buf f.req.n.toNat).map f.req.mem
  ret : f.ret.toInt = f.req.n.toNat
  inside (c : Chunk) : c ∈ cs → c.Inside

variable {r : WriteReq} {i : BitVec 32} {cs : List Chunk} {c : Chunk} {p : Pipe}

lemma signExtend_of_lt (h : i.toNat < 2 ^ 31) : i.signExtend 64 = BitVec.ofNat 64 i.toNat := by
  have hm : i.msb = false := BitVec.msb_eq_false_iff_two_mul_lt.mpr (by omega)
  rw [BitVec.signExtend_eq_setWidth_of_msb_false hm, BitVec.ofNat_toNat]

lemma lt_of_signExtend_ult {n : BitVec 64} (hn : n.toNat < 2 ^ 31)
    (h : (i.signExtend 64).ult n = true) : i.toNat < n.toNat := by
  simp only [BitVec.ult, decide_eq_true_eq, BitVec.toNat_signExtend, BitVec.toNat_setWidth] at h
  have := i.isLt
  split at h <;> omega

lemma Fifo.last_chunk {written taken : List UInt8} (h : Fifo p written taken) (hn : r.n.toNat < 2 ^ 31)
    (hi : (i.signExtend 64).ult r.n = true) (hroom : r.n.toNat ≤ i.toNat + p.leftSize.toNat) :
    p.used ≠ BitVec.ofNat 64 pipeBufSize ∧
      ¬ ((i + (PipeDev.writeLength p r).setWidth 32).signExtend 64).ult r.n = true := by
  have hlt := lt_of_signExtend_ult hn hi
  have hleft := h.leftSize
  have hlen : (PipeDev.writeLength p r).toNat = min p.leftSize.toNat r.n.toNat := by
    rw [h.writeLength, hleft]
  have hle : p.leftSize.toNat ≤ pipeBufSize := by omega
  constructor
  · intro he
    have hu := h.used
    rw [he] at hu
    simp only [pipeBufSize, pageSize, BitVec.toNat_ofNat] at hu hleft
    omega
  · intro hult
    have := lt_of_signExtend_ult hn hult
    rw [BitVec.toNat_add, BitVec.toNat_setWidth, hlen] at this
    simp only [pipeBufSize, pageSize] at hle
    omega

lemma Chunk.Valid.lt_toNat (h : c.Valid) (hn : c.req.n.toNat < 2 ^ 31) : c.i.toNat < c.req.n.toNat :=
  lt_of_signExtend_ult hn h.lt

lemma Chunk.Valid.addrs_ofNat (h : c.Valid) (hn : c.req.n.toNat < 2 ^ 31) :
    c.addrs = copyIn (c.req.buf + BitVec.ofNat 64 c.i.toNat) (min c.left c.req.n.toNat) := by
  have := h.lt_toNat hn
  rw [h.addrs_eq, signExtend_of_lt (by omega)]

lemma sub_buf_toNat (buf : BitVec 64) {a b : ℕ} (h : a + b < 2 ^ 64) :
    (buf + BitVec.ofNat 64 a + BitVec.ofNat 64 b - buf).toNat = a + b := by
  rw [BitVec.add_assoc, BitVec.add_comm, BitVec.add_sub_cancel, ← BitVec.ofNat_add,
    BitVec.toNat_ofNat, Nat.mod_eq_of_lt h]

lemma Chunk.Valid.inside_iff (h : c.Valid) (hn : c.req.n.toNat < 2 ^ 31) : c.Inside ↔ c.Fits := by
  have hlt := h.lt_toNat hn
  have hleft := h.left_pos
  rw [Chunk.Inside, Chunk.Fits, h.addrs_ofNat hn]
  simp only [copyIn, mem_map, mem_range, forall_exists_index, and_imp,
    forall_apply_eq_imp_iff₂]
  constructor
  · intro hall
    have := hall (min c.left c.req.n.toNat - 1) (by omega)
    rw [sub_buf_toNat _ (by omega)] at this
    omega
  · intro hfit j hj
    rw [sub_buf_toNat _ (by omega)]
    omega

lemma Wrote.req_eq (h : Wrote r cs i) : ∀ c ∈ cs, c.req = r := by
  induction h with
  | nil => simp
  | snoc _ _ hr ih =>
    intro c hc
    rcases mem_append.mp hc with hc | hc
    · exact ih c hc
    · rw [mem_singleton.mp hc]
      exact hr

lemma Wrote.valid (h : Wrote r cs i) : ∀ c ∈ cs, c.Valid := by
  induction h with
  | nil => simp
  | snoc _ hv _ ih =>
    intro c hc
    rcases mem_append.mp hc with hc | hc
    · exact ih c hc
    · rw [mem_singleton.mp hc]
      exact hv

lemma Wrote.exact (h : Wrote r cs i) (hn : r.n.toNat < 2 ^ 31) (hf : ∀ c ∈ cs, c.Fits) :
    i.toNat ≤ r.n.toNat ∧ cs.flatMap Chunk.bytes = (copyIn r.buf i.toNat).map r.mem := by
  induction h with
  | nil => exact ⟨Nat.zero_le _, rfl⟩
  | @snoc cs c _ hv hr ih =>
    obtain ⟨hle, hb⟩ := ih fun c' hc' => hf c' (mem_append_left _ hc')
    have hfit := hf c (mem_append_right _ (mem_singleton_self c))
    subst hr
    rw [Chunk.Fits] at hfit
    have hi : (c.i + BitVec.ofNat 32 (min c.left c.req.n.toNat)).toNat =
        c.i.toNat + min c.left c.req.n.toNat := by
      rw [BitVec.toNat_add, BitVec.toNat_ofNat]
      omega
    refine ⟨by rw [hi]; exact hfit, ?_⟩
    rw [flatMap_append, hb, hi, ← copyIn_append, map_append, flatMap_singleton,
      Chunk.bytes, hv.addrs_ofNat hn]

lemma Wrote.faithful_iff (h : Wrote r cs i) (hi : ¬ (i.signExtend 64).ult r.n = true) (k : ℕ) :
    Faithful ⟨k, r, i⟩ cs ↔ r.n.toNat < 2 ^ 31 ∧ ∀ c ∈ cs, c.Fits := by
  constructor
  · intro hf
    have hn : r.n.toNat < 2 ^ 31 := by
      have := hf.ret
      have := i.toInt_lt
      simp only at *
      omega
    refine ⟨hn, fun c hc => ?_⟩
    have hr := h.req_eq c hc
    exact ((h.valid c hc).inside_iff (hr ▸ hn)).mp (hf.inside c hc)
  · rintro ⟨hn, hf⟩
    obtain ⟨hle, hb⟩ := h.exact hn hf
    have hin : i.toNat = r.n.toNat := by
      rw [signExtend_of_lt (by omega)] at hi
      simp only [BitVec.ult, decide_eq_true_eq, BitVec.toNat_ofNat] at hi
      omega
    refine ⟨by rw [hb, hin], ?_, fun c hc => ?_⟩
    · change i.toInt = r.n.toNat
      rw [BitVec.toInt_eq_toNat_of_lt (by omega), hin]
    · have hr := h.req_eq c hc
      exact ((h.valid c hc).inside_iff (hr ▸ hn)).mpr (hf c hc)

section Runs

variable {T : Type*} {s s' : State T} {t : T} {k : ℕ}

def State.job (s : State T) (t : T) : Option Job := (s.phase t).job?

structure Calls (s : State T) : Prop where
  active (t : T) (k : ℕ) (r : WriteReq) (i : BitVec 32) : s.job t = some (.write k r i) →
    k < s.calls ∧ Wrote r (s.chunksOf k) i
  unique (t t' : T) (k : ℕ) (r r' : WriteReq) (i i' : BitVec 32) : s.job t = some (.write k r i) →
    s.job t' = some (.write k r' i') → t = t'
  chunk_lt (c : Chunk) : c ∈ s.chunks → c.call < s.calls
  done (f : Finished) : f ∈ s.finished →
    f.call < s.calls ∧ Wrote f.req (s.chunksOf f.call) f.ret ∧ ¬ (f.ret.signExtend 64).ult f.req.n = true
  apart (f : Finished) (t : T) (k : ℕ) (r : WriteReq) (i : BitVec 32) : f ∈ s.finished →
    s.job t = some (.write k r i) → f.call ≠ k

lemma Calls.congr (h : Calls s) (hj : s'.job = s.job) (hk : s'.calls = s.calls)
    (hc : s'.chunks = s.chunks) (hf : s'.finished = s.finished) : Calls s' := by
  have hco : s'.chunksOf = s.chunksOf := by
    funext k
    rw [chunksOf, hc, chunksOf]
  constructor
  · rw [hj, hk, hco]
    exact h.active
  · rw [hj]
    exact h.unique
  · rw [hc, hk]
    exact h.chunk_lt
  · rw [hf, hk, hco]
    exact h.done
  · rw [hf, hj]
    exact h.apart

lemma chunksOf_calls (h : Calls s) : s.chunksOf s.calls = [] := by
  apply filter_eq_nil_iff.mpr
  intro c hc
  have := h.chunk_lt c hc
  simp only [decide_eq_true_eq]
  omega

variable [DecidableEq T] {ph : Phase}

lemma job_setPhase_self (s : State T) (t : T) (ph : Phase) : (s.setPhase t ph).job t = ph.job? := by
  simp [State.job, State.setPhase]

lemma job_setPhase_ne (s : State T) {t t' : T} (ph : Phase) (h : t' ≠ t) :
    (s.setPhase t ph).job t' = s.job t' := by
  simp [State.job, State.setPhase, h]

lemma job_setPhase_same (s : State T) (t : T) (h : ph.job? = s.job t) : (s.setPhase t ph).job = s.job := by
  funext t'
  by_cases he : t' = t
  · rw [he, job_setPhase_self, h]
  · exact job_setPhase_ne s ph he

lemma Calls.open_write (h : Calls s) (t : T) (r : WriteReq) :
    Calls { s.setPhase t (.ready (.write s.calls r 0)) with calls := s.calls + 1 } := by
  have hself : (s.setPhase t (.ready (.write s.calls r 0))).job t = some (.write s.calls r 0) :=
    job_setPhase_self ..
  have hlt : ∀ t' k r' i, t' ≠ t → (s.setPhase t (.ready (.write s.calls r 0))).job t' =
      some (.write k r' i) → s.job t' = some (.write k r' i) := fun t' k r' i hne hj' =>
    (job_setPhase_ne s _ hne).symm.trans hj'
  constructor
  · intro t' k r' i hj'
    by_cases he : t' = t
    · subst he
      obtain ⟨rfl, rfl, rfl⟩ : s.calls = k ∧ r = r' ∧ 0 = i := by
        simpa using hself.symm.trans hj'
      refine ⟨Nat.lt_succ_self _, ?_⟩
      change Wrote r (s.chunksOf s.calls) 0
      rw [chunksOf_calls h]
      exact .nil
    · obtain ⟨hk, hw⟩ := h.active t' k r' i (hlt t' k r' i he hj')
      exact ⟨Nat.lt_succ_of_lt hk, hw⟩
  · intro t1 t2 k r1 r2 i1 i2 h1 h2
    by_cases he1 : t1 = t <;> by_cases he2 : t2 = t
    · rw [he1, he2]
    · subst he1
      have hk : s.calls = k := (by simpa using hself.symm.trans h1 : _ ∧ _).1
      have := (h.active t2 k r2 i2 (hlt t2 k r2 i2 he2 h2)).1
      omega
    · subst he2
      have hk : s.calls = k := (by simpa using hself.symm.trans h2 : _ ∧ _).1
      have := (h.active t1 k r1 i1 (hlt t1 k r1 i1 he1 h1)).1
      omega
    · exact h.unique t1 t2 k r1 r2 i1 i2 (hlt _ _ _ _ he1 h1) (hlt _ _ _ _ he2 h2)
  · intro c hc
    exact Nat.lt_succ_of_lt (h.chunk_lt c hc)
  · intro f hf
    obtain ⟨hk, hw⟩ := h.done f hf
    exact ⟨Nat.lt_succ_of_lt hk, hw⟩
  · intro f t' k r' i hf hj'
    by_cases he : t' = t
    · subst he
      have hk : s.calls = k := (by simpa using hself.symm.trans hj' : _ ∧ _).1
      have := (h.done f hf).1
      omega
    · exact h.apart f t' k r' i hf (hlt t' k r' i he hj')

lemma Calls.open_read (h : Calls s) (hp : ∀ k r i, ph.job? ≠ some (.write k r i)) : Calls (s.setPhase t ph) := by
  have hlt : ∀ t' k r' i, (s.setPhase t ph).job t' = some (.write k r' i) →
      s.job t' = some (.write k r' i) := by
    intro t' k r' i hj
    by_cases he : t' = t
    · subst he
      exact absurd ((job_setPhase_self ..).symm.trans hj) (hp k r' i)
    · exact (job_setPhase_ne s ph he).symm.trans hj
  refine ⟨fun t' k r' i hj => h.active t' k r' i (hlt _ _ _ _ hj), ?_, h.chunk_lt, h.done, ?_⟩
  · intro t1 t2 k r1 r2 i1 i2 h1 h2
    exact h.unique t1 t2 k r1 r2 i1 i2 (hlt _ _ _ _ h1) (hlt _ _ _ _ h2)
  · intro f t' k r' i hf hj
    exact h.apart f t' k r' i hf (hlt _ _ _ _ hj)

lemma Calls.finish (h : Calls s) {r : WriteReq} {i : BitVec 32} (hj : s.job t = some (.write k r i))
    (hi : ¬ (i.signExtend 64).ult r.n = true) :
    Calls { (s.setPhase t .idle).unlock with finished := s.finished ++ [⟨k, r, i⟩] } := by
  have hidle : Calls (s.setPhase t .idle) := h.open_read (by simp [Phase.job?])
  refine ⟨hidle.active, hidle.unique, hidle.chunk_lt, fun f hf => ?_, fun f t' k' r' i' hf hj' => ?_⟩
  · rcases mem_append.mp hf with hf | hf
    · exact hidle.done f hf
    · rw [mem_singleton.mp hf]
      obtain ⟨hk, hw⟩ := h.active t k r i hj
      exact ⟨hk, hw, hi⟩
  · rcases mem_append.mp hf with hf | hf
    · exact hidle.apart f t' k' r' i' hf hj'
    · rw [mem_singleton.mp hf]
      rintro rfl
      have hne : t' ≠ t := by
        rintro rfl
        have : (s.setPhase t' .idle).job t' = some (.write k r' i') := hj'
        simp [job_setPhase_self, Phase.job?] at this
      exact hne (h.unique t' t k r' r i' i ((job_setPhase_ne s _ hne).symm.trans hj') hj)

lemma Calls.append_chunk (h : Calls s) {c : Chunk} (hj : s.job t = some (.write c.call c.req c.i)) (hv : c.Valid) :
    Calls { s.setPhase t (.running (.write c.call c.req
        (c.i + BitVec.ofNat 32 (min c.left c.req.n.toNat)))) with
      pipe := p, chunks := s.chunks ++ [c] } := by
  set s' : State T := { s.setPhase t _ with pipe := p, chunks := s.chunks ++ [c] } with hs'
  obtain ⟨hk, hw⟩ := h.active t _ _ _ hj
  have hself : s'.job t =
      some (.write c.call c.req (c.i + BitVec.ofNat 32 (min c.left c.req.n.toNat))) :=
    job_setPhase_self s ..
  have hne : ∀ t', t' ≠ t → s'.job t' = s.job t' := fun t' he => job_setPhase_ne s _ he
  have happ : s'.chunks = s.chunks ++ [c] := rfl
  have hcs : ∀ k, k ≠ c.call → s'.chunksOf k = s.chunksOf k := fun k hk => by
    simp [chunksOf, happ, Ne.symm hk]
  constructor
  · intro t' k r i hj'
    by_cases he : t' = t
    · subst he
      obtain ⟨rfl, rfl, rfl⟩ : c.call = k ∧ c.req = r ∧ _ = i := by
        simpa using hself.symm.trans hj'
      refine ⟨hk, ?_⟩
      rw [show s'.chunksOf c.call = s.chunksOf c.call ++ [c] by simp [chunksOf, happ]]
      exact .snoc hw hv rfl
    · rw [hne t' he] at hj'
      have hkc : k ≠ c.call := by
        rintro rfl
        exact he (h.unique t' t _ _ _ _ _ hj' hj)
      rw [hcs k hkc]
      exact h.active t' k r i hj'
  · intro t1 t2 k r1 r2 i1 i2 h1 h2
    have hold : ∀ t' r' i', s'.job t' = some (.write k r' i') → ∃ r i, s.job t' = some (.write k r i) := by
      intro t' r' i' hj'
      by_cases he : t' = t
      · subst he
        have hkc : c.call = k := (by simpa using hself.symm.trans hj' : _ ∧ _).1
        exact ⟨c.req, c.i, hkc ▸ hj⟩
      · exact ⟨r', i', (hne t' he).symm.trans hj'⟩
    obtain ⟨_, _, h1⟩ := hold t1 r1 i1 h1
    obtain ⟨_, _, h2⟩ := hold t2 r2 i2 h2
    exact h.unique t1 t2 k _ _ _ _ h1 h2
  · intro c' hc'
    rcases mem_append.mp hc' with hc' | hc'
    · exact h.chunk_lt c' hc'
    · rw [mem_singleton.mp hc']
      exact hk
  · intro f hf
    rw [hcs f.call (h.apart f t _ _ _ hf hj)]
    exact h.done f hf
  · intro f t' k r i hf hj'
    by_cases he : t' = t
    · subst he
      have hkc : c.call = k := (by simpa using hself.symm.trans hj' : _ ∧ _).1
      exact hkc ▸ h.apart f t' _ _ _ hf hj
    · exact h.apart f t' k r i hf ((hne t' he).symm.trans hj')

end Runs

end FarmOS.Fs.PipeDev

import FarmOS.Fs.PipeDev

/-! The pipe buffer as a queue: what the positions and the ring hold after any history. -/

namespace FarmOS.Fs.PipeDev

open Lib List Nat

structure Fifo (p : Pipe) (written taken : List UInt8) : Prop where
  writePos : p.pipeWritePos = BitVec.ofNat 64 written.length
  readPos : p.pipeReadPos = BitVec.ofNat 64 taken.length
  taken_eq : taken = written.take taken.length
  bound : written.length ≤ taken.length + pipeBufSize
  content (j : ℕ) (h : j < written.length) : taken.length ≤ j →
    p.pipeBuf (j % pipeBufSize) = written[j]

variable {p : Pipe} {written taken : List UInt8} {r : WriteReq} {i : BitVec 32} {n : BitVec 64}

lemma mod_mod_pipeBufSize (a : ℕ) : a % 2 ^ 64 % pipeBufSize = a % pipeBufSize := by
  simp only [pipeBufSize, pageSize]
  omega

section

variable (h : Fifo p written taken)
include h

lemma Fifo.le : taken.length ≤ written.length := by
  have := congrArg length h.taken_eq
  rw [length_take] at this
  omega

lemma Fifo.used : p.used.toNat = written.length - taken.length := by
  have hle := h.le
  have hb := h.bound
  simp only [pipeBufSize, pageSize] at hb
  rw [Pipe.used, h.writePos, h.readPos, BitVec.toNat_sub, BitVec.toNat_ofNat, BitVec.toNat_ofNat]
  omega

lemma Fifo.leftSize : p.leftSize.toNat = pipeBufSize - (written.length - taken.length) := by
  have hb := h.bound
  have hu := h.used
  rw [Pipe.leftSize, BitVec.toNat_sub, BitVec.toNat_ofNat, hu]
  simp only [pipeBufSize, pageSize] at hb ⊢
  omega

lemma Fifo.writeLength : (writeLength p r).toNat =
    min (pipeBufSize - (written.length - taken.length)) r.n.toNat := by
  rw [PipeDev.writeLength, ← h.leftSize]
  by_cases hlt : p.leftSize.ult r.n
  · rw [if_pos hlt, Nat.min_eq_left]
    simp only [BitVec.ult, decide_eq_true_eq] at hlt
    omega
  · rw [if_neg hlt, Nat.min_eq_right]
    simp only [BitVec.ult, decide_eq_true_eq] at hlt
    omega

lemma Fifo.readSize : (readSize p n).toNat = min n.toNat (written.length - taken.length) := by
  rw [PipeDev.readSize, ← h.used]
  by_cases hlt : n.ult p.used
  · rw [if_pos hlt, Nat.min_eq_left]
    simp only [BitVec.ult, decide_eq_true_eq] at hlt
    omega
  · rw [if_neg hlt, Nat.min_eq_right]
    simp only [BitVec.ult, decide_eq_true_eq] at hlt
    omega

end

lemma copyIn_append (va : BitVec 64) (a b : ℕ) :
    copyIn va a ++ copyIn (va + BitVec.ofNat 64 a) b = copyIn va (a + b) := by
  rw [copyIn, copyIn, copyIn, range_add, map_append, map_map]
  congr 1
  apply map_congr_left
  intro j _
  rw [Function.comp_apply, BitVec.ofNat_add, BitVec.add_assoc]

@[simp] lemma length_copyIn (va : BitVec 64) (a : ℕ) : (copyIn va a).length = a := by simp [copyIn]

lemma pipeBufSize_pos : 0 < pipeBufSize := by decide

lemma ofNat_toNat_mod (a : ℕ) : (BitVec.ofNat 64 a).toNat % pipeBufSize = a % pipeBufSize := by
  rw [BitVec.toNat_ofNat, mod_mod_pipeBufSize]

lemma ofNat_add_toNat_mod (a : ℕ) (x : BitVec 64) :
    (BitVec.ofNat 64 a + x).toNat % pipeBufSize = (a % pipeBufSize + x.toNat) % pipeBufSize := by
  rw [BitVec.toNat_add, BitVec.toNat_ofNat, mod_mod_pipeBufSize, mod_add_mod]
  simp only [pipeBufSize, pageSize]
  omega

section

variable (h : Fifo p written taken) (hfull : p.used ≠ BitVec.ofNat 64 pipeBufSize)
include h hfull

lemma Fifo.room : written.length < taken.length + pipeBufSize := by
  apply Nat.lt_of_le_of_ne h.bound
  intro he
  apply hfull
  apply BitVec.eq_of_toNat_eq
  rw [h.used, BitVec.toNat_ofNat, he]
  simp only [pipeBufSize, pageSize]
  omega

lemma Fifo.writeLength_bounds (hn : 0 < r.n.toNat) :
    0 < (PipeDev.writeLength p r).toNat ∧ (PipeDev.writeLength p r).toNat ≤ pipeBufSize ∧
      written.length + (PipeDev.writeLength p r).toNat ≤ taken.length + pipeBufSize := by
  have hr := h.room hfull
  have hl := h.le
  rw [h.writeLength]
  omega

lemma Fifo.writeAddrs_eq (hn : 0 < r.n.toNat) :
    writeAddrs p r i = copyIn (r.buf + i.signExtend 64) (PipeDev.writeLength p r).toNat := by
  obtain ⟨hpos, hle, -⟩ := h.writeLength_bounds hfull hn
  have hb : written.length % pipeBufSize < pipeBufSize := mod_lt _ pipeBufSize_pos
  simp only [writeAddrs, h.writePos, ofNat_toNat_mod, ofNat_add_toNat_mod]
  split
  · rfl
  · next hw => rw [copyIn_append, ring_wrapped hb hpos hle hw]

lemma Fifo.writeBuf_apply (hn : 0 < r.n.toNat) {d : ℕ} (hd : d < pipeBufSize) :
    writeBuf p r i ((written.length + d) % pipeBufSize) =
      if hlt : d < ((writeAddrs p r i).map r.mem).length then ((writeAddrs p r i).map r.mem)[d]
      else p.pipeBuf ((written.length + d) % pipeBufSize) := by
  obtain ⟨hpos, hle, -⟩ := h.writeLength_bounds hfull hn
  have hb : written.length % pipeBufSize < pipeBufSize := mod_lt _ pipeBufSize_pos
  have ha := h.writeAddrs_eq (i := i) hfull hn
  have hl : ((writeAddrs p r i).map r.mem).length = (PipeDev.writeLength p r).toNat := by
    rw [length_map, ha, length_copyIn]
  rw [← mod_add_mod]
  simp only [writeBuf, h.writePos, ofNat_toNat_mod, ofNat_add_toNat_mod, ← ha]
  apply ring_blit p.pipeBuf hl hb hpos hle _ hd
  intro hw
  refine ⟨?_, by simp⟩
  rw [← map_append, copyIn_append, ring_wrapped hb hpos hle hw, ha]

lemma Fifo.write_content (hn : 0 < r.n.toNat) {j : ℕ} (hj : j < (written ++ (writeAddrs p r i).map r.mem).length)
    (hr : taken.length ≤ j) :
    writeBuf p r i (j % pipeBufSize) = (written ++ (writeAddrs p r i).map r.mem)[j] := by
  obtain ⟨-, hle, hbound⟩ := h.writeLength_bounds hfull hn
  have hl : ((writeAddrs p r i).map r.mem).length = (PipeDev.writeLength p r).toNat := by
    rw [length_map, h.writeAddrs_eq hfull hn, length_copyIn]
  have hj' := hj
  rw [length_append, hl] at hj'
  rw [getElem_append]
  split
  · next hlt =>
    have hd : j + pipeBufSize - written.length < pipeBufSize := by omega
    have hw := h.writeBuf_apply (i := i) hfull hn hd
    have he : written.length + (j + pipeBufSize - written.length) = j + pipeBufSize := by omega
    rw [dif_neg (by omega), he, add_mod_right] at hw
    exact hw.trans (h.content j hlt hr)
  · next hge =>
    have hw := h.writeBuf_apply (i := i) hfull hn (show j - written.length < pipeBufSize by omega)
    rw [dif_pos (by omega), Nat.add_sub_cancel' (by omega)] at hw
    exact hw

end

lemma Fifo.write (h : Fifo p written taken) (hfull : p.used ≠ BitVec.ofNat 64 pipeBufSize)
    (hn : 0 < r.n.toNat) : Fifo (p.write r i) (written ++ (writeAddrs p r i).map r.mem) taken := by
  obtain ⟨-, -, hbound⟩ := h.writeLength_bounds hfull hn
  have hl : ((writeAddrs p r i).map r.mem).length = (PipeDev.writeLength p r).toNat := by
    rw [length_map, h.writeAddrs_eq hfull hn, length_copyIn]
  refine ⟨?_, h.readPos, ?_, by rw [length_append]; omega,
    fun j hj hr => ?_⟩
  · rw [Pipe.write, h.writePos, length_append, hl, BitVec.ofNat_add, BitVec.ofNat_toNat, BitVec.setWidth_eq]
  · rw [take_append_of_le_length h.le]
    exact h.taken_eq
  · exact h.write_content hfull hn hj hr

lemma Fifo.readOut_eq (h : Fifo p written taken) :
    readOut p n = (written.drop taken.length).take (PipeDev.readSize p n).toNat := by
  have hs := h.readSize (n := n)
  have hb : taken.length % pipeBufSize < pipeBufSize := mod_lt _ pipeBufSize_pos
  have hbound := h.bound
  by_cases hz : PipeDev.readSize p n = 0
  · simp [readOut, hz]
  · have hpos : 0 < (PipeDev.readSize p n).toNat := by
      rw [Nat.pos_iff_ne_zero]
      exact fun h0 => hz (BitVec.eq_of_toNat_eq h0)
    have hle : (PipeDev.readSize p n).toNat ≤ pipeBufSize := by omega
    simp only [readOut, hz, ne_eq, not_false_eq_true, if_true, h.readPos, ofNat_toNat_mod,
      ofNat_add_toNat_mod]
    rw [ring_slice p.pipeBuf hb hpos hle]
    apply ext_getElem
    · rw [length_map, length_range, length_take, length_drop]
      omega
    · intro j h1 h2
      rw [length_map, length_range] at h1
      rw [getElem_map, getElem_range, mod_add_mod, getElem_take,
        getElem_drop]
      exact h.content _ (by omega) (by omega)

lemma Fifo.read (h : Fifo p written taken) :
    Fifo { p with pipeReadPos := p.pipeReadPos + PipeDev.readSize p n } written
      (taken ++ readOut p n) := by
  have hs := h.readSize (n := n)
  have hle := h.le
  have hl : (readOut p n).length = (PipeDev.readSize p n).toNat := by
    rw [h.readOut_eq, length_take, length_drop]
    omega
  refine ⟨h.writePos, ?_, ?_, ?_, fun j hj hr => h.content j hj ?_⟩
  · rw [h.readPos, length_append, hl, BitVec.ofNat_add, BitVec.ofNat_toNat, BitVec.setWidth_eq]
  · rw [length_append, hl, take_add, ← h.taken_eq, ← h.readOut_eq]
  · have := h.bound
    rw [length_append]
    omega
  · rw [length_append] at hr
    omega

end FarmOS.Fs.PipeDev

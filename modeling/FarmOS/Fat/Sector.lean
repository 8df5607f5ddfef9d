import FarmOS.Lib.Mem

/-! A disk as sectors of bytes and as one row of bytes, with the sector-wise copies of `kern/fs/cluster.c`. -/

namespace FarmOS.Fat

open Lib Function List Nat

abbrev Byte := BitVec 8

abbrev Disk := ℕ → ℕ → Byte

def bufSize : ℕ := 512

def flat (d : Disk) (a : ℕ) : Byte := d (a / bufSize) (a % bufSize)

def readSecs (d : Disk) : ℕ → ℕ → ℕ → ℕ → List Byte
  | 0, _, _, _ => []
  | fuel + 1, secno, secoff, n =>
    if n = 0 then []
    else
      let len := min (bufSize - secoff) n
      slice (d secno) secoff len ++ readSecs d fuel (secno + 1) 0 (n - len)

def writeSecs : ℕ → Disk → ℕ → ℕ → List Byte → Disk
  | 0, d, _, _, _ => d
  | fuel + 1, d, secno, secoff, src =>
    if src = [] then d
    else
      let len := min (bufSize - secoff) src.length
      writeSecs fuel (update d secno (blit (d secno) secoff (src.take len))) (secno + 1) 0
        (src.drop len)

def zeroSecs (d : Disk) (secno n : ℕ) : Disk :=
  (range n).foldl (fun d i => update d (secno + i) fun _ => 0) d

def entryAt (d : Disk) (sec index : ℕ) : ℕ := leNat (slice (d sec) (index * 4) 4)

def putEntry (d : Disk) (sec index content : ℕ) : Disk :=
  update d sec (blit (d sec) (index * 4) (leBytes 4 content))

section Flat

variable {d : Disk} {sec off n a : ℕ} {l src : List Byte}

lemma flat_add (h : off < bufSize) : flat d (bufSize * sec + off) = d sec off := by
  have h0 : 0 < bufSize := lt_of_le_of_lt (zero_le _) h
  rw [flat, mul_add_div h0, div_eq_of_lt h, mul_add_mod, mod_eq_of_lt h, add_zero]

lemma exists_sec (a : ℕ) : ∃ sec off, off < bufSize ∧ a = bufSize * sec + off :=
  ⟨a / bufSize, a % bufSize, mod_lt _ (by decide), (div_add_mod a bufSize).symm⟩

lemma flat_update (hl : off + l.length ≤ bufSize) :
    flat (update d sec (blit (d sec) off l)) = blit (flat d) (bufSize * sec + off) l := by
  funext a
  obtain ⟨k, o, ho, rfl⟩ := exists_sec a
  rw [flat_add ho]
  by_cases hk : k = sec
  · subst hk
    rw [update_self]
    by_cases hin : off ≤ o ∧ o - off < l.length
    · have he : bufSize * k + o = bufSize * k + off + (o - off) := by omega
      have he' : o = off + (o - off) := by omega
      rw [he, blit_add _ _ _ hin.2]
      conv_lhs => rw [he']
      exact blit_add _ _ _ hin.2
    · rw [blit, blit, dif_neg hin, dif_neg (by omega), flat_add ho]
  · rw [update_of_ne hk]
    obtain hlt | hgt := lt_or_gt_of_ne hk
    · have : bufSize * (k + 1) ≤ bufSize * sec := mul_le_mul_left _ hlt
      rw [mul_succ] at this
      rw [blit_of_lt _ _ _ (by omega), flat_add ho]
    · have : bufSize * (sec + 1) ≤ bufSize * k := mul_le_mul_left _ hgt
      rw [mul_succ] at this
      rw [blit_of_ge _ _ _ (by omega), flat_add ho]

lemma slice_sec (h : off + n ≤ bufSize) : slice (d sec) off n = slice (flat d) (bufSize * sec + off) n := by
  apply map_congr_left
  intro j hj
  have hj := mem_range.mp hj
  rw [add_assoc, flat_add (by omega)]

lemma flat_writeSecs {fuel : ℕ} (hf : src.length ≤ fuel) (ho : off < bufSize) :
    flat (writeSecs fuel d sec off src) = blit (flat d) (bufSize * sec + off) src := by
  induction fuel generalizing d sec off src with
  | zero =>
    obtain rfl := eq_nil_of_length_eq_zero (le_zero.mp hf)
    rw [writeSecs, blit_nil]
  | succ fuel ih =>
    rw [writeSecs]
    split_ifs with h
    · rw [h, blit_nil]
    · have hpos : 0 < src.length := length_pos_iff.mpr h
      have hlen : (src.take (min (bufSize - off) src.length)).length = min (bufSize - off) src.length := by
        rw [length_take, min_eq_left (min_le_right _ _)]
      rw [ih (by rw [length_drop]; omega) (by decide), flat_update (by omega)]
      conv_rhs => rw [← take_append_drop (min (bufSize - off) src.length) src, blit_append, hlen]
      by_cases hfull : bufSize - off ≤ src.length
      · rw [min_eq_left hfull]
        congr 1
        rw [mul_succ]
        omega
      · rw [Nat.min_eq_right (by omega), drop_length, blit_nil, blit_nil]

lemma readSecs_eq {fuel : ℕ} (hf : n ≤ fuel) (ho : off < bufSize) :
    readSecs d fuel sec off n = slice (flat d) (bufSize * sec + off) n := by
  induction fuel generalizing sec off n with
  | zero =>
    obtain rfl := le_zero.mp hf
    rfl
  | succ fuel ih =>
    rw [readSecs]
    split_ifs with h
    · rw [h, slice_zero]
    · dsimp only
      rw [ih (by omega) (by decide), slice_sec (by omega)]
      by_cases hfull : bufSize - off ≤ n
      · rw [min_eq_left hfull]
        conv_rhs => rw [show n = bufSize - off + (n - (bufSize - off)) by omega, slice_append]
        congr 2
        rw [mul_succ]
        omega
      · rw [Nat.min_eq_right (by omega), Nat.sub_self, slice_zero, append_nil]

lemma writeSecs_of_not_mem {fuel k : ℕ} (ho : off < bufSize)
    (hk : k < sec ∨ bufSize * sec + off + src.length ≤ bufSize * k) : writeSecs fuel d sec off src k = d k := by
  induction fuel generalizing d sec off src with
  | zero => rw [writeSecs]
  | succ fuel ih =>
    rw [writeSecs]
    split_ifs with h
    · rfl
    · have hpos : 0 < src.length := length_pos_iff.mpr h
      have hne : k ≠ sec := by
        rintro rfl
        omega
      have hlt : k < sec ∨ sec + 1 ≤ k := by omega
      rw [ih (by decide), update_of_ne hne]
      obtain hk' | hk' := hlt
      · exact .inl (by omega)
      · have hge := hk.resolve_left (by omega)
        have hs : bufSize * (sec + 1) ≤ bufSize * k := mul_le_mul_left _ hk'
        rw [mul_succ] at hs
        right
        rw [length_drop, mul_succ]
        omega

lemma flat_zeroSecs : flat (zeroSecs d sec n) = blit (flat d) (bufSize * sec) (replicate (bufSize * n) 0) := by
  induction n with
  | zero => rw [mul_zero, replicate_zero, blit_nil, zeroSecs, range_zero, foldl_nil]
  | succ n ih =>
    rw [zeroSecs, range_succ, foldl_append, foldl_cons, foldl_nil, ← zeroSecs]
    rw [mul_succ, replicate_add, blit_append, ← ih, length_replicate, ← mul_add]
    funext a
    obtain ⟨k, o, ho, rfl⟩ := exists_sec a
    rw [flat_add ho]
    by_cases hk : k = sec + n
    · subst hk
      rw [update_self, blit_add _ _ _ (by simpa using ho), getElem_replicate]
    · rw [update_of_ne hk]
      obtain hlt | hgt := lt_or_gt_of_ne hk
      · have : bufSize * (k + 1) ≤ bufSize * (sec + n) := mul_le_mul_left _ hlt
        rw [mul_succ] at this
        rw [blit_of_lt _ _ _ (by omega), flat_add ho]
      · have : bufSize * (sec + n + 1) ≤ bufSize * k := mul_le_mul_left _ hgt
        rw [mul_succ] at this
        rw [blit_of_ge _ _ _ (by rw [length_replicate]; omega), flat_add ho]

lemma flat_putEntry {index content : ℕ} (h : index < 128) :
    flat (putEntry d sec index content) = blit (flat d) (bufSize * sec + index * 4) (leBytes 4 content) := by
  refine flat_update ?_
  rw [length_leBytes, bufSize]
  omega

lemma entryAt_eq {index : ℕ} (h : index < 128) :
    entryAt d sec index = leNat (slice (flat d) (bufSize * sec + index * 4) 4) := by
  rw [entryAt, slice_sec]
  rw [bufSize]
  omega

end Flat

end FarmOS.Fat

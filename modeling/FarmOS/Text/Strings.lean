import FarmOS.Lib.Mem

/-! `memset`, `memmove` and `safestrcpy` of `lib/string.c`, on a memory of bytes. -/

namespace FarmOS.Text

open Lib List Function Option

abbrev Byte := BitVec 8

abbrev Mem := ℕ → Byte

variable {m : Mem} {a b d i k n p s : ℕ} {l : List Byte} {x : Byte}

lemma blit_singleton : blit m a [x] = update m a x := by
  funext k
  by_cases hk : k = a
  · rw [hk, update_self, blit, dif_pos (by simp)]
    simp
  · rw [update_of_ne hk, blit, dif_neg (by rw [length_singleton]; omega)]

lemma blit_replicate : blit (blit m a (replicate n x)) (a + n) (replicate k x) = blit m a (replicate (n + k) x) := by
  rw [replicate_add, blit_append, length_replicate]

section Fill

-- `p[i]` for an `int` index, given as its 32 bits.
def index (p i : ℕ) : ℕ := if i < 2 ^ 31 then p + i else (p + i + (2 ^ 64 - 2 ^ 32)) % 2 ^ 64

-- An index takes at most so many values: a loop that is not over by then goes on for ever.
def rounds : ℕ := 2 ^ 32 + 1

def setBytes (p : ℕ) (ch : Byte) (n : ℕ) : ℕ → ℕ → Mem → Option Mem
  | 0, _, _ => none
  | k + 1, i, m => if i < n then setBytes p ch n k ((i + 1) % 2 ^ 32) (update m (index p i) ch) else some m

def setWords (data n : ℕ) : ℕ → ℕ → ℕ → Mem → Option (ℕ × Mem)
  | 0, _, _, _ => none
  | k + 1, p, i, m =>
    if i ≤ (n + 2 ^ 32 - 8) % 2 ^ 32 then setWords data n k (p + 8) ((i + 8) % 2 ^ 32) (blit m p (leBytes 8 data))
    else some (i, m)

def word (c : BitVec 32) : ℕ :=
  if c = 0 then 0
  else
    let ch := (c.setWidth 8).toNat
    (ch <<< 56) ||| (ch <<< 48) ||| (ch <<< 40) ||| (ch <<< 32) ||| (ch <<< 24) ||| (ch <<< 16) ||| (ch <<< 8) ||| ch

def setHead (dst : ℕ) (ch : Byte) (n : ℕ) (m : Mem) : Option (ℕ × ℕ × Mem) :=
  if dst % 8 ≠ 0 then do
    let sum := 8 - dst % 8
    let m ← setBytes dst ch sum rounds 0 m
    some ((dst + 7) / 8 * 8, (n + 2 ^ 32 - sum) % 2 ^ 32, m)
  else some (dst, n, m)

def setRest (k cdst : ℕ) (c : BitVec 32) (n : ℕ) (m : Mem) : Option Mem := do
  let (i, m) ← setWords (word c) n k cdst 0 m
  if i ≠ n then setBytes cdst (c.setWidth 8) n k i m else some m

def memset (dst : ℕ) (c : BitVec 32) (n : ℕ) (m : Mem) : Option Mem := do
  let (cdst, n, m) ← setHead dst (c.setWidth 8) n m
  setRest rounds cdst c n m

def slowMemset (dst : ℕ) (c : BitVec 32) (n : ℕ) (m : Mem) : Option Mem := setBytes dst (c.setWidth 8) n rounds 0 m

lemma setBytes_eq (hi : i ≤ n) (hn : n ≤ 2 ^ 31) (hk : n - i < k) :
    setBytes p x n k i m = some (blit m (p + i) (replicate (n - i) x)) := by
  induction k generalizing i m with
  | zero => omega
  | succ k ih =>
    rw [setBytes]
    split
    · next hlt =>
      rw [Nat.mod_eq_of_lt (by omega), ih (by omega) (by omega), index, if_pos (by omega), ← blit_singleton,
        ← Nat.add_assoc, ← replicate_one, blit_replicate, show 1 + (n - (i + 1)) = n - i by omega]
    · next hge => rw [show n - i = 0 by omega, replicate_zero, blit_nil]

lemma setWords_eq (hd : leBytes 8 b = replicate 8 x) (h8 : 8 ≤ n) (hi : i ≤ n) (hn : n < 2 ^ 32) (hk : n - i < k) :
    setWords b n k p i m = some (i + (n - i) / 8 * 8, blit m p (replicate ((n - i) / 8 * 8) x)) := by
  induction k generalizing p i m with
  | zero => omega
  | succ k ih =>
    rw [setWords, show (n + 2 ^ 32 - 8) % 2 ^ 32 = n - 8 by omega]
    split
    · next hle =>
      rw [Nat.mod_eq_of_lt (by omega), ih (by omega) (by omega), hd, blit_replicate,
        show 8 + (n - (i + 8)) / 8 * 8 = (n - i) / 8 * 8 by omega,
        show i + 8 + (n - (i + 8)) / 8 * 8 = i + (n - i) / 8 * 8 by omega]
    · next hgt => rw [show (n - i) / 8 * 8 = 0 by omega, replicate_zero, blit_nil, Nat.add_zero]

lemma leBytes_word (c : BitVec 32) : leBytes 8 (word c) = replicate 8 (c.setWidth 8) := by
  rw [word]
  split
  · next h => rw [h]; rfl
  · have hall : ∀ ch : Fin 256, leBytes 8 ((ch.val <<< 56) ||| (ch.val <<< 48) ||| (ch.val <<< 40) |||
        (ch.val <<< 32) ||| (ch.val <<< 24) ||| (ch.val <<< 16) ||| (ch.val <<< 8) ||| ch.val) =
        replicate 8 (BitVec.ofFin ch) := by decide +kernel
    exact hall (c.setWidth 8).toFin

def headLength (dst : ℕ) : ℕ := (8 - dst % 8) % 8

lemma setHead_unaligned (h : d % 8 ≠ 0) : setHead d x n m =
    some ((d + 7) / 8 * 8, (n + 2 ^ 32 - (8 - d % 8)) % 2 ^ 32, blit m d (replicate (8 - d % 8) x)) := by
  rw [setHead, if_pos h]
  dsimp only
  rw [setBytes_eq (Nat.zero_le _) (by omega) (by rw [rounds]; omega), Nat.add_zero, Nat.sub_zero]
  rfl

lemma setHead_eq (hn : n < 2 ^ 32) (hh : headLength d ≤ n) : setHead d x n m =
    some (d + headLength d, n - headLength d, blit m d (replicate (headLength d) x)) := by
  by_cases h : d % 8 = 0
  · have hl : headLength d = 0 := by rw [headLength, h]
    rw [setHead, if_neg (not_not.mpr h), hl, replicate_zero, blit_nil, Nat.add_zero, Nat.sub_zero]
  · have hl : headLength d = 8 - d % 8 := Nat.mod_eq_of_lt (by omega)
    rw [hl] at hh ⊢
    rw [setHead_unaligned h, show (d + 7) / 8 * 8 = d + (8 - d % 8) by omega,
      show (n + 2 ^ 32 - (8 - d % 8)) % 2 ^ 32 = n - (8 - d % 8) by omega]

lemma setRest_words {c : BitVec 32} (h8 : 8 ≤ n) (hn : n < 2 ^ 32) : setRest rounds p c n m =
    if n / 8 * 8 ≠ n then setBytes p (c.setWidth 8) n rounds (n / 8 * 8)
      (blit m p (replicate (n / 8 * 8) (c.setWidth 8)))
    else some (blit m p (replicate (n / 8 * 8) (c.setWidth 8))) := by
  rw [setRest, setWords_eq (leBytes_word c) h8 (Nat.zero_le _) hn (by rw [rounds]; omega)]
  simp only [bind_eq_bind, bind_some, zero_add, Nat.sub_zero]

lemma setRest_eq {c : BitVec 32} (h8 : 8 ≤ n) (hn : n < 2 ^ 32) (hs : n ≤ 2 ^ 31 ∨ n % 8 = 0) :
    setRest rounds p c n m = some (blit m p (replicate n (c.setWidth 8))) := by
  have hle : n / 8 * 8 ≤ n := Nat.div_mul_le_self ..
  rw [setRest_words h8 hn]
  split
  · rw [setBytes_eq hle (by omega) (by rw [rounds]; omega), blit_replicate, Nat.add_sub_cancel' hle]
  · next he => rw [not_not.mp he]

lemma setWords_endless (hn : n < 8) (hi : i % 8 = 0) (hlt : i < 2 ^ 32) : setWords b n k p i m = none := by
  induction k generalizing p i m with
  | zero => rfl
  | succ k ih =>
    rw [setWords, if_pos (by omega)]
    exact ih (by omega) (by omega)

lemma setRest_endless {c : BitVec 32} (hn : n < 8) : setRest k p c n m = none := by
  rw [setRest, setWords_endless hn rfl (by decide)]
  rfl

variable {m' : Mem} {q : ℕ}

lemma setBytes_keeps (h : setBytes p x n k i m = some m') (hq : m q = x) : m' q = x := by
  induction k generalizing i m with
  | zero => cases h
  | succ k ih =>
    rw [setBytes] at h
    split at h
    · refine ih h ?_
      by_cases he : q = index p i
      · rw [he, update_self]
      · rw [update_of_ne he, hq]
    · cases h
      exact hq

lemma setBytes_misses (hn : n < 2 ^ 32) (h : setBytes p x n k i m = some m')
    (hq : ∀ j, i ≤ j → j < n → q ≠ index p j) : m' q = m q := by
  induction k generalizing i m with
  | zero => cases h
  | succ k ih =>
    rw [setBytes] at h
    split at h
    · next hi =>
      rw [Nat.mod_eq_of_lt (by omega)] at h
      rw [ih h fun j hj => hq j (by omega), update_of_ne (hq i le_rfl hi)]
    · cases h
      rfl

lemma setRest_keeps {c : BitVec 32} (h8 : 8 ≤ n) (hn : n < 2 ^ 32) (h : setRest rounds p c n m = some m')
    (hq : m q = c.setWidth 8) : m' q = c.setWidth 8 := by
  have hb : blit m p (replicate (n / 8 * 8) (c.setWidth 8)) q = c.setWidth 8 := by
    rw [blit]
    split
    · rw [getElem_replicate]
    · exact hq
  rw [setRest_words h8 hn] at h
  split at h
  · exact setBytes_keeps h hb
  · cases h
    exact hb

lemma setRest_misses {c : BitVec 32} (hn : n < 2 ^ 32) (hlt : 2 ^ 31 < n) (h8 : n % 8 ≠ 0)
    (h : setRest rounds p c n m = some m') : m' (p + (n - 1)) = m (p + (n - 1)) := by
  rw [setRest_words (by omega) hn, if_pos (by omega)] at h
  rw [setBytes_misses hn h, blit_of_ge _ _ _ (by rw [length_replicate]; omega)]
  intro j hj hjn
  rw [index, if_neg (by omega)]
  omega

theorem memset_fills (dst : ℕ) (c : BitVec 32) (n : ℕ) (hn : n < 2 ^ 32) :
    ((∀ m, memset dst c n m = some (blit m dst (replicate n (c.setWidth 8)))) ↔
      headLength dst + 8 ≤ n ∧ (n - headLength dst ≤ 2 ^ 31 ∨ (n - headLength dst) % 8 = 0)) ∧
    (n ≤ 2 ^ 31 → ∀ m, slowMemset dst c n m = some (blit m dst (replicate n (c.setWidth 8)))) := by
  refine ⟨⟨fun h => ?_, fun ⟨hlow, hs⟩ m => ?_⟩, fun hhigh m => ?_⟩
  · have h := h fun _ => c.setWidth 8 + 1
    have hne : c.setWidth 8 + 1 ≠ c.setWidth 8 := by simp
    rw [memset] at h
    by_cases hh : headLength dst ≤ n
    · rw [setHead_eq hn hh, bind_eq_bind, bind_some] at h
      by_cases h8 : headLength dst + 8 ≤ n
      · refine ⟨h8, or_iff_not_and_not.mpr fun ⟨hlt, h8⟩ => hne ?_⟩
        have hm := setRest_misses (by omega) (by omega) h8 h
        rw [show dst + headLength dst + (n - headLength dst - 1) = dst + (n - 1) by omega] at hm
        refine (blit_of_ge _ _ _ ?_).symm.trans (hm.symm.trans ?_)
        · rw [length_replicate]
          omega
        · rw [blit_add _ _ _ (by rw [length_replicate]; omega), getElem_replicate]
      · dsimp only at h
        rw [setRest_endless (by omega)] at h
        cases h
    · have hd : n < 8 - dst % 8 ∧ dst % 8 ≠ 0 := by rw [headLength] at hh; omega
      rw [setHead_unaligned hd.2, bind_eq_bind, bind_some] at h
      have hb : blit (fun _ => c.setWidth 8 + 1) dst (replicate (8 - dst % 8) (c.setWidth 8)) (dst + n) =
          c.setWidth 8 := by
        rw [blit_add _ _ _ (by rw [length_replicate]; omega), getElem_replicate]
      have hm := setRest_keeps (by omega) (by omega) h hb
      rw [blit_of_ge _ _ _ (by rw [length_replicate])] at hm
      exact absurd hm hne
  · rw [memset, setHead_eq hn (by omega), bind_eq_bind, bind_some]
    dsimp only
    rw [setRest_eq (by omega) (by omega) hs, blit_replicate, Nat.add_sub_cancel' (by omega)]
  · rw [slowMemset, setBytes_eq (Nat.zero_le _) hhigh (by rw [rounds]; omega), Nat.add_zero, Nat.sub_zero]

theorem memset_fills_page : memset 4096 0 4096 (fun _ => 1) = some (blit (fun _ => 1) 4096 (replicate 4096 0)) :=
  (memset_fills 4096 0 4096 (by decide)).1.mpr ⟨by decide, .inl (by decide)⟩ _

theorem memset_overruns : (memset 8 0 0 fun _ => 1) = none ∧ slowMemset 8 0 0 (fun _ => 1) = some (fun _ => 1) ∧
    setBytes 1 0 (8 - 1 % 8) rounds 0 (fun _ => 1) = some (blit (fun _ => 1) 1 (replicate 7 0)) := by
  refine ⟨?_, ?_, setBytes_eq (by decide) (by decide) (by decide)⟩
  · rw [memset, setHead_eq (by decide) (by decide), bind_eq_bind, bind_some]
    exact setRest_endless (by decide)
  · rw [slowMemset, setBytes_eq (by decide) (by decide) (by decide)]
    exact congrArg some (blit_nil ..)

end Fill

section Move

def copyUp : ℕ → ℕ → ℕ → Mem → Mem
  | 0, _, _, m => m
  | n + 1, d, s, m => copyUp n (d + 1) (s + 1) (update m d (m s))

def copyDown : ℕ → ℕ → ℕ → Mem → Mem
  | 0, _, _, m => m
  | n + 1, d, s, m => copyDown n (d - 1) (s - 1) (update m (d - 1) (m (s - 1)))

def copyWords : ℕ → ℕ → ℕ → Mem → Mem
  | n + 8, d, s, m => copyWords n (d + 8) (s + 8) (blit m d (slice m s 8))
  | n, d, s, m => copyUp n d s m

def memmove (dst src n : ℕ) (m : Mem) : Mem :=
  if n = 0 then m
  else if src < dst ∧ dst < src + n then copyDown n (dst + n) (src + n) m
  else if src % 8 = 0 ∧ dst % 8 = 0 then copyWords n dst src m
  else copyUp n dst src m

lemma update_eq_blit_slice : update m d (m s) = blit m d (slice m s 1) := blit_singleton.symm

lemma blit_slice_blit (h : d ≤ s ∨ s + (n + k) ≤ d) : blit (blit m d (slice m s n)) (d + n)
    (slice (blit m d (slice m s n)) (s + n) k) = blit m d (slice m s (n + k)) := by
  have hs : slice (blit m d (slice m s n)) (s + n) k = slice m (s + n) k := by
    apply slice_congr
    intro j hj
    rcases h with h | h
    · exact blit_of_ge _ _ _ (by rw [length_slice]; omega)
    · exact blit_of_lt _ _ _ (by omega)
  rw [hs, slice_append, blit_append, length_slice]

lemma copyUp_eq (h : d ≤ s ∨ s + n ≤ d) : copyUp n d s m = blit m d (slice m s n) := by
  induction n generalizing d s m with
  | zero => rw [copyUp, slice_zero, blit_nil]
  | succ n ih =>
    rw [copyUp, ih (by omega), update_eq_blit_slice, blit_slice_blit (by omega), add_comm]

lemma copyWords_eq (h : d ≤ s ∨ s + n ≤ d) : copyWords n d s m = blit m d (slice m s n) := by
  induction n, d, s, m using copyWords.induct with
  | case1 n d s m ih => rw [copyWords, ih (by omega), blit_slice_blit (by omega), add_comm]
  | case2 n d s m hn => rw [copyWords, copyUp_eq h]; exact hn

lemma blit_update (h : a + l.length ≤ k) : blit (update m k x) a l = update (blit m a l) k x := by
  funext j
  by_cases hj : j = k
  · rw [hj, update_self, blit_of_ge _ _ _ h, update_self]
  · rw [update_of_ne hj, blit, blit, update_of_ne hj]

lemma copyDown_eq (h : s ≤ d) : copyDown n (d + n) (s + n) m = blit m d (slice m s n) := by
  induction n generalizing m with
  | zero => rw [copyDown, slice_zero, blit_nil]
  | succ n ih =>
    have hs : slice (update m (d + n) (m (s + n))) s n = slice m s n :=
      slice_congr _ _ _ fun j hj => update_of_ne (by omega) ..
    rw [copyDown, ← Nat.add_assoc, Nat.add_sub_cancel, ← Nat.add_assoc, Nat.add_sub_cancel, ih, hs,
      blit_update (by rw [length_slice]), slice_append, blit_append, length_slice, ← blit_singleton]
    rfl

theorem memmove_moves (dst src n : ℕ) (m : Mem) : memmove dst src n m = blit m dst (slice m src n) := by
  rw [memmove]
  split_ifs with h0 hd hw
  · rw [h0, slice_zero, blit_nil]
  · exact copyDown_eq (by omega)
  · exact copyWords_eq (by omega)
  · exact copyUp_eq (by omega)

end Move

section Strings

variable {t : ℕ → Byte}

def copyChars (t : ℕ → Byte) : ℕ → ℕ → ℕ → Mem → ℕ × Mem
  | 0, s, _, m => (s, m)
  | n + 1, s, j, m =>
    if t j ≠ 0 then copyChars t n (s + 1) (j + 1) (update m s (t j)) else (s + 1, update m s (t j))

def safestrcpy (s : ℕ) (t : ℕ → Byte) (n : ℤ) (m : Mem) : Mem :=
  if n ≤ 0 then m
  else
    let (e, m) := copyChars t (n.toNat - 1) s 0 m
    if m (e - 1) ≠ 0 then update m (e - 1) 0 else m

lemma copyChars_eq (hk : k < n) (ht : ∀ j < k, t (i + j) ≠ 0) (h0 : t (i + k) = 0) :
    copyChars t n s i m = (s + k + 1, blit m s (slice t i k ++ [0])) := by
  induction k generalizing n s i m with
  | zero =>
    obtain ⟨n, rfl⟩ := Nat.exists_eq_succ_of_ne_zero (by omega : n ≠ 0)
    have h0 : t i = 0 := h0
    rw [copyChars, if_neg (not_not.mpr h0), h0, slice_zero, nil_append, blit_singleton, Nat.add_zero]
  | succ k ih =>
    obtain ⟨n, rfl⟩ := Nat.exists_eq_succ_of_ne_zero (by omega : n ≠ 0)
    have hn : ∀ j < k, t (i + 1 + j) ≠ 0 := fun j hj => by
      rw [Nat.add_assoc, add_comm 1]
      exact ht _ (by omega)
    have hi : t i ≠ 0 := ht 0 (by omega)
    have hb : blit m s (slice t i (1 + k) ++ [0]) = blit (update m s (t i)) (s + 1) (slice t (i + 1) k ++ [0]) := by
      rw [slice_append, append_assoc, blit_append, ← blit_singleton]
      rfl
    rw [add_comm k, hb, copyChars, if_pos hi, ih (by omega) hn (by rw [← h0, Nat.add_assoc, add_comm 1]),
      Nat.add_assoc s]

lemma copyChars_full (ht : ∀ j < n, t (i + j) ≠ 0) : copyChars t n s i m = (s + n, blit m s (slice t i n)) := by
  induction n generalizing s i m with
  | zero => rw [copyChars, slice_zero, blit_nil, Nat.add_zero]
  | succ n ih =>
    have hi : t i ≠ 0 := ht 0 (by omega)
    rw [copyChars, if_pos hi, ih fun j hj => by rw [Nat.add_assoc, add_comm 1]; exact ht _ (by omega), add_comm n,
      slice_append, blit_append, ← blit_singleton, Nat.add_assoc]
    rfl

lemma safestrcpy_full (ht : ∀ j < n, t j ≠ 0) :
    safestrcpy s t (n + 1 : ℕ) (fun _ => 1) (s + n - 1) = 0 := by
  have hb : blit (fun _ => 1) s (slice t 0 n) (s + n - 1) ≠ 0 := by
    rw [blit]
    split
    · rw [getElem_slice]
      exact ht _ (by rw [length_slice] at *; omega)
    · decide
  rw [safestrcpy, if_neg (by omega), Int.toNat_natCast, Nat.add_sub_cancel,
    copyChars_full fun j hj => by rw [zero_add]; exact ht j hj]
  dsimp only
  rw [if_pos hb, update_self]

theorem safestrcpy_copies (s n len : ℕ) (t : ℕ → Byte) (hs : 0 < s) (hn : 0 < n) (ht : ∀ j < len, t j ≠ 0)
    (h0 : t len = 0) :
    (∀ m, safestrcpy s t n m = blit m s (slice t 0 (min len (n - 1)) ++ [0])) ↔ len + 2 ≤ n := by
  refine ⟨fun h => not_lt.mp fun hlt => ?_, fun hn m => ?_⟩
  · obtain ⟨n, rfl⟩ := Nat.exists_eq_succ_of_ne_zero hn.ne'
    have hz := safestrcpy_full (s := s) fun j (hj : j < n) => ht j (by omega)
    rw [h, show n.succ - 1 = n from rfl, Nat.min_eq_right (by omega), blit_append, length_slice,
      blit_singleton, update_of_ne (by omega), blit] at hz
    split at hz
    · rw [getElem_slice] at hz
      exact ht _ (by rw [length_slice] at *; omega) hz
    · exact absurd hz (by decide)
  · rw [safestrcpy, if_neg (by omega), Int.toNat_natCast, copyChars_eq (k := len) (by omega)
      (fun j hj => by rw [zero_add]; exact ht j hj) (by rw [zero_add]; exact h0)]
    have he : blit m s (slice t 0 len ++ [0]) (s + len) = 0 := by
      rw [blit_append, length_slice, blit_singleton, update_self]
    dsimp only
    rw [Nat.add_sub_cancel, if_neg (not_not.mpr he), Nat.min_eq_left (by omega)]

def letters (l : List Byte) (j : ℕ) : Byte := l.getD j 0

theorem safestrcpy_copies_pair : (safestrcpy 8 (letters [97, 98]) 4 fun _ => 7) = blit (fun _ => 7) 8 [97, 98, 0] :=
  (safestrcpy_copies 8 4 2 (letters [97, 98]) (by decide) (by decide) (by decide) rfl).mpr (by decide) _

theorem safestrcpy_misses_end : (safestrcpy 8 (letters [97]) 1 fun _ => 7) 7 = 0 ∧
    (safestrcpy 8 (letters [97]) 1 fun _ => 7) 8 = 7 ∧
    slice (safestrcpy 8 (letters [97, 98]) 3 fun _ => 7) 8 3 = [97, 0, 7] := by
  decide

end Strings

end FarmOS.Text

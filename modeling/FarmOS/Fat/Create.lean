import FarmOS.Fat.Directory
import FarmOS.Fat.Mirror

/-! What the creation of a file leaves as it was. -/

namespace FarmOS.Fat

open Lib Function List Nat

variable {curN start : ℕ} {name : List Byte} {m : ℕ → Byte} {junk : ℕ → ℕ → Wchar}

section Shift

variable {s s' : State} {n : BitVec 16} {k file : ℕ} {E : Panic → Prop}

structure Shifted (s : State) (file : ℕ) (s' : State) : Prop where
  disk : s'.disk = s.disk
  free : s'.freeList = s.freeList
  ref (j : ℕ) : ∃ r, s'.dirents j = (s.dirents j).setRef r
  other {j : ℕ} : j ≠ file → ¬ Above s.par file j → s'.dirents j = s.dirents j

lemma Shifted.par (h : Shifted s file s') : s'.par = s.par := by
  funext j
  obtain ⟨r, hr⟩ := h.ref j
  rw [State.par, State.par, hr]
  rfl

lemma wp_shiftPath (hw : Within s.par k file) : wp (shiftPath n k file)
      (fun _ s' => Shifted s file s' ∧ (s'.dirents file).refcnt = (s.dirents file).refcnt + n) E s := by
  induction k generalizing s file with
  | zero => nomatch hw
  | succ k ih =>
    obtain ⟨e1, he1⟩ : ∃ e1, e1 = (s.dirents file).setRef ((s.dirents file).refcnt + n) := ⟨_, rfl⟩
    obtain ⟨s1, hs1⟩ : ∃ s1, s1 = s.filed file s.disk e1 s.pages := ⟨_, rfl⟩
    have hself : s1.dirents file = e1 := hs1 ▸ dirents_filed_self ..
    have hne {j : ℕ} (hj : j ≠ file) : s1.dirents j = s.dirents j := hs1 ▸ dirents_filed_ne _ hj
    have h1 : Shifted s file s1 := by
      refine ⟨hs1 ▸ rfl, hs1 ▸ rfl, fun j => ?_, fun hj _ => hne hj⟩
      by_cases hj : j = file
      · exact ⟨_, by rw [hj, hself, he1]⟩
      · exact ⟨(s.dirents j).refcnt, hne hj⟩
    rw [shiftPath, wp_bind, wp_modifyDirent, update_eq_filed, ← he1, ← hs1, wp_bind, wp_getDirent, hself]
    cases hp : e1.parentDirent with
    | none =>
      refine wp_pure.mpr ⟨h1, ?_⟩
      rw [hself, he1]
      rfl
    | some p =>
      have hp' : s.par file = some p := by
        rw [State.par, ← hp, he1]
        rfl
      refine wp_mono (ih (h1.par ▸ hw.up hp')) fun _ s' h => ?_
      obtain ⟨h, -⟩ := h
      have hfp : file ≠ p := fun hc => hw.not_above (.single (hc ▸ hp'))
      have hnot : ¬ Above s1.par p file := fun hc => hw.not_above (.head hp' (h1.par ▸ hc))
      refine ⟨⟨h.disk.trans h1.disk, h.free.trans h1.free, fun j => ?_, fun {j} hj ha => ?_⟩, ?_⟩
      · obtain ⟨r, hr⟩ := h.ref j
        obtain ⟨r1, hr1⟩ := h1.ref j
        rw [hr1] at hr
        exact ⟨r, hr⟩
      · have hjp : j ≠ p := fun hc => ha (.single (hc ▸ hp'))
        rw [h.other hjp fun hc => ha (.head hp' (h1.par ▸ hc)), hne hj]
      · rw [h.other hfp hnot, hself, he1]
        rfl

end Shift

structure Dirent.Same (e e' : Dirent) : Prop where
  firstClus : e'.firstClus = e.firstClus
  fileSize : e'.fileSize = e.fileSize
  pointer : e'.pointer = e.pointer

section Relabel

variable {f : Super} {ready : ℕ → Prop} {s s' : State} {v : View} {own : ℕ → List ℕ}

lemma Files.relabel (h : Files f ready s v own) (hd : s'.disk = s.disk) (hs : ∀ j, (s.dirents j).Same (s'.dirents j))
    (hp : ∀ j p, (s'.dirents j).parentDirent = some p → ready p ∧
      (s'.dirents j).parentDirOff + direntSize + f.clusSize ≤ 2 ^ 32) :
    Files f ready s' v own := by
  refine ⟨hd ▸ h.shows, fun j => ?_, h.apart, fun j hj => ?_, h.small, fun hpj => hp _ _ hpj⟩
  · have ho := h.owns j
    refine ⟨?_, ?_, ?_, ?_⟩
    · rw [(hs j).firstClus]
      exact ho.toLinked
    · rw [(hs j).fileSize]
      exact ho.empty
    · rw [(hs j).fileSize]
      exact ho.size
    · rw [(hs j).fileSize]
      exact ho.lt
  · rw [(hs j).pointer, (hs j).fileSize]
    exact h.mirror j hj

lemma files_relabel {j : ℕ} (hs : (s.dirents j).Same (s'.dirents j)) : files f s' v own j = files f s v own j := by
  rw [files, files, afile, afile, hs.fileSize]

end Relabel

structure Moved (f : Super) (ready : ℕ → Prop) (s : State) (v : View) (own : ℕ → List ℕ) (dir : ℕ) (N : ℕ → Prop)
    (s' : State) (v' : View) (own' : ℕ → List ℕ) : Prop where
  inv : Files f ready s' v' own'
  par : s'.par = s.par
  other {j : ℕ} : j ≠ dir → ¬ Above s.par dir j →
    (¬ N j → s'.dirents j = s.dirents j) ∧ own' j = own j ∧ files f s' v' own' j = files f s v own j

namespace Moved

variable {f : Super} {ready : ℕ → Prop} {s s1 s' : State} {v v1 v' : View} {own own1 own' : ℕ → List ℕ} {dir : ℕ}
  {N : ℕ → Prop}

lemma trans (h : Moved f ready s v own dir N s1 v1 own1) (h' : Moved f ready s1 v1 own1 dir N s' v' own') :
    Moved f ready s v own dir N s' v' own' := by
  refine ⟨h'.inv, h'.par.trans h.par, fun {j} hj ha => ?_⟩
  obtain ⟨hd, ho, hf⟩ := h.other hj ha
  obtain ⟨hd', ho', hf'⟩ := h'.other hj (by rwa [h.par])
  exact ⟨fun hn => (hd' hn).trans (hd hn), ho'.trans ho, hf'.trans hf⟩

lemma mono {N' : ℕ → Prop} (h : Moved f ready s v own dir N s' v' own') (hN : ∀ j, N j → N' j) :
    Moved f ready s v own dir N' s' v' own' :=
  ⟨h.inv, h.par, fun hj ha => ⟨fun hn => (h.other hj ha).1 (mt (hN _) hn), (h.other hj ha).2⟩⟩

lemma of_synced {a : AFile} (h : Synced f ready s v own dir a s' v' own') : Moved f ready s v own dir N s' v' own' := by
  refine ⟨h.inv, h.par, fun hj ha => ?_⟩
  obtain ⟨hd, ho, hfl⟩ := h.other hj ha
  exact ⟨fun _ => hd, ho, hfl⟩

section

variable (h : Files f ready s v own)
include h

lemma relabel (hd : s'.disk = s.disk) (hs : ∀ j, (s.dirents j).Same (s'.dirents j))
    (hp : s'.par = s.par) (ho : ∀ j p, s.par j = some p → (s'.dirents j).parentDirOff = (s.dirents j).parentDirOff)
    (hn : ∀ j, ¬ N j → j ≠ dir → ¬ Above s.par dir j → s'.dirents j = s.dirents j) :
    Moved f ready s v own dir N s' v own := by
  refine ⟨h.relabel hd hs fun j p hpj => ?_, hp, fun {j} hj ha => ?_⟩
  · have hpj' : s.par j = some p := hp ▸ hpj
    rw [ho j p hpj']
    exact h.parent hpj'
  · exact ⟨fun hnj => hn j hnj hj ha, rfl, files_relabel (hs j)⟩

lemma of_shifted (hs : Shifted s dir s') : Moved f ready s v own dir N s' v own := by
  have hsame (j : ℕ) : (s.dirents j).Same (s'.dirents j) ∧ (s'.dirents j).parentDirOff =
    (s.dirents j).parentDirOff := by
    obtain ⟨r, hr⟩ := hs.ref j
    rw [hr]
    exact ⟨⟨rfl, rfl, rfl⟩, rfl⟩
  exact relabel h hs.disk (fun j => (hsame j).1) hs.par (fun j _ _ => (hsame j).2)
    fun j _ hj ha => hs.other hj ha

lemma of_dirents (hd : s'.disk = s.disk) (hs : s'.dirents = s.dirents) :
    Moved f ready s v own dir N s' v own := by
  refine relabel h hd (fun j => ?_) ?_ (fun j _ _ => by rw [hs]) fun j _ _ _ => by rw [hs]
  · rw [hs]
    exact ⟨rfl, rfl, rfl⟩
  · funext j
    rw [State.par, State.par, hs]

lemma of_new {i : ℕ} {e : Dirent} (hi : N i) (hs : (s.dirents i).Same e)
    (hp : (s.dirents i).parentDirent = none) (hp' : e.parentDirent = none) :
    Moved f ready s v own dir N (s.filed i s.disk e s.pages) v own := by
  have hne {j : ℕ} (hj : j ≠ i) : (s.filed i s.disk e s.pages).dirents j = s.dirents j := dirents_filed_ne _ hj
  refine relabel h rfl (fun j => ?_) ?_ (fun j p hpj => ?_) fun j hj _ _ => ?_
  · by_cases hj : j = i
    · rw [hj, dirents_filed_self]
      exact hs
    · rw [hne hj]
      exact ⟨rfl, rfl, rfl⟩
  · funext j
    rw [State.par, State.par]
    by_cases hj : j = i
    · rw [hj, dirents_filed_self, hp, hp']
    · rw [hne hj]
  · by_cases hj : j = i
    · rw [hj, State.par, hp] at hpj
      cases hpj
    · rw [hne hj]
  · have hji : j ≠ i := fun hc => hj (hc ▸ hi)
    rw [hne hji]

end

end Moved

def Lacks (p : Panic) : Prop := p = .noDirent ∨ p = .outOfTable ∨ Full p

lemma Halts.lacks {f : Super} {s : State} {n : ℕ} {p : Panic} (h : Halts f s n p) : Lacks p :=
  h.elim (fun h => .inr (.inr h)) fun h => .inr (.inl h.1)

structure FreeRun (m : ℕ → Byte) (size cnt q : ℕ) : Prop where
  slot : q % direntSize = 0
  inside : q + cnt * direntSize ≤ size
  free {i : ℕ} : i < cnt → m (q + i * direntSize) = 0

def FirstFree (m : ℕ → Byte) (size cnt start : ℕ) : Prop :=
  (FreeRun m size cnt start ∧ ∀ q < start, ¬ FreeRun m size cnt q) ∨ start = size ∧ ∀ q, ¬ FreeRun m size cnt q

def dark (n : ℕ) : List Byte := (replicate n darkEntry).flatten

lemma dark_succ (n : ℕ) : dark (n + 1) = darkEntry ++ dark n := rfl

@[simp] lemma length_dark (n : ℕ) : (dark n).length = n * direntSize := by
  induction n with
  | zero => rfl
  | succ n ih =>
    rw [dark_succ, length_append, ih, Nat.succ_mul, add_comm]
    rfl

section Slots

variable {f : Super} {ready : ℕ → Prop} {s : State} {v : View} {own : ℕ → List ℕ} {dir cnt k off n size : ℕ}
  {l : List ℕ} {E : Panic → Prop}

structure Streak (m : ℕ → Byte) (size cnt off curN : ℕ) : Prop where
  slot : off % direntSize = 0
  le : curN * direntSize ≤ off
  lt : curN < cnt
  free {i : ℕ} : i < curN → m (off - curN * direntSize + i * direntSize) = 0
  first {q : ℕ} : FreeRun m size cnt q → off - curN * direntSize ≤ q

lemma Streak.zero (hc : 1 ≤ cnt) : Streak m size cnt 0 0 :=
  ⟨rfl, le_refl _, hc, nofun, fun _ => zero_le _⟩

lemma Streak.succ (h : Streak m size cnt off curN) (h0 : m off = 0) (hne : curN + 1 ≠ cnt) :
    Streak m size cnt (off + direntSize) (curN + 1) := by
  have hd : direntSize = 32 := rfl
  have hslot := h.slot
  have hle := h.le
  have hlt := h.lt
  have heq : off + direntSize - (curN + 1) * direntSize = off - curN * direntSize := by
    rw [hd] at hle ⊢
    omega
  refine ⟨by rw [add_mod_right, hslot], by rw [hd] at hle ⊢; omega, by omega, fun {i} hi => ?_, fun hq => ?_⟩
  · rw [heq]
    obtain hi | rfl := Nat.lt_succ_iff_lt_or_eq.mp hi
    · exact h.free hi
    · rwa [Nat.sub_add_cancel hle]
  · rw [heq]
    exact h.first hq

lemma Streak.run (h : Streak m size cnt off curN) (h0 : m off = 0) (he : curN + 1 = cnt)
    (hs : off + direntSize ≤ size) : FirstFree m size cnt (off - (cnt - 1) * direntSize) := by
  have hd : direntSize = 32 := rfl
  have hslot := h.slot
  have hle := h.le
  have hcur : cnt - 1 = curN := by omega
  rw [hcur]
  refine .inl ⟨⟨?_, ?_, fun {i} hi => ?_⟩, fun q hq hrun => not_le.mpr hq (h.first hrun)⟩
  · rw [hd] at hslot hle ⊢
    omega
  · rw [← he]
    rw [hd] at hle hs ⊢
    omega
  · obtain hi | rfl : i < curN ∨ i = curN := by omega
    · exact h.free hi
    · rwa [Nat.sub_add_cancel hle]

lemma Streak.reset (h : Streak m size cnt off curN) (h0 : m off ≠ 0) : Streak m size cnt (off + direntSize) 0 := by
  have hd : direntSize = 32 := rfl
  have hslot := h.slot
  have hle := h.le
  have hlt := h.lt
  refine ⟨by rw [add_mod_right, hslot], by rw [zero_mul]; exact zero_le _, by omega, nofun, fun {q} hq => ?_⟩
  have hfirst := h.first hq
  have hqs := hq.slot
  by_contra hlt'
  have hi : (off - q) / 32 < cnt := by
    rw [hd] at hfirst hle
    omega
  refine h0 ?_
  have := hq.free hi
  rwa [show q + (off - q) / 32 * direntSize = off by rw [hd] at hslot hqs hlt' ⊢; omega] at this

lemma Streak.last (h : Streak m size cnt size curN) (q : ℕ) : ¬ FreeRun m size cnt q := by
  intro hq
  have hfirst := h.first hq
  have hin := hq.inside
  have hlt := h.lt
  have hle := h.le
  have hd : direntSize = 32 := rfl
  rw [hd] at hfirst hin hle
  omega

lemma wp_findSlots (hf : Consistent f) (h : Opened f s v dir l)
    (hk : off + k * direntSize = (s.dirents dir).fileSize)
    (hst : Streak (content f v l) (s.dirents dir).fileSize cnt off curN) :
    wp (findSlots f dir cnt k off curN)
      (fun found s' => s' = s ∧
        FirstFree (content f v l) (s.dirents dir).fileSize cnt (slotStart (s.dirents dir).fileSize cnt found)) E s := by
  induction k generalizing off curN with
  | zero =>
    obtain rfl : off = (s.dirents dir).fileSize := by omega
    exact wp_pure.mpr ⟨rfl, .inr ⟨rfl, hst.last⟩⟩
  | succ k ih =>
    have hlt := h.owns.lt
    have hpos := hf.clusSize_pos
    rw [Nat.succ_mul] at hk
    rw [findSlots, wp_bind]
    refine wp_mono (wp_readOpened hf h (by omega)) fun bytes s1 hb => ?_
    obtain ⟨rfl, rfl⟩ := hb
    have h0 : (slice (content f v l) off (min direntSize ((s1.dirents dir).fileSize - off))).getD 0 0 =
      content f v l off := by
      rw [min_eq_left (by omega)]
      rfl
    rw [h0]
    split_ifs with hz hc
    · exact wp_pure.mpr ⟨rfl, hst.run hz hc (by omega)⟩
    · exact ih (by omega) (hst.succ hz hc)
    · exact ih (by omega) (hst.reset hz)

lemma FirstFree.le (h : FirstFree m size cnt start) : start ≤ size := by
  obtain ⟨h, -⟩ | ⟨rfl, -⟩ := h
  · exact le_trans (le_add_right _ _) h.inside
  · exact le_refl _

lemma wp_darken (hf : Consistent f) (h : Files f ready s v own) (hw : Within s.par maxDirent dir) (hr : ready dir)
    (hle : off ≤ (s.dirents dir).fileSize) (hn : off + n * direntSize + f.clusSize ≤ 2 ^ 32) :
    wp (darken f dir n off)
      (fun _ s' => ∃ v' own', Moved f ready s v own dir (fun _ => False) s' v' own' ∧ s'.freeList = s.freeList ∧
        (files f s v own dir).Stores off (dark n) (files f s' v' own' dir)) Lacks s := by
  induction n generalizing s v own off with
  | zero => exact wp_pure.mpr ⟨v, own, .of_dirents h rfl rfl, rfl, .nil hle⟩
  | succ n ih =>
    rw [Nat.succ_mul] at hn
    have hlen : darkEntry.length = direntSize := rfl
    rw [darken, wp_bind]
    refine wp_mono (wp_mono_error (wp_fileWrite hf h hw hr nofun (by rw [hlen]; omega)) fun _ => Halts.lacks)
      fun _ s1 h1 => ?_
    obtain ⟨v1, own1, h1⟩ := h1
    have hst : (files f s v own dir).Stores off darkEntry (files f s1 v1 own1 dir) := h1.self ▸ .write hf
    have hle1 : off + direntSize ≤ (s1.dirents dir).fileSize := by
      rw [← size_files f s1 v1 own1, hst.size]
      exact le_max_right _ _
    refine wp_mono (ih h1.inv (by rwa [par_eq h1.rest]) hle1 (by omega)) fun _ s' h' => ?_
    obtain ⟨v', own', h', hfree, hst'⟩ := h'
    exact ⟨v', own', (Moved.of_synced h1).trans h', hfree.trans h1.free, hst.append hst'⟩

def longEntry (junk : ℕ → ℕ → Wchar) (i : ℕ) (name : List Byte) : List Byte :=
  slice (update (fillLongEntry (junk i) name).1 0 (if i = 1 then lastLongEntry else BitVec.ofNat 8 i)) 0 direntSize

def longEntries (junk : ℕ → ℕ → Wchar) : ℕ → ℕ → List Byte → List (List Byte)
  | 0, _, _ => []
  | k + 1, i, name =>
    match (fillLongEntry (junk i) name).2 with
    | none => [longEntry junk i name]
    | some rest => longEntries junk k (i + 1) rest ++ [longEntry junk i name]

@[simp] lemma length_longEntry {i : ℕ} : (longEntry junk i name).length = direntSize := length_slice ..

lemma length_longEntries_le {i : ℕ} : (longEntries junk k i name).length ≤ k := by
  induction k generalizing i name with
  | zero => exact le_refl _
  | succ k ih =>
    rw [longEntries]
    split
    · exact le_add_left 1 k
    · next rest _ =>
      rw [length_append]
      exact succ_le_succ ih

lemma length_longEntries_flatten {i : ℕ} :
    (longEntries junk k i name).flatten.length = (longEntries junk k i name).length * direntSize := by
  induction k generalizing i name with
  | zero => rfl
  | succ k ih =>
    rw [longEntries]
    split
    · rfl
    · next rest _ =>
      rw [flatten_append, length_append, ih, length_append, length_singleton, Nat.succ_mul,
        flatten_singleton, length_longEntry]

lemma wp_writeLong {i : ℕ} (hf : Consistent f) (h : Files f ready s v own)
    (hw : Within s.par maxDirent dir) (hr : ready dir) (hn : (i + k) * direntSize ≤ off + direntSize)
    (hi : 1 ≤ i) (ho : off + direntSize + f.clusSize ≤ 2 ^ 32) (hk : k = 0 →
      off + direntSize ≤ (s.dirents dir).fileSize + i * direntSize) :
    wp (writeLong f junk dir off k i name)
      (fun _ s' => ∃ v' own', Moved f ready s v own dir (fun _ => False) s' v' own' ∧ s'.freeList = s.freeList ∧
        (files f s v own dir).Stores (off + direntSize - (i + (longEntries junk k i name).length) * direntSize)
          (longEntries junk k i name).flatten (files f s' v' own' dir)) Lacks s := by
  have hd : direntSize = 32 := rfl
  induction k generalizing s v own i name with
  | zero =>
    refine wp_pure.mpr ⟨v, own, .of_dirents h rfl rfl, rfl, .nil ?_⟩
    have := hk rfl
    rw [size_files]
    exact Nat.sub_le_iff_le_add.mpr this
  | succ k ih =>
    have hio : i * direntSize ≤ off := by
      rw [hd] at hn ⊢
      omega
    have hslot : slotOff off i = off - i * direntSize := by
      rw [slotOff, u32, show off + 2 ^ 32 - i * direntSize = off - i * direntSize + 2 ^ 32 by omega, add_mod_right,
        mod_eq_of_lt (by omega)]
    rw [writeLong, wp_bind]
    refine wp_mono (wp_mono_error (wp_fileWrite hf h hw hr (fun hc => ?_) ?_) fun _ => Halts.lacks) fun _ s1 h1 => ?_
    · exact absurd (congrArg length hc) (by rw [length_slice]; decide)
    · rw [length_slice, hslot]
      omega
    · obtain ⟨v1, own1, h1⟩ := h1
      have hm : Moved f ready s v own dir (fun _ => False) s1 v1 own1 := .of_synced h1
      have hst : (files f s v own dir).Stores (off - i * direntSize) (longEntry junk i name)
        (files f s1 v1 own1 dir) := by
        rw [h1.self, hslot]
        exact .write hf
      rw [longEntries]
      cases (fillLongEntry (junk i) name).2 with
      | none =>
        refine wp_pure.mpr ⟨v1, own1, hm, h1.free, ?_⟩
        rw [length_singleton, Nat.succ_mul, Nat.add_sub_add_right, flatten_singleton]
        exact hst
      | some rest =>
        have hsize1 : off - i * direntSize + direntSize ≤ (s1.dirents dir).fileSize := by
          rw [← size_files f s1 v1 own1, hst.size, length_longEntry]
          exact le_max_right _ _
        refine wp_mono (ih h1.inv (by rwa [par_eq h1.rest]) (by rwa [add_right_comm, add_assoc]) (by omega) ?_)
          fun _ s' h' => ?_
        · intro _
          rw [hd] at hsize1 hio ⊢
          omega
        · obtain ⟨v', own', h', hfree, hst'⟩ := h'
          refine ⟨v', own', hm.trans h', hfree.trans h1.free, ?_⟩
          have hlen : (longEntries junk k (i + 1) rest).length ≤ k := length_longEntries_le
          have hflat : (longEntries junk k (i + 1) rest).flatten.length =
              (longEntries junk k (i + 1) rest).length * direntSize := length_longEntries_flatten
          obtain ⟨n, hnlen⟩ : ∃ n, n = (longEntries junk k (i + 1) rest).length := ⟨_, rfl⟩
          rw [← hnlen] at hlen hflat hst'
          rw [length_append, length_singleton, ← hnlen, flatten_append, flatten_singleton]
          have hstart : off + direntSize - (i + (n + 1)) * direntSize =
            off + direntSize - (i + 1 + n) * direntSize := by
            rw [add_right_comm, add_assoc]
          rw [hstart]
          refine AFile.Stores.prepend ?_ hst'
          rw [hflat]
          rwa [show off + direntSize - (i + 1 + n) * direntSize + n * direntSize = off - i * direntSize by
            rw [hd] at hn ⊢; omega]

def newDirentAt (off : ℕ) : Dirent := { Dirent.zero with parentDirOff := off }

lemma wp_direntAlloc_zero {Q : ℕ → State → Prop} (hz : ∀ i ∈ s.freeList, s.dirents i = .zero)
    (hQ : ∀ i rest, s.freeList = i :: rest → Q i { s with freeList := rest }) :
    wp direntAlloc Q Lacks s := by
  refine wp_direntAlloc.mpr ⟨fun i rest hi => ?_, fun _ => .inl rfl⟩
  have hself : update s.dirents i .zero = s.dirents := by
    rw [← hz i (hi ▸ mem_cons_self), update_eq_self]
  rw [hself]
  exact hQ i rest hi

structure Spare (s : State) (dir : ℕ) : Prop where
  zero (i : ℕ) : i ∈ s.freeList → s.dirents i = .zero
  ne {i : ℕ} : i ∈ s.freeList → i ≠ dir
  below {i : ℕ} : i ∈ s.freeList → ¬ Above s.par dir i

lemma Spare.moved {s' : State} {v' : View} {own' : ℕ → List ℕ} (h : Spare s dir)
    (hm : Moved f ready s v own dir (fun _ => False) s' v' own') (hs : ∀ i ∈ s'.freeList, i ∈ s.freeList) :
    Spare s' dir := by
  refine ⟨fun i hi => ?_, fun hi => h.ne (hs _ hi), fun {i} hi => ?_⟩
  · rw [(hm.other (h.ne (hs i hi)) (h.below (hs i hi))).1 id, h.zero i (hs i hi)]
  · rw [hm.par]
    exact h.below (hs i hi)

lemma entryOff_le {size : ℕ} (hc : 1 ≤ cnt) (hle : start ≤ size)
    (hs : size + 2 * cnt * direntSize + f.clusSize ≤ 2 ^ 32) :
    start + cnt * direntSize + f.clusSize ≤ 2 ^ 32 ∧ entryOff start cnt + direntSize + f.clusSize ≤ 2 ^ 32 := by
  have hd : direntSize = 32 := rfl
  rw [hd] at hs
  rw [entryOff, hd]
  omega

lemma files_of_dirents {s' : State} (h : s'.dirents dir = s.dirents dir) :
    files f s' v own dir = files f s v own dir := by
  rw [files, files, h]

lemma wp_dirAllocEntry (hf : Consistent f) (h : Files f ready s v own) (hw : Within s.par maxDirent dir)
    (hr : ready dir)
    (hspare : Spare s dir) (hmod : (s.dirents dir).fileSize % direntSize = 0) (hcnt : 1 ≤ cnt)
    (hsize : (s.dirents dir).fileSize + 2 * cnt * direntSize + f.clusSize ≤ 2 ^ 32) :
    wp (dirAllocEntry f dir cnt)
      (fun i s' => ∃ v' own' start, s.freeList = i :: s'.freeList ∧ Moved f ready s v own dir (· = i) s' v' own' ∧
        s'.dirents i = newDirentAt (entryOff start cnt) ∧
        FirstFree (content f v (own dir)) (s.dirents dir).fileSize cnt start ∧
        (files f s v own dir).Stores start (dark cnt) (files f s' v' own' dir)) Lacks s := by
  have hd : direntSize = 32 := rfl
  rw [dirAllocEntry, wp_bind, wp_check]
  refine ⟨fun _ => ?_, fun hc => absurd hcnt hc⟩
  rw [wp_bind, wp_getDirent, wp_bind]
  have hk : 0 + ((s.dirents dir).fileSize + direntSize - 1) / direntSize * direntSize = (s.dirents dir).fileSize := by
    rw [hd] at hmod ⊢
    omega
  refine wp_mono (wp_findSlots hf (h.opened hr) hk (.zero hcnt)) fun found s0 hfound => ?_
  obtain ⟨rfl, hfound⟩ := hfound
  rw [wp_bind, wp_check]
  refine ⟨fun _ => ?_, fun hc => absurd hmod hc⟩
  obtain ⟨start, hstart⟩ : ∃ start, start = slotStart (s0.dirents dir).fileSize cnt found := ⟨_, rfl⟩
  rw [← hstart] at hfound ⊢
  obtain ⟨hdark, hoff⟩ := entryOff_le hcnt hfound.le hsize
  rw [wp_bind]
  refine wp_mono (wp_darken hf h hw hr hfound.le hdark) fun _ s1 h1 => ?_
  obtain ⟨v1, own1, h1, hfree1, hst⟩ := h1
  have hspare1 := hspare.moved h1 fun i hi => hfree1 ▸ hi
  rw [wp_bind]
  refine wp_direntAlloc_zero hspare1.zero fun i rest hi => ?_
  have hmem : i ∈ s1.freeList := hi ▸ mem_cons_self
  have hzero := hspare1.zero i hmem
  obtain ⟨s2, hs2⟩ : ∃ s2 : State, s2 = { s1 with freeList := rest } := ⟨_, rfl⟩
  have hdir2 : s2.dirents = s1.dirents := hs2 ▸ rfl
  have h2 : Moved f ready s1 v1 own1 dir (· = i) s2 v1 own1 := .of_dirents h1.inv (hs2 ▸ rfl) hdir2
  rw [← hs2, wp_bind, wp_modifyDirent, wp_pure, update_eq_filed, hdir2, hzero]
  have h3 : Moved f ready s2 v1 own1 dir (· = i)
      (s2.filed i s2.disk (newDirentAt (entryOff start cnt)) s2.pages) v1 own1 := by
    refine .of_new h2.inv rfl ?_ ?_ rfl
    · rw [hdir2, hzero]
      exact ⟨rfl, rfl, rfl⟩
    · rw [hdir2, hzero]
      rfl
  refine ⟨v1, own1, start, ?_, (h1.mono fun _ => False.elim).trans (h2.trans h3), dirents_filed_self .., hfound, ?_⟩
  · rw [freeList_filed, hs2, ← hi, hfree1]
  · have hdir3 : (s2.filed i s2.disk (newDirentAt (entryOff start cnt)) s2.pages).dirents dir = s1.dirents dir := by
      rw [dirents_filed_ne _ (hspare1.ne hmem).symm, hdir2]
    rw [← files_of_dirents hdir3] at hst
    exact hst

def newFile (off : ℕ) (name : List Byte) : Dirent := (newDirentAt off).named name

lemma getEntryCountByName_eq (name : List Byte) :
    2 ≤ getEntryCountByName name ∧ 13 * (getEntryCountByName name - 2) < name.length + 1 ∧
      name.length + 1 ≤ 13 * (getEntryCountByName name - 1) := by
  rw [getEntryCountByName, bytesLongent]
  split_ifs <;> omega

lemma length_longEntries {i : ℕ} (h : 13 * (k - 1) < name.length + 1)
    (h' : name.length + 1 ≤ 13 * k) : (longEntries junk k i name).length = k := by
  induction k generalizing i name with
  | zero => omega
  | succ k ih =>
    rw [longEntries, fillLongEntry]
    split_ifs with h1 h2 h3
    · change 1 = k + 1
      omega
    · change 1 = k + 1
      omega
    · change 1 = k + 1
      omega
    · change (longEntries junk k (i + 1) (name.drop 13) ++ [longEntry junk i name]).length = k + 1
      rw [length_append, length_singleton, ih]
      · rw [length_drop]
        omega
      · rw [length_drop]
        omega

def nameEntries (junk : ℕ → ℕ → Wchar) (name : List Byte) : List Byte :=
  (longEntries junk (getEntryCountByName name - 1) 1 name).flatten

lemma length_nameEntries : (nameEntries junk name).length = (getEntryCountByName name - 1) * direntSize := by
  obtain ⟨h2, hlt, hle⟩ := getEntryCountByName_eq name
  rw [nameEntries, length_longEntries_flatten, length_longEntries (by omega) hle]

lemma wp_dirAllocFile (hf : Consistent f) (h : Files f ready s v own)
    (hw : Within s.par maxDirent dir) (hr : ready dir) (hspare : Spare s dir)
    (hmod : (s.dirents dir).fileSize % direntSize = 0) (hcnt : cnt = getEntryCountByName name)
    (hsize : (s.dirents dir).fileSize + 2 * cnt * direntSize + f.clusSize ≤ 2 ^ 32) :
    wp (dirAllocFile f junk dir name)
      (fun i s' => ∃ x v' own' start, s.freeList = x :: i :: s'.freeList ∧
        Moved f ready s v own dir (· = i) s' v' own' ∧ s'.dirents i = newFile (entryOff start cnt) name ∧
        FirstFree (content f v (own dir)) (s.dirents dir).fileSize cnt start ∧
        (files f s v own dir).Stores start (dark cnt ++ nameEntries junk name) (files f s' v' own' dir)) Lacks s := by
  have hd : direntSize = 32 := rfl
  obtain ⟨htwo, hlt, hle⟩ := getEntryCountByName_eq name
  rw [← hcnt] at htwo hlt hle
  rw [dirAllocFile, wp_bind, ← hcnt]
  refine wp_direntAlloc_zero hspare.zero fun x rest hx => ?_
  obtain ⟨s1, hs1⟩ : ∃ s1 : State, s1 = { s with freeList := rest } := ⟨_, rfl⟩
  have hdir1 : s1.dirents = s.dirents := hs1 ▸ rfl
  have h1 : Moved f ready s v own dir (fun _ => False) s1 v own := .of_dirents h (hs1 ▸ rfl) hdir1
  have hspare1 : Spare s1 dir := hspare.moved h1 fun i hi => by
    rw [hs1] at hi
    rw [hx]
    exact mem_cons_of_mem _ hi
  rw [← hs1, wp_bind]
  refine wp_mono (wp_dirAllocEntry hf h1.inv (by rwa [h1.par]) hr hspare1 (by rwa [hdir1]) (by omega) (by rwa [hdir1]))
    fun i s2 h2 => ?_
  obtain ⟨v2, own2, start, hfree2, h2, hdir2, hfirst, hst2⟩ := h2
  rw [hdir1] at hfirst
  rw [files_of_dirents (s := s) (by rw [hdir1])] at hst2
  obtain ⟨-, hoff⟩ := entryOff_le (by omega : 1 ≤ cnt) hfirst.le hsize
  have hmem : i ∈ s1.freeList := hfree2 ▸ mem_cons_self
  obtain ⟨s3, hs3⟩ : ∃ s3, s3 = s2.filed i s2.disk (newFile (entryOff start cnt) name) s2.pages := ⟨_, rfl⟩
  have hdir3 : s3.dirents i = newFile (entryOff start cnt) name := hs3 ▸ dirents_filed_self ..
  have hdirne3 : s3.dirents dir = s2.dirents dir := hs3 ▸ dirents_filed_ne _ (hspare1.ne hmem).symm
  have h3 : Moved f ready s2 v2 own2 dir (· = i) s3 v2 own2 := by
    rw [hs3]
    refine .of_new h2.inv rfl ?_ ?_ rfl
    · rw [hdir2]
      exact ⟨rfl, rfl, rfl⟩
    · rw [hdir2]
      rfl
  have h13 := (h1.mono fun _ => False.elim).trans (h2.trans h3)
  have hnamed : (newDirentAt (entryOff start cnt)).named name = newFile (entryOff start cnt) name := rfl
  have hplace : (newFile (entryOff start cnt) name).parentDirOff = entryOff start cnt := rfl
  have hentry : entryOff start cnt + direntSize = start + 2 * cnt * direntSize := by
    rw [entryOff, hd]
    omega
  rw [wp_bind, wp_modifyDirent, update_eq_filed, hdir2, hnamed, ← hs3, wp_bind, wp_getDirent, hdir3, hplace, wp_bind]
  refine wp_mono (wp_writeLong hf h13.inv (by rwa [h13.par]) hr ?_ (le_refl 1) hoff (fun _ => by omega))
    fun _ s4 h4 => ?_
  · rw [hentry, hd]
    omega
  · obtain ⟨v4, own4, h4, hfree4, hst4⟩ := h4
    refine wp_pure.mpr ⟨x, v4, own4, start, ?_, h13.trans (h4.mono fun _ => False.elim), ?_, hfirst, hst2.append ?_⟩
    · rw [hx, hfree4, hs3, freeList_filed, ← hfree2, hs1]
    · have hna : ¬ Above s3.par dir i := by
        rw [h3.par, h2.par]
        exact hspare1.below hmem
      rw [(h4.other (hspare1.ne hmem) hna).1 id, hdir3]
    · rw [length_longEntries (by omega) hle, files_of_dirents hdirne3] at hst4
      rw [length_dark, nameEntries, ← hcnt]
      rwa [show entryOff start cnt + direntSize - (1 + (cnt - 1)) * direntSize = start + cnt * direntSize by
        rw [hentry, hd]; omega] at hst4

end Slots

def Dirent.label (e : Dirent) : Dirent := { e.rest with raw := fun _ => 0, pointer := .zero }

def newRaw (isDir : Bool) (raw : ℕ → Byte) : ℕ → Byte := if isDir then update raw 11 attrDirectory else raw

def newContent (f : Super) (isDir : Bool) : AFile := if isDir then ⟨f.clusSize, 1, fun _ => 0⟩ else ⟨0, 0, fun _ => 0⟩

section Make

variable {f : Super} {ready : ℕ → Prop} {s : State} {v : View} {own : ℕ → List ℕ} {i : ℕ} {isDir : Bool}

structure Made (f : Super) (ready : ℕ → Prop) (s : State) (v : View) (own : ℕ → List ℕ) (i : ℕ) (isDir : Bool)
    (s' : State) (v' : View) (l' : List ℕ) : Prop where
  inv : Files f (fun j => ready j ∨ j = i) s' v' (update own i l')
  eq : ∃ e' d' n, s' = s.filed i d' e' n ∧ e'.label = (s.dirents i).label ∧ e'.raw = newRaw isDir (s.dirents i).raw ∧
    afile f v' e' l' = newContent f isDir
  toLocal : Local v (own i) v' l'

lemma cls_clusSize (hf : Consistent f) : cls f f.clusSize = 1 := by
  have := hf.clusSize_pos
  exact le_antisymm ((cls_le hf).mpr (by omega)) (cls_pos hf this)

lemma wp_firstDirCluster (hf : Consistent f) (h : Files f ready s v own) (hi : ¬ ready i)
    (h0 : (s.dirents i).fileSize = 0) (hv : (s.dirents i).pointer.valid = false) :
    wp (do
      firstDirCluster f isDir i
      filepntInit f i) (fun _ s' => ∃ v' l', Made f ready s v own i isDir s' v' l') Lacks s := by
  have ho := h.owns i
  have hnil : own i = [] := ho.empty.mpr h0
  have hopen {e' : Dirent} {d' : Disk} {v' : View} {l' : List ℕ} (hs : Shows f d' v') (how : Owns f v' e' l')
      (hloc : Local v (own i) v' l') (hl : e'.label = (s.dirents i).label)
      (hraw : e'.raw = newRaw isDir (s.dirents i).raw) (hval : e'.pointer.valid = false)
      (ha : afile f v' e' l' = newContent f isDir) :
      wp (filepntInit f i) (fun _ s' => ∃ v' l', Made f ready s v own i isDir s' v' l') Lacks
        (s.filed i d' e' s.pages) := by
    have hp : e'.label.parentDirent = (s.dirents i).label.parentDirent := by rw [hl]
    have hoff : e'.label.parentDirOff = (s.dirents i).label.parentDirOff := by rw [hl]
    change e'.parentDirent = (s.dirents i).parentDirent at hp
    change e'.parentDirOff = (s.dirents i).parentDirOff at hoff
    have hset := h.set (n := s.pages) hf hs how (fun hr => absurd hr hi) (fun hr => absurd hr hi) hloc fun p hpp => by
      rw [hoff]
      exact h.parent (hp ▸ hpp)
    have hself : ((s.filed i d' e' s.pages).dirents i).pointer.valid = true → ready i := by
      rw [dirents_filed_self, hval]
      exact nofun
    have hlacks (p : Panic) (hp : p = .noPage ∨ p = .outOfTable ∧ tableSize < (update own i l' i).length) :
        Lacks p := hp.elim (fun hp => .inr (.inr (.inr hp))) fun hp => .inr (.inl hp.1)
    refine wp_mono (wp_mono_error (wp_filepntInit hf hset hself) hlacks) fun _ s' h' => ?_
    obtain ⟨p, n, heq⟩ := h'.eq
    rw [dirents_filed_self, filed_filed] at heq
    exact ⟨v', l', h'.inv, ⟨_, _, _, heq, hl, hraw, ha⟩, hloc⟩
  rw [wp_bind, firstDirCluster]
  cases isDir with
  | true =>
    rw [if_pos rfl, wp_bind]
    refine wp_clusterAlloc hf h.shows (.inl rfl) (fun c d' hc hfree _ h' => ?_) (.inr (.inr (.inl rfl)))
    obtain ⟨hl, hg⟩ := Linked.start hf hc hfree
    have hx : Extends f v (own i) (cls f (s.dirents i).fileSize) f.clusSize (v.alloc 0 c) [c] := by
      rw [hnil, h0, cls_zero hf]
      exact .grown (by rw [zero_mul]; exact hf.clusSize_pos) hg (cls_clusSize hf).symm
    have hpos := hf.clusSize_pos
    have hlt := hf.clusSize_lt
    rw [wp_modifyDirent, update_eq_filed, disk_onDisk, dirents_onDisk, filed_onDisk]
    refine hopen h' ⟨hl, iff_of_false nofun (ne_of_gt hpos), ?_, ?_⟩ hx.toLocal rfl rfl hv ?_
    · exact le_of_eq (one_mul _).symm
    · change f.clusSize + f.clusSize ≤ 2 ^ 32
      omega
    · rw [hx.afile_eq (fun c hc => ho.fat_ne_zero hf hc) rfl, AFile.extend, afile, h0, cls_zero hf, zero_mul,
        if_neg (not_le.mpr hpos), cls_clusSize hf]
      rfl
  | false =>
    rw [if_neg nofun, wp_modifyDirent, update_eq_filed]
    have how : Owns f v (((s.dirents i).setSize 0).setFirst 0) (own i) := by
      rw [hnil]
      refine ⟨⟨⟨fun c hc => absurd hc (not_mem_nil), nodup_nil⟩, fun h => absurd rfl h, fun _ => rfl⟩,
        iff_of_true rfl rfl, zero_le _, ?_⟩
      have := hf.clusSize_lt
      change 0 + f.clusSize ≤ 2 ^ 32
      omega
    refine hopen h.shows how .refl rfl rfl hv ?_
    rw [afile, hnil]
    rfl

end Make

end FarmOS.Fat

import FarmOS.Fat.File
import Mathlib.Order.Interval.Finset.Nat

/-! Mounting an image: the entries that `dirGetDentFrom` of `kern/fs/fat32/directory.c` finds in a directory, and the
tree that `fat32_init` builds from them. -/

namespace FarmOS.Fat

open Lib List Nat

abbrev Wchar := BitVec 16

def maxNameLen : ℕ := 128

def attrDirectory : Byte := 0x10

def attrLongNameMask : Byte := 0x0f

def lastLongEntry : Byte := 0x40

def invalidEntry : Byte := 0xe5

def dotName : List Byte := 46 :: replicate 10 32

def dotdotName : List Byte := 46 :: 46 :: replicate 9 32

def cstr {n : ℕ} (s : List (BitVec n)) : List (BitVec n) := s.takeWhile (· ≠ 0)

namespace Raw

variable (raw : ℕ → Byte)

def name : List Byte := slice raw 0 11

def attr : Byte := raw 11

def isDirectory : Bool := attr raw &&& attrDirectory ≠ 0

def firstClus : ℕ := leNat (slice raw 20 2) * 65536 + leNat (slice raw 26 2)

def fileSize : ℕ := leNat (slice raw 28 4)

def skipped : Bool := raw 0 = 0 ∨ raw 0 = invalidEntry ∨ name raw = dotName ∨ name raw = dotdotName

def wchars (bytes : List Byte) : List Wchar :=
  (range (bytes.length / 2)).map fun i => bytes.getD (2 * i + 1) 0 ++ bytes.getD (2 * i) 0

def longName : List Wchar := wchars (slice raw 1 10 ++ slice raw 14 12 ++ slice raw 28 4)

def tmpName (fullName : List Wchar) : List Byte :=
  if fullName ≠ [] then cstr (fullName.map (BitVec.setWidth 8)) else cstr (name raw)

end Raw

variable (f : Super) {clus : ℕ} {s : State}

def countLoop : ℕ → ℕ → M ℕ
  | 0, _ => throw .fuel
  | k + 1, clus =>
    if notEndCluster clus then do
      let nxt ← fatRead f clus
      let i ← countLoop k nxt
      pure (i + 1)
    else pure 0

def countClusters (k file : ℕ) : M ℕ := do
  let e ← getDirent file
  if e.firstClus = 0 then pure 0 else countLoop f k e.firstClus

def setDirSize (k file : ℕ) : M Unit := do
  let n ← countClusters f k file
  modifyDirent file fun e => e.setSize (u32 (n * f.clusSize))

def newDirent (k dir j : ℕ) (raw : ℕ → Byte) (fullName : List Wchar) : M ℕ := do
  let file ← direntAlloc
  modifyDirent file fun e =>
    { e with
      name := Raw.tmpName raw fullName
      raw := raw
      firstClus := Raw.firstClus raw
      fileSize := Raw.fileSize raw
      parentDirOff := j
      type := if Raw.isDirectory raw then .dir else .file
      parentDirent := some dir
      linkcnt := 1 }
  if Raw.isDirectory raw then do
    setDirSize f k file
    pure file
  else pure file

def dentLoop (k dir : ℕ) : ℕ → ℕ → List Wchar → M (Option (ℕ × ℕ))
  | 0, _, _ => pure none
  | n + 1, j, fullName => do
    let bytes ← fileRead f dir j direntSize
    let raw := fun i => bytes.getD i 0
    if Raw.skipped raw then dentLoop k dir n (j + direntSize) fullName
    else if Raw.attr raw = attrLongNameMask then do
      -- The buffer of the name is not checked to have room.
      check (fullName.length + 13 < maxNameLen) .nameOverrun
      dentLoop k dir n (j + direntSize) (cstr (Raw.longName raw ++ fullName))
    else do
      let file ← newDirent f k dir j raw fullName
      pure (some (file, j + direntSize))

def dirGetDentFrom (k dir offset : ℕ) : M (Option (ℕ × ℕ)) := do
  check (offset % direntSize = 0) .assertion
  let e ← getDirent dir
  dentLoop f k dir ((e.fileSize + direntSize - 1 - offset) / direntSize) offset []

def initDir (child : ℕ) : M Bool := do
  let e ← getDirent child
  if e.type = .dir then do
    filepntInit f child
    pure true
  else pure false

def addChild (parent child : ℕ) : M Unit :=
  modifyDirent parent fun e => { e with childList := child :: e.childList }

def buildLoop (k : ℕ) : ℕ → ℕ → ℕ → M Unit
  | 0, _, _ => throw .fuel
  | n + 1, parent, off => do
    match ← dirGetDentFrom f k parent off with
    | none => pure ()
    | some (child, off') => do
      let e ← getDirent child
      if e.name.take 11 = dotName ∨ e.name.take 11 = dotdotName then buildLoop k n parent off'
      else do
        addChild parent child
        if ← initDir f child then do
          buildLoop k n child 0
          buildLoop k n parent off'
        else buildLoop k n parent off'

def buildDirentTree (k parent : ℕ) : M Unit := do
  filepntInit f parent
  buildLoop f k k parent 0

def fat32Init (k : ℕ) : M ℕ := do
  let root ← direntAlloc
  modifyDirent root fun e =>
    { e with
      name := [47]
      raw := Function.update e.raw 11 attrDirectory
      firstClus := f.rootClus.toNat
      type := .dir
      linkcnt := 1 }
  setDirSize f k root
  buildDirentTree f k root
  pure root

def Links (d : Disk) (c c' : ℕ) : Prop := f.Valid c ∧ notEndCluster c = true ∧ f.fatEntry d 0 c = c'

def Acyclic (d : Disk) : Prop := ∀ c, ¬ Relation.TransGen (Links f d) c c

def Calm {α : Type} (d : Disk) (c : M α) : Prop :=
  ∀ s, s.disk = d → wp c (fun _ s' => s'.disk = d ∧ s'.freeList = s.freeList) (· ≠ .fuel) s

namespace Calm

variable {f} {α β : Type} {d : Disk} {c c' : M α} {g : α → M β} {a : α} {p : Panic} {file i v : ℕ}
  {off n : ℕ} {b : Prop}

lemma pure : Calm d (pure a : M α) := fun _ hs => wp_pure.mpr ⟨hs, rfl⟩

lemma throw (hp : p ≠ .fuel) : Calm d (throw p : M α) := fun _ _ => wp_throw.mpr hp

lemma bind (hc : Calm d c) (hg : ∀ a, Calm d (g a)) : Calm d (c >>= g) := fun s hs =>
  wp_seq (hc s hs) fun a s' h => wp_mono (hg a s' h.1) fun _ _ h' => ⟨h'.1, h'.2.trans h.2⟩

lemma ite [Decidable b] (hc : b → Calm d c) (hc' : ¬ b → Calm d c') : Calm d (if b then c else c') := by
  split
  · next h => exact hc h
  · next h => exact hc' h

lemma check [Decidable b] (hp : p ≠ .fuel) : Calm d (Fat.check b p) := ite (fun _ => pure) fun _ => throw hp

lemma getDirent : Calm d (getDirent file) := fun _ hs => wp_getDirent.mpr ⟨hs, rfl⟩

lemma modifyDirent {h : Dirent → Dirent} : Calm d (modifyDirent file h) := fun _ hs => wp_modifyDirent.mpr ⟨hs, rfl⟩

lemma disk {h : State → α} : Calm d (do let s ← get; Pure.pure (h s) : M α) := fun _ hs => by
  rw [wp_bind, wp_get, wp_pure]
  exact ⟨hs, rfl⟩

lemma kvmAllocIf [Decidable b] : Calm d (kvmAllocIf b) := fun _ hs =>
  wp_kvmAllocIf (fun _ => ⟨hs, rfl⟩) (by decide)

lemma fatRead : Calm d (fatRead f i) := bind (check nofun) fun _ => disk

lemma clusterRead : Calm d (clusterRead f i off n) := bind (check nofun) fun _ => disk

lemma filepntSetval : Calm d (filepntSetval file i v) :=
  bind getDirent fun _ => bind kvmAllocIf fun _ => bind (check nofun) fun _ => bind kvmAllocIf fun _ => modifyDirent

lemma filepntGetclusbyno : Calm d (filepntGetclusbyno file i) := by
  refine bind getDirent fun e => ?_
  dsimp only
  cases e.pointer.twice (i / pageNClusNo) with
  | none => exact throw (by decide)
  | some page => exact bind (check nofun) fun _ => pure

lemma bind_fails (hc : ∀ s : State, wp c (fun _ _ => False) (· ≠ .fuel) s) : Calm d (c >>= g) := fun s _ =>
  wp_seq (hc s) fun _ _ h => h.elim

lemma out_of_table (hi : tableSize ≤ i) : ¬ i / pageNClusNo < nDirentSecPointer + nThirdPointer :=
  not_lt.mpr ((le_div_iff_mul_le (by decide)).mpr hi)

lemma filepntSetval_fails (hi : tableSize ≤ i) (s : State) :
    wp (Fat.filepntSetval file i v) (fun _ _ => False) (· ≠ .fuel) s := by
  rw [Fat.filepntSetval, wp_bind, wp_getDirent]
  dsimp only
  rw [wp_bind]
  refine wp_kvmAllocIf (fun n => ?_) (by decide)
  rw [wp_bind, wp_check]
  exact ⟨fun h => absurd h (out_of_table hi), fun _ => by decide⟩

lemma filepntGetclusbyno_fails (hi : tableSize ≤ i) (s : State) :
    wp (Fat.filepntGetclusbyno file i) (fun _ _ => False) (· ≠ .fuel) s := by
  have ht : (s.dirents file).pointer.twice (i / pageNClusNo) = none := by
    have := out_of_table hi
    rw [Pointer.twice, if_neg (by omega), if_neg (by omega)]
  rw [Fat.filepntGetclusbyno, wp_bind, wp_getDirent]
  simp only [ht]
  exact wp_throw.mpr (by decide)

lemma initLoop {k clus : ℕ} (hk : 1 ≤ k) (hi : i + k = tableSize + 1) : Calm d (initLoop f file k i clus) := by
  induction k generalizing i clus with
  | zero => exact absurd hk (by decide)
  | succ k ih =>
    refine ite (fun _ => ?_) fun _ => pure
    obtain rfl | hk' := Nat.eq_zero_or_pos k
    · exact bind_fails (filepntSetval_fails (by omega))
    · exact bind filepntSetval fun _ => bind fatRead fun _ => ih hk' (by omega)

lemma filepntInit : Calm d (filepntInit f file) :=
  bind getDirent fun _ => ite (fun _ => pure) fun _ => bind (initLoop (by decide) (by omega)) fun _ => modifyDirent

lemma readRest {last n k len : ℕ} {dst : List Byte} (hk : 1 ≤ k) (hi : i + k = tableSize + 1) :
    Calm d (readRest f file last n k i len dst) := by
  induction k generalizing i len dst with
  | zero => exact absurd hk (by decide)
  | succ k ih =>
    refine ite (fun _ => ?_) fun _ => pure
    obtain rfl | hk' := Nat.eq_zero_or_pos k
    · exact bind_fails (filepntGetclusbyno_fails (by omega))
    · exact bind filepntGetclusbyno fun _ => bind clusterRead fun _ => ih hk' (by omega)

lemma readBytes : Calm d (readBytes f file off n) := by
  by_cases hi : tableSize ≤ off / f.clusSize
  · exact bind_fails (filepntGetclusbyno_fails hi)
  · exact bind filepntGetclusbyno fun _ => bind clusterRead fun _ => readRest (by omega) (by omega)

lemma fileRead : Calm d (fileRead f file off n) :=
  bind getDirent fun _ => ite (fun _ => pure) fun _ => readBytes

end Calm

section Count

variable {f} {d : Disk} {l : List ℕ}

lemma wp_countLoop {k clus : ℕ} (hs : s.disk = d) : wp (countLoop f k clus) (fun _ s' => s' = s)
      (fun p => p = .fuel → ∃ l : List ℕ, l.length = k ∧ (clus :: l).IsChain (Links f d)) s := by
  induction k generalizing clus with
  | zero => exact wp_throw.mpr fun _ => ⟨[], rfl, .singleton clus⟩
  | succ k ih =>
    rw [countLoop, wp_ite, wp_pure, fatRead, wp_bind, wp_bind, wp_check]
    refine ⟨fun hne => ⟨fun hv => ?_, fun _ h => absurd h (by decide)⟩, fun _ => rfl⟩
    rw [wp_bind, wp_get, wp_pure, wp_bind, hs]
    refine wp_mono_error (wp_mono ih fun i s' h => wp_pure.mpr h) fun p hp h => ?_
    obtain ⟨l, hl, hc⟩ := hp h
    exact ⟨_ :: l, by rw [length_cons, hl], .cons_cons ⟨hv, hne, rfl⟩ hc⟩

section

variable (ha : Acyclic f d)
include ha

lemma Acyclic.nodup (hl : l.IsChain (Links f d)) : l.Nodup := by
  have hp : l.Pairwise (Relation.TransGen (Links f d)) := (hl.imp fun _ _ h => .single h).pairwise
  refine List.Pairwise.imp (fun {a b} (h : Relation.TransGen (Links f d) a b) => ?_) hp
  rintro rfl
  exact ha a h

lemma Acyclic.length_le (hl : (clus :: l).IsChain (Links f d)) :
    l.length ≤ (f.dataClusCnt + 1).toNat := by
  have hv : ∀ c ∈ (clus :: l).dropLast, f.Valid c := by
    clear ha
    induction l generalizing clus with
    | nil => exact fun c hc => absurd hc (not_mem_nil)
    | cons c' l ih =>
      intro c hc
      rw [isChain_cons_cons] at hl
      obtain rfl | hc := mem_cons.mp hc
      · exact hl.1.1
      · exact ih hl.2 c hc
  have hn : (clus :: l).dropLast.Nodup := (ha.nodup hl).sublist (dropLast_sublist _)
  have hs : (clus :: l).dropLast.toFinset ⊆ Finset.Icc 2 (f.dataClusCnt + 1).toNat := fun c hc =>
    Finset.mem_Icc.mpr (hv c (mem_toFinset.mp hc))
  have hcard := Finset.card_le_card hs
  rw [toFinset_card_of_nodup hn, length_dropLast, length_cons, card_Icc] at hcard
  omega

lemma Calm.countLoop {k clus : ℕ} (hk : (f.dataClusCnt + 1).toNat < k) :
    Calm d (countLoop f k clus) := fun s hs => by
  refine wp_mono_error (wp_mono (wp_countLoop hs) fun _ s' h => ⟨h ▸ hs, h ▸ rfl⟩) fun p hp h => ?_
  obtain ⟨l, hl, hc⟩ := hp h
  have := ha.length_le hc
  omega

lemma Calm.countClusters {k file : ℕ} (hk : (f.dataClusCnt + 1).toNat < k) :
    Calm d (countClusters f k file) :=
  .bind .getDirent fun _ => .ite (fun _ => .pure) fun _ => .countLoop ha hk

lemma Calm.setDirSize {k file : ℕ} (hk : (f.dataClusCnt + 1).toNat < k) :
    Calm d (setDirSize f k file) :=
  .bind (.countClusters ha hk) fun _ => .modifyDirent

end

end Count

section Build

variable {f} {d : Disk} {k : ℕ}

def Takes (d : Disk) (s : State) (r : Option (ℕ × ℕ)) (s' : State) : Prop :=
  s'.disk = d ∧ if r = none then s'.freeList = s.freeList else s'.freeList.length < s.freeList.length

section

variable (ha : Acyclic f d) (hk : (f.dataClusCnt + 1).toNat < k) {fullName : List Wchar}
include ha hk

lemma wp_newDirent {dir j : ℕ} {raw : ℕ → Byte} (hs : s.disk = d) :
    wp (newDirent f k dir j raw fullName) (fun _ s' => s'.disk = d ∧ s'.freeList.length < s.freeList.length)
      (· ≠ .fuel) s := by
  rw [newDirent, wp_bind, wp_direntAlloc]
  refine ⟨fun i rest hi => ?_, fun _ => by decide⟩
  rw [wp_bind, wp_modifyDirent]
  have hlt : rest.length < s.freeList.length := by
    rw [hi]
    exact lt_succ_self _
  split_ifs
  · rw [wp_bind]
    refine wp_mono (Calm.setDirSize ha hk _ hs) fun _ s' h => wp_pure.mpr ⟨h.1, ?_⟩
    rw [h.2]
    exact hlt
  · exact wp_pure.mpr ⟨hs, hlt⟩

lemma wp_dentLoop {dir n j : ℕ} (hs : s.disk = d) : wp (dentLoop f k dir n j fullName) (Takes d s) (· ≠ .fuel) s := by
  induction n generalizing j fullName s with
  | zero => exact wp_pure.mpr ⟨hs, by rw [if_pos rfl]⟩
  | succ n ih =>
    have hnext {s' : State} {j' : ℕ} {name : List Wchar} (h : s'.disk = d ∧ s'.freeList = s.freeList) :
        wp (dentLoop f k dir n j' name) (Takes d s) (· ≠ .fuel) s' :=
      wp_mono (ih h.1) fun _ _ ht => by rwa [Takes, h.2] at ht
    rw [dentLoop]
    refine wp_seq (Calm.fileRead _ hs) fun bytes s' h => ?_
    dsimp only
    split_ifs
    · exact hnext h
    · rw [wp_bind, wp_check]
      exact ⟨fun _ => hnext h, fun _ => by decide⟩
    · rw [wp_bind]
      refine wp_mono (wp_newDirent ha hk h.1) fun file s'' h' => wp_pure.mpr ⟨h'.1, ?_⟩
      rw [if_neg (by simp), ← h.2]
      exact h'.2

lemma wp_dirGetDentFrom {dir offset : ℕ}
    (hs : s.disk = d) : wp (dirGetDentFrom f k dir offset) (Takes d s) (· ≠ .fuel) s := by
  rw [dirGetDentFrom, wp_bind, wp_check]
  refine ⟨fun _ => ?_, fun _ => by decide⟩
  rw [wp_bind, wp_getDirent]
  exact wp_dentLoop ha hk hs

end

lemma Calm.initDir {child : ℕ} : Calm d (initDir f child) :=
  .bind .getDirent fun _ => .ite (fun _ => .bind .filepntInit fun _ => .pure) fun _ => .pure

lemma wp_buildLoop (ha : Acyclic f d) (hk : (f.dataClusCnt + 1).toNat < k) {n parent off : ℕ}
    (hs : s.disk = d) (hn : s.freeList.length < n) :
    wp (buildLoop f k n parent off) (fun _ s' => s'.disk = d ∧ s'.freeList.length ≤ s.freeList.length) (· ≠ .fuel)
      s := by
  induction n generalizing parent off s with
  | zero => exact absurd hn (not_lt_zero _)
  | succ n ih =>
    have hnext {s' : State} {p o : ℕ} (hd : s'.disk = d) (hl : s'.freeList.length < s.freeList.length) :
        wp (buildLoop f k n p o) (fun _ s' => s'.disk = d ∧ s'.freeList.length ≤ s.freeList.length) (· ≠ .fuel) s' :=
      wp_mono (ih hd (by omega)) fun _ _ h => ⟨h.1, by omega⟩
    rw [buildLoop]
    refine wp_seq (wp_dirGetDentFrom ha hk hs) fun r s' h => ?_
    cases r with
    | none =>
      refine wp_pure.mpr ⟨h.1, ?_⟩
      rw [show s'.freeList = s.freeList from h.2]
    | some r =>
      have hlt : s'.freeList.length < s.freeList.length := h.2
      dsimp only
      rw [wp_bind, wp_getDirent]
      split_ifs
      · exact hnext h.1 hlt
      · rw [wp_bind, addChild, wp_modifyDirent, wp_bind]
        refine wp_mono (Calm.initDir _ h.1) fun b s1 h1 => ?_
        have hlt1 : s1.freeList.length < s.freeList.length := by
          rw [h1.2]
          exact hlt
        split_ifs
        · rw [wp_bind]
          refine wp_mono (ih h1.1 (by omega)) fun _ s2 h2 => hnext h2.1 (by omega)
        · exact hnext h1.1 hlt1

lemma wp_fat32Init (ha : Acyclic f d) (hk : (f.dataClusCnt + 1).toNat < k) (hs : s.disk = d)
    (hn : s.freeList.length < k) : wp (fat32Init f k) (fun _ s' => s'.disk = d) (· ≠ .fuel) s := by
  rw [fat32Init, wp_bind, wp_direntAlloc]
  refine ⟨fun root rest hr => ?_, fun _ => by decide⟩
  rw [wp_bind, wp_modifyDirent]
  refine wp_seq (Calm.setDirSize ha hk _ hs) fun _ s1 h1 => ?_
  rw [wp_bind, buildDirentTree]
  refine wp_seq (Calm.filepntInit _ h1.1) fun _ s2 h2 => ?_
  refine wp_mono (wp_buildLoop ha hk h2.1 ?_) fun _ _ h => wp_pure.mpr h.1
  rw [h2.2, h1.2]
  rw [hr, length_cons] at hn
  exact lt_of_succ_lt hn

end Build

section Free

variable {f} {d : Disk}

def Fades (f : Super) (d d' : Disk) : Prop := ∀ c, f.fatEntry d' 0 c = f.fatEntry d 0 c ∨ f.fatEntry d' 0 c = 0

lemma entryAt_putEntry {sec index sec' index' x : ℕ} (h : index < 128) (h' : index' < 128) (hx : x < 2 ^ 32) :
    entryAt (putEntry d sec index x) sec' index' = if sec' = sec ∧ index' =
      index then x else entryAt d sec' index' := by
  rw [entryAt_eq h', flat_putEntry h]
  split_ifs with he
  · obtain ⟨rfl, rfl⟩ := he
    have hs := slice_blit (flat d) (bufSize * sec' + index' * 4) (leBytes 4 x)
    rw [length_leBytes] at hs
    rw [hs, leNat_leBytes]
    exact mod_eq_of_lt hx
  · rw [slice_blit_apart, ← entryAt_eq h']
    rw [length_leBytes, bufSize]
    omega

section

variable (hb : f.bytesPerSec = BitVec.ofNat 16 bufSize)
include hb

lemma index_lt (c : BitVec 64) : (f.clusterFatSecIndex c).toNat < 128 := by
  have hw : (f.bytesPerSec.setWidth 64).toNat = 512 := by
    rw [hb]
    decide
  rw [Super.clusterFatSecIndex, BitVec.toNat_udiv, BitVec.toNat_umod, hw, show (4 : BitVec 64).toNat = 4 from rfl]
  omega

lemma Fades.fatWrite {d' : Disk} (h : Fades f d d') (c : BitVec 64) : Fades f d (f.fatWrite d' c 0) := by
  rw [Super.fatWrite]
  generalize f.fatCnt.toNat = n
  induction n with
  | zero => exact h
  | succ n ih =>
    intro c'
    rw [range_succ, foldl_append, foldl_cons, foldl_nil, Super.fatEntry,
      entryAt_putEntry (index_lt hb c) (index_lt hb _) (by decide)]
    split_ifs
    · exact .inr rfl
    · exact ih c'

lemma wp_clusFreeLoop {k clus : ℕ} (hc : notEndCluster clus = true) (hs : Fades f d s.disk) :
    wp (clusFreeLoop f k clus) (fun _ _ => True)
      (fun p => p = .fuel → k = 0 ∨
        f.Valid clus ∧ ∃ l : List ℕ, l.length + 1 = k ∧ (clus :: l).IsChain (Links f d) ∧ ∀ c ∈ l, f.Valid c) s := by
  induction k generalizing clus s with
  | zero => exact wp_throw.mpr fun _ => .inl rfl
  | succ k ih =>
    rw [clusFreeLoop, wp_bind, fatRead, wp_bind, wp_check]
    refine ⟨fun hv => ?_, fun _ h => absurd h (by decide)⟩
    rw [wp_bind, wp_get, wp_pure, wp_bind, fatWrite, wp_bind, wp_check, wp_modify, wp_ite]
    refine ⟨fun _ => ⟨fun hn => ?_, fun _ => wp_pure.mpr trivial⟩, fun hn => absurd hv hn⟩
    refine wp_mono_error (ih hn (hs.fatWrite hb _)) fun p hp h => .inr ⟨hv, ?_⟩
    obtain rfl | ⟨hv', l, hl, hch, hall⟩ := hp h
    · exact ⟨[], rfl, .singleton clus, fun c hc => absurd hc (not_mem_nil)⟩
    · have hne : f.fatEntry s.disk 0 clus ≠ 0 := fun h0 => by
        rw [h0] at hv'
        exact absurd hv'.1 (by decide)
      refine ⟨_ :: l, by rw [length_cons, hl], .cons_cons ⟨hv, hc, ?_⟩ hch, ?_⟩
      · exact ((hs clus).resolve_right hne).symm
      · exact fun c hc => (mem_cons.mp hc).elim (fun he => he ▸ hv') (hall c)

lemma wp_clusSequenceFree (ha : Acyclic f d)
    (hs : s.disk = d) : wp (clusSequenceFree f clus) (fun _ _ => True) (· ≠ .fuel) s := by
  have hfade : Fades f d s.disk := fun c => .inl (by rw [hs])
  have hlen {l : List ℕ} {c : ℕ} (hv : f.Valid c) (hl : (c :: l).IsChain (Links f d)) (hall : ∀ c ∈ l, f.Valid c) :
      l.length + 1 < (f.dataClusCnt + 1).toNat := by
    have hsub : (c :: l).toFinset ⊆ Finset.Icc 2 (f.dataClusCnt + 1).toNat := fun x hx =>
      Finset.mem_Icc.mpr ((mem_cons.mp (mem_toFinset.mp hx)).elim (fun he => he ▸ hv) (hall x))
    have hcard := Finset.card_le_card hsub
    rw [toFinset_card_of_nodup (ha.nodup hl), length_cons, card_Icc] at hcard
    have := hv.1.trans hv.2
    omega
  rw [clusSequenceFree, clusFreeLoop, wp_bind, fatRead, wp_bind, wp_check]
  refine ⟨fun hv => ?_, fun _ => by decide⟩
  rw [wp_bind, wp_get, wp_pure, wp_bind, fatWrite, wp_bind, wp_check, wp_modify, wp_ite]
  refine ⟨fun _ => ⟨fun hn => ?_, fun _ => wp_pure.mpr trivial⟩, fun hn => absurd hv hn⟩
  refine wp_mono_error (wp_clusFreeLoop hb hn (hfade.fatWrite hb _)) fun p hp h => ?_
  obtain h0 | ⟨hv', l, hl, hch, hall⟩ := hp h
  · have := hv.1.trans hv.2
    omega
  · have := hlen hv' hch hall
    omega

end

end Free

lemma clusterInit_ok {b : BootSector} {f : Super} (h : clusterInit b = .ok f) :
    f = b.super ∧ f.bytesPerSec = BitVec.ofNat 16 bufSize := by
  rw [clusterInit] at h
  split_ifs at h with h1 h2
  cases h
  exact ⟨rfl, not_not.mp h2⟩

def Ends {α : Type} (c : ℕ → M α) (s : State) : Prop := ∃ k, (c k).run s ≠ .error .fuel

lemma Ends.of_wp {α : Type} {c : ℕ → M α} {Q : α → State → Prop} (k : ℕ)
    (h : wp (c k) Q (· ≠ .fuel) s) : Ends c s := ⟨k, fun he => wp_of_error h he rfl⟩

lemma wp_countLoop_cycle {f : Super} {c k : ℕ} (hc : Relation.TransGen (Links f s.disk) c c) :
    wp (countLoop f k c) (fun _ _ => False) (· = .fuel) s := by
  induction k generalizing c with
  | zero => exact wp_throw.mpr rfl
  | succ k ih =>
    obtain ⟨c', hl, hback⟩ := Relation.TransGen.head'_iff.mp hc
    obtain ⟨hv, hn, he⟩ := id hl
    rw [countLoop, if_pos hn, wp_bind, fatRead, wp_bind, wp_check]
    refine ⟨fun _ => ?_, fun h => absurd hv h⟩
    rw [wp_bind, wp_get, wp_pure, he, wp_bind]
    exact wp_mono (ih (.tail' hback hl)) fun _ _ h => h.elim

lemma Ends.not_wp {α : Type} {c : ℕ → M α} (h : Ends c s) :
    ¬ ∀ k, wp (c k) (fun _ _ => False) (· = .fuel) s := by
  obtain ⟨k, hk⟩ := h
  intro hw
  cases hr : (c k).run s with
  | ok r => exact wp_of_ok (hw k) hr
  | error p => exact hk (wp_of_error (hw k) hr ▸ hr)

def MountEnds (f : Super) (s : State) : Prop :=
  (∀ file, Ends (countClusters f · file) s) ∧ (∀ file, Ends (fun _ => filepntInit f file) s) ∧
    (∀ clus, Ends (fun _ => clusSequenceFree f clus) s) ∧ Ends (fat32Init f) s

lemma Acyclic.mountEnds {f : Super} (h : clusterInit (s.disk 0) = .ok f) (ha : Acyclic f s.disk) : MountEnds f s := by
  have hb := (clusterInit_ok h).2
  refine ⟨fun file => ?_, fun file => ?_, fun clus => ?_, ?_⟩
  · exact .of_wp _ (Calm.countClusters ha (lt_succ_self _) s rfl)
  · exact .of_wp 0 (Calm.filepntInit s rfl)
  · exact .of_wp 0 (wp_clusSequenceFree hb ha rfl)
  · exact .of_wp ((f.dataClusCnt + 1).toNat + 1 + s.freeList.length) (wp_fat32Init ha (by omega) rfl (by omega))

section Images

def smallSuper : Super := (bootOf 1 0 1).super

def image (entry : List Byte) : Disk := fun sec =>
  if sec = 0 then bootOf 1 0 1 else if sec < 576 then fun i => entry.getD (i % 4) 0 else fun _ => 0

def imageState (entry : List Byte) : State :=
  { disk := image entry, dirents := fun _ => .zero, freeList := [0], pages := 1 }

lemma placed_smallSuper : Placed smallSuper := Roomy.placed ⟨by decide, by decide⟩ rfl (by decide)

lemma fatEntry_image {entry : List Byte} (he : entry.length = 4) {c : ℕ} (hc : smallSuper.Valid c) :
    smallSuper.fatEntry (image entry) 0 c = leNat entry := by
  have hlast : (smallSuper.dataClusCnt + 1).toNat = smallSuper.dataClusCnt.toNat + 1 := by decide
  have hcnt : smallSuper.dataClusCnt.toNat < 2 ^ 32 := smallSuper.dataClusCnt.isLt
  have hc2 := hc.2
  have hr : smallSuper.InRange (BitVec.ofNat 64 c) := by
    rw [Super.InRange, BitVec.toNat_ofNat, mod_eq_of_lt (by omega)]
    exact ⟨hc.1, hlast ▸ hc.2⟩
  have hlow := (placed_smallSuper.fat_mem hr (k := 0) (by decide)).1
  have hhigh := placed_smallSuper.fat_lt_data hr (k := 0) (by decide)
  rw [show smallSuper.firstDataSec.toNat = 576 by decide] at hhigh
  rw [show smallSuper.rsvdSecCnt.toNat = 64 by decide] at hlow
  have hsec : image entry (smallSuper.clusterFatSec (BitVec.ofNat 64 c) 0).toNat = fun i => entry.getD (i % 4) 0 := by
    rw [image, if_neg (by omega), if_pos hhigh]
  rw [Super.fatEntry, entryAt, hsec]
  congr 1
  refine ext_getElem (by rw [length_slice, he]) fun j h1 h2 => ?_
  rw [getElem_slice, mul_comm, mul_add_mod, mod_eq_of_lt (by omega), getD_eq_getElem?_getD,
    getElem?_eq_getElem h2, Option.getD_some]

lemma acyclic_image : Acyclic smallSuper (image [0xff, 0xff, 0xff, 0x0f]) := by
  intro c hcc
  obtain ⟨x, -, hx⟩ := Relation.TransGen.tail'_iff.mp hcc
  obtain ⟨y, hy, -⟩ := Relation.TransGen.head'_iff.mp hcc
  have he : c = 0x0fffffff := hx.2.2.symm.trans (fatEntry_image rfl hx.1)
  rw [he] at hy
  exact absurd hy.2.1 (by decide)

end Images

end FarmOS.Fat

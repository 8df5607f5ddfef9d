import FarmOS.Fat.Extend

/-! The files of a volume with the clusters that each of them owns, and `file_write` on one of them, which may write to
the directories above it. -/

namespace FarmOS.Fat

open Lib Function Nat List

variable {c o j m : ℕ} {v1 : View}

def Written (o : ℕ) : Prop := 20 ≤ o ∧ o < 22 ∨ 26 ≤ o ∧ o < 32

instance (o : ℕ) : Decidable (Written o) := inferInstanceAs (Decidable (_ ∨ _))

def Dirent.rest (e : Dirent) : Dirent :=
  { e with
    raw := fun o => if Written o then 0 else e.raw o
    firstClus := 0
    fileSize := 0
    pointer := { Pointer.zero with valid := e.pointer.valid } }

structure Files (f : Super) (ready : ℕ → Prop) (s : State) (v : View) (own : ℕ → List ℕ) : Prop where
  shows : Shows f s.disk v
  owns (i : ℕ) : Owns f v (s.dirents i) (own i)
  apart {i j c : ℕ} : i ≠ j → c ∈ own i → c ∉ own j
  mirror (i : ℕ) : ready i → Mirrors (s.dirents i).pointer (own i) (cls f (s.dirents i).fileSize)
  small (i : ℕ) : ready i → (own i).length ≤ tableSize
  parent {i p : ℕ} : (s.dirents i).parentDirent = some p →
    ready p ∧ (s.dirents i).parentDirOff + direntSize + f.clusSize ≤ 2 ^ 32

def files (f : Super) (s : State) (v : View) (own : ℕ → List ℕ) (i : ℕ) : AFile := afile f v (s.dirents i) (own i)

lemma size_files (f : Super) (s : State) (v : View) (own : ℕ → List ℕ) (i : ℕ) :
    (files f s v own i).size = (s.dirents i).fileSize := rfl

section Rest

variable {e e' : Dirent}

@[simp] lemma rest_setPointer {p : Pointer} (h : p.valid = e.pointer.valid) : (e.setPointer p).rest = e.rest := by
  rw [Dirent.rest, Dirent.rest, Dirent.pointer_setPointer, h]
  rfl

@[simp] lemma rest_setFirst : (e.setFirst c).rest = e.rest := rfl

@[simp] lemma rest_setSize {n : ℕ} : (e.setSize n).rest = e.rest := rfl

lemma Extended.rest_eq {n : ℕ} (h : Extended e e' n) : e'.rest = e.rest := by
  have hp := rest_setPointer (e := (e.setSize n).setFirst e'.firstClus) (p := e'.pointer) h.valid
  rw [← h.eq] at hp
  rw [hp, rest_setFirst, rest_setSize]

lemma Dirent.syncRaw_of_not (h : ¬ Written o) : e.syncRaw o = e.raw o := by
  rw [Written, not_or] at h
  rw [Dirent.syncRaw, blit, dif_neg (by rw [length_leBytes]; omega), blit, dif_neg (by rw [length_leBytes]; omega),
    blit, dif_neg (by rw [length_leBytes]; omega)]

lemma rest_syncRaw : (e.setRaw e.syncRaw).rest = e.rest := by
  have hraw : (fun o => if Written o then 0 else e.syncRaw o) = fun o => if Written o then 0 else e.raw o := by
    funext o
    split_ifs with h
    · rfl
    · exact Dirent.syncRaw_of_not h
  rw [Dirent.rest, Dirent.rest, ← hraw]
  rfl

lemma parentDirent_eq (h : e'.rest = e.rest) : e'.parentDirent = e.parentDirent := by
  change e'.rest.parentDirent = e.rest.parentDirent
  rw [h]

lemma parentDirOff_eq (h : e'.rest = e.rest) : e'.parentDirOff = e.parentDirOff := by
  change e'.rest.parentDirOff = e.rest.parentDirOff
  rw [h]

end Rest

namespace Files

variable {f : Super} {ready : ℕ → Prop} {s : State} {v v' : View} {own : ℕ → List ℕ} {i n : ℕ} {d' : Disk}
  {e' : Dirent} {l' : List ℕ}

section

variable (h : Files f ready s v own)
include h

lemma fat_ne_zero (hf : Consistent f) (hc : c ∈ own j) : v.fat c ≠ 0 :=
  (h.owns j).fat_ne_zero hf hc

lemma keeps (hf : Consistent f) (hloc : Local v (own i) v' l') (hj : j ≠ i)
    (hc : c ∈ own j) : v'.fat c = v.fat c ∧ v'.data c = v.data c :=
  ⟨hloc.fat (h.fat_ne_zero hf hc) (h.apart hj hc), hloc.data (h.fat_ne_zero hf hc) (h.apart hj hc)⟩

lemma parent_of_rest (hr : e'.rest = (s.dirents i).rest) (p : ℕ)
    (hp : e'.parentDirent = some p) : ready p ∧ e'.parentDirOff + direntSize + f.clusSize ≤ 2 ^ 32 := by
  rw [parentDirent_eq hr] at hp
  rw [parentDirOff_eq hr]
  exact h.parent hp

lemma set (hf : Consistent f) (hs : Shows f d' v') (ho : Owns f v' e' l')
    (hm : ready i → Mirrors e'.pointer l' (cls f e'.fileSize)) (hsm : ready i → l'.length ≤ tableSize)
    (hloc : Local v (own i) v' l')
    (hp : ∀ p, e'.parentDirent = some p → ready p ∧ e'.parentDirOff + direntSize + f.clusSize ≤ 2 ^ 32) :
    Files f ready (s.filed i d' e' n) v' (update own i l') := by
  have hnew {j c : ℕ} (hj : j ≠ i) (hc : c ∈ own j) : c ∉ l' := fun hm =>
    (hloc.sub hm).elim (h.apart hj hc) (h.fat_ne_zero hf hc)
  refine ⟨hs, fun j => ?_, fun {j k c} hjk hc => ?_, fun j hj => ?_, fun j hj => ?_, fun {j p} hpj => ?_⟩
  · by_cases hj : j = i
    · subst hj
      rwa [dirents_filed_self, update_self]
    · rw [dirents_filed_ne _ hj, update_of_ne hj]
      exact { h.owns j with toLinked := (h.owns j).toLinked.congr fun c hc => (h.keeps hf hloc hj hc).1 }
  · by_cases hj : j = i
    · subst hj
      rw [update_self] at hc
      rw [update_of_ne (Ne.symm hjk)]
      exact fun hk => hnew (Ne.symm hjk) hk hc
    · rw [update_of_ne hj] at hc
      by_cases hk : k = i
      · subst hk
        rw [update_self]
        exact hnew hj hc
      · rw [update_of_ne hk]
        exact h.apart hjk hc
  · by_cases hji : j = i
    · subst hji
      rw [dirents_filed_self, update_self]
      exact hm hj
    · rw [dirents_filed_ne _ hji, update_of_ne hji]
      exact h.mirror j hj
  · by_cases hji : j = i
    · subst hji
      rw [update_self]
      exact hsm hj
    · rw [update_of_ne hji]
      exact h.small j hj
  · by_cases hji : j = i
    · subst hji
      rw [dirents_filed_self] at hpj ⊢
      exact hp p hpj
    · rw [dirents_filed_ne _ hji] at hpj ⊢
      exact h.parent hpj

lemma files_set (hf : Consistent f) (d' : Disk) (e' : Dirent) (n : ℕ) (hloc : Local v (own i) v' l') :
    files f (s.filed i d' e' n) v' (update own i l') =
      update (files f s v own) i (afile f v' e' l') := by
  funext j
  rw [files]
  by_cases hj : j = i
  · subst hj
    rw [dirents_filed_self, update_self, update_self]
  · rw [dirents_filed_ne _ hj, update_of_ne hj, update_of_ne hj, files, afile, afile,
      content_congr fun c hc => (h.keeps hf hloc hj hc).2]

end

end Files

inductive Within (par : ℕ → Option ℕ) : ℕ → ℕ → Prop
  | intro {k i : ℕ} : (∀ p, par i = some p → Within par k p) → Within par (k + 1) i

section

variable {par : ℕ → Option ℕ}

lemma Within.up {k i p : ℕ} (h : Within par (k + 1) i) (hp : par i = some p) : Within par k p := by
  cases h with
  | intro h => exact h p hp

lemma Within.succ {k i : ℕ} (h : Within par k i) : Within par (k + 1) i := by
  induction k generalizing i with
  | zero => nomatch h
  | succ k ih => exact .intro fun p hp => ih (h.up hp)

end

def Above (par : ℕ → Option ℕ) : ℕ → ℕ → Prop := Relation.TransGen fun i p => par i = some p

lemma Within.not_above {par : ℕ → Option ℕ} {k i : ℕ} (h : Within par k i) : ¬ Above par i i := by
  induction k generalizing i with
  | zero => nomatch h
  | succ k ih =>
    intro hc
    obtain ⟨p, hp, hpi⟩ := Relation.TransGen.head'_iff.mp hc
    exact ih (h.up hp) (Relation.TransGen.tail' hpi hp)

def State.par (s : State) (i : ℕ) : Option ℕ := (s.dirents i).parentDirent

def AFile.blit (a : AFile) (off : ℕ) (src : List Byte) : AFile := { a with bytes := Lib.blit a.bytes off src }

def AFile.write (f : Super) (a : AFile) (off : ℕ) (src : List Byte) : AFile :=
  (if a.size < off + src.length then a.extend f (off + src.length) else a).blit off src

structure Synced (f : Super) (ready : ℕ → Prop) (s : State) (v : View) (own : ℕ → List ℕ) (file : ℕ) (a : AFile)
    (s' : State) (v' : View) (own' : ℕ → List ℕ) : Prop where
  inv : Files f ready s' v' own'
  rest (i : ℕ) : (s'.dirents i).rest = (s.dirents i).rest
  free : s'.freeList = s.freeList
  self : files f s' v' own' file = a
  other {j : ℕ} : j ≠ file → ¬ Above s.par file j →
    s'.dirents j = s.dirents j ∧ own' j = own j ∧ files f s' v' own' j = files f s v own j

section Bytes

variable {f : Super} {a : AFile} {off : ℕ} {src : List Byte}

lemma AFile.size_write : (a.write f off src).size = max a.size (off + src.length) := by
  rw [AFile.write, AFile.blit]
  split_ifs with hlt
  · rw [AFile.extend, max_eq_right (le_of_lt hlt)]
    split_ifs <;> rfl
  · exact (max_eq_left (not_lt.mp hlt)).symm

lemma AFile.slice_write : slice (a.write f off src).bytes off src.length = src := slice_blit ..

lemma AFile.write_keeps (hf : Consistent f) (ho : o < a.size) (h : o < off ∨ off + src.length ≤ o) :
    (a.write f off src).bytes o = a.bytes o := by
  have hkeep (m : ℕ → Byte) : Lib.blit m off src o = m o :=
    h.elim (fun h => blit_of_lt _ _ _ h) fun h => blit_of_ge _ _ _ h
  rw [AFile.write, AFile.blit]
  refine (hkeep _).trans ?_
  split_ifs
  · have hin : o / f.clusSize < cls f a.size :=
      (lt_cls hf).mpr (lt_of_le_of_lt (div_mul_le_self _ _) ho)
    rw [AFile.extend]
    split_ifs
    · rfl
    · exact if_pos hin
  · rfl

structure AFile.Stores (a : AFile) (off : ℕ) (src : List Byte) (a' : AFile) : Prop where
  size : a'.size = max a.size (off + src.length)
  stored : slice a'.bytes off src.length = src
  keeps {o : ℕ} : o < a.size → o < off ∨ off + src.length ≤ o → a'.bytes o = a.bytes o

namespace AFile.Stores

variable {a1 a' : AFile} {l1 l2 : List Byte}

lemma nil (h : off ≤ a.size) : a.Stores off [] a := ⟨(max_eq_left h).symm, rfl, fun _ _ => rfl⟩

lemma write (hf : Consistent f) : a.Stores off src (a.write f off src) :=
  ⟨size_write, slice_write, fun ho h => write_keeps hf ho h⟩

lemma append (h1 : a.Stores off l1 a1) (h2 : a1.Stores (off + l1.length) l2 a') : a.Stores off (l1 ++ l2) a' := by
  have hs1 := h1.size
  have hs2 := h2.size
  refine ⟨by rw [length_append]; omega, ?_, fun {o} ho h => ?_⟩
  · rw [length_append, slice_append, h2.stored, slice_congr a1.bytes _ _ fun j hj => ?_, h1.stored]
    exact h2.keeps (by omega) (by omega)
  · rw [length_append] at h
    rw [h2.keeps (by omega) (by omega), h1.keeps ho (by omega)]

lemma prepend (h2 : a.Stores (off + l1.length) l2 a1) (h1 : a1.Stores off l1 a') : a.Stores off (l1 ++ l2) a' := by
  have hs1 := h1.size
  have hs2 := h2.size
  refine ⟨by rw [length_append]; omega, ?_, fun {o} ho h => ?_⟩
  · rw [length_append, slice_append, h1.stored, slice_congr a1.bytes _ _ fun j hj => ?_, h2.stored]
    exact h1.keeps (by omega) (by omega)
  · rw [length_append] at h
    rw [h1.keeps (by omega) (by omega), h2.keeps ho (by omega)]

end AFile.Stores

end Bytes

namespace Synced

variable {f : Super} {ready : ℕ → Prop} {s s1 s' : State} {v v1 v' : View} {own own1 own' : ℕ → List ℕ} {file : ℕ}
  {a a' : AFile}

lemma par (h : Synced f ready s v own file a s' v' own') : s'.par = s.par := funext fun i => parentDirent_eq (h.rest i)

lemma refl (h : Files f ready s v own) : Synced f ready s v own file (files f s v own file) s v own :=
  ⟨h, fun _ => rfl, rfl, rfl, fun _ _ => ⟨rfl, rfl, rfl⟩⟩

lemma trans (h : Synced f ready s v own file a s1 v1 own1) (h' : Synced f ready s1 v1 own1 file a' s' v' own') :
    Synced f ready s v own file a' s' v' own' := by
  refine ⟨h'.inv, fun i => (h'.rest i).trans (h.rest i), h'.free.trans h.free, h'.self, fun hj ha => ?_⟩
  obtain ⟨hd, ho, hf⟩ := h.other hj ha
  obtain ⟨hd', ho', hf'⟩ := h'.other hj (by rwa [h.par])
  exact ⟨hd'.trans hd, ho'.trans ho, hf'.trans hf⟩

end Synced

section Code

variable {f : Super} {ready : ℕ → Prop} {s : State} {v : View} {own : ℕ → List ℕ} {file off : ℕ} {src : List Byte}
  {E : Panic → Prop} {p : Panic}

lemma Fitting.mono {n : ℕ} (h : Fitting f n) (hf : Consistent f) (hm : m ≤ n) : Fitting f m :=
  ⟨le_trans (Nat.add_le_add_right hm _) h.lt, le_trans (cls_mono hf hm) h.table⟩

lemma par_eq {s' : State} (h : ∀ i, (s'.dirents i).rest = (s.dirents i).rest) : s'.par = s.par :=
  funext fun i => parentDirent_eq (h i)

def Seated (f : Super) (s : State) : Prop :=
  ∀ i p, s.par i = some p → cls f ((s.dirents i).parentDirOff + direntSize) ≤ tableSize

def Halts (f : Super) (s : State) (n : ℕ) (p : Panic) : Prop :=
  Full p ∨ p = .outOfTable ∧ ¬ (cls f n ≤ tableSize ∧ Seated f s)

lemma Halts.full {n : ℕ} (h : Halts f s n p) (hn : cls f n ≤ tableSize) (hs : Seated f s) : Full p :=
  h.resolve_right fun ho => ho.2 ⟨hn, hs⟩

lemma Fails.halts {n : ℕ} (h : Fails f n p) : Halts f s n p :=
  h.imp_right fun ho => ⟨ho.1, fun hn => not_lt.mpr hn.1 ho.2⟩

lemma rest_filed {d' : Disk} {e' : Dirent} {n : ℕ} (hr : e'.rest = (s.dirents file).rest) (i : ℕ) :
    ((s.filed file d' e' n).dirents i).rest = (s.dirents i).rest := by
  by_cases hi : i = file
  · rw [hi, dirents_filed_self, hr]
  · rw [dirents_filed_ne _ hi]

lemma Seated.congr {s' : State} (h : Seated f s) (hr : ∀ i, (s'.dirents i).rest = (s.dirents i).rest) :
    Seated f s' := fun i p hp => by
  rw [par_eq hr] at hp
  rw [parentDirOff_eq (hr i)]
  exact h i p hp

lemma Halts.mono {s' : State} {n : ℕ} (h : Halts f s' m p)
    (hr : ∀ i, (s'.dirents i).rest = (s.dirents i).rest) (hm : cls f n ≤ tableSize → Seated f s → cls f m ≤ tableSize) :
    Halts f s n p :=
  h.imp_right fun ho => ⟨ho.1, fun hn => ho.2 ⟨hm hn.1 hn.2, hn.2.congr hr⟩⟩

lemma Files.fitting (h : Files f ready s v own) (hf : Consistent f) (hr : ready file) :
    Fitting f (s.dirents file).fileSize :=
  ⟨(h.owns file).lt, le_trans ((h.owns file).cls_le_length hf) (h.small file hr)⟩

lemma wp_writeBytes_files (hf : Consistent f) (h : Files f ready s v own) (hr : ready file) (hsrc : src ≠ [])
    (hle : off + src.length ≤ (s.dirents file).fileSize) :
    wp (writeBytes f file off src)
      (fun _ s' => ∃ v' own', Synced f ready s v own file ((files f s v own file).blit off src) s' v' own') E s := by
  have hfit := (h.fitting hf hr).mono hf hle
  have hm : Mirrors (s.dirents file).pointer (own file) (cls f (off + src.length)) := fun i hi =>
    h.mirror file hr i (lt_of_lt_of_le hi (cls_mono hf hle))
  refine wp_writeBytes hf h.shows (h.owns file).toRow hsrc hm hfit.lt hfit.table fun v' d' h' ho => ?_
  have hloc : Local v (own file) v' (own file) := ⟨fun _ _ => by rw [ho.fat], fun _ hc => ho.other _ hc, .inl⟩
  have howns : Owns f v' (s.dirents file) (own file) :=
    { h.owns file with toLinked := (h.owns file).toLinked.congr fun c _ => by rw [ho.fat] }
  have hfiles := h.set (n := s.pages) hf h' howns (h.mirror file) (h.small file) hloc (h.parent_of_rest rfl)
  have hset := h.files_set hf d' (s.dirents file) s.pages hloc
  rw [← onDisk_eq_filed, update_eq_self] at hfiles hset
  refine ⟨v', own, hfiles, fun _ => rfl, rfl, ?_, fun hj _ => ⟨rfl, rfl, ?_⟩⟩
  · rw [hset, update_self, afile, ho.content]
    rfl
  · rw [hset, update_of_ne hj]

structure Opened (f : Super) (s : State) (v : View) (file : ℕ) (l : List ℕ) : Prop where
  shows : Shows f s.disk v
  owns : Owns f v (s.dirents file) l
  mirror : Mirrors (s.dirents file).pointer l (cls f (s.dirents file).fileSize)
  small : l.length ≤ tableSize

lemma Files.opened (h : Files f ready s v own) (hr : ready file) : Opened f s v file (own file) :=
  ⟨h.shows, h.owns file, h.mirror file hr, h.small file hr⟩

lemma wp_readOpened {n : ℕ} {l : List ℕ} (hf : Consistent f) (h : Opened f s v file l)
    (hN : (s.dirents file).fileSize ≤ off ∨ off + n < 2 ^ 32) :
    wp (fileRead f file off n)
      (fun bytes s' => s' = s ∧ bytes = slice (content f v l) off (min n ((s.dirents file).fileSize - off))) E s := by
  obtain ⟨size, hsize⟩ : ∃ size, (s.dirents file).fileSize = size := ⟨_, rfl⟩
  have hfit : Fitting f (s.dirents file).fileSize := ⟨h.owns.lt, le_trans (h.owns.cls_le_length hf) h.small⟩
  rw [hsize] at hfit hN ⊢
  rw [fileRead, wp_bind, wp_getDirent, hsize]
  obtain ⟨m, hm⟩ : ∃ m, m = if size < u32 (off + n) then size - off else n := ⟨_, rfl⟩
  have hu : ¬ size ≤ off → u32 (off + n) = off + n := fun h0 => mod_eq_of_lt (hN.resolve_left h0)
  have hmin : min n (size - off) = if size ≤ off then 0 else m := by
    split_ifs with h0
    · omega
    · rw [hm, hu h0]
      split_ifs <;> omega
  dsimp only
  rw [← hm, wp_ite, wp_pure, hmin]
  refine ⟨fun hstop => ⟨rfl, ?_⟩, fun hgo => ?_⟩
  · have h0 : (if size ≤ off then 0 else m) = 0 := by
      split_ifs with hle
      · rfl
      · exact hstop.resolve_left hle
    rw [h0, slice_zero]
  · obtain ⟨hlt, hne⟩ := not_or.mp hgo
    rw [if_neg hlt]
    have hle : off + m ≤ size := by
      rw [hm, hu hlt]
      split_ifs <;> omega
    have hcls : cls f (off + m) ≤ cls f (s.dirents file).fileSize := hsize ▸ cls_mono hf hle
    refine wp_readBytes hf h.shows h.owns.toRow hne (fun i hi => ?_) (by have := hfit.lt; omega) ?_ ⟨rfl, rfl⟩
    · exact h.mirror i (lt_of_lt_of_le hi hcls)
    · exact le_trans hcls (hsize ▸ hfit.table)

section Sync

variable {k : ℕ} {a : AFile}

def WriteSpec (f : Super) (ready : ℕ → Prop) (k : ℕ) : Prop :=
  ∀ {s : State} {v : View} {own : ℕ → List ℕ} {file off : ℕ} {src : List Byte}, Files f ready s v own →
    Within s.par k file → ready file → src ≠ [] → off + src.length + f.clusSize ≤ 2 ^ 32 →
    wp (fileWriteN f k file off src) (fun _ s' => ∃ v' own',
      Synced f ready s v own file ((files f s v own file).write f off src) s' v' own') (Halts f s (off + src.length)) s

lemma wp_syncWith_entry (hf : Consistent f) (hspec : WriteSpec f ready k) (h : Files f ready s v own)
    (hw : Within s.par (k + 1) file) :
    wp (syncWith (fileWriteN f k) file)
      (fun _ s' => ∃ v' own', Synced f ready s v own file (files f s v own file) s' v' own' ∧
        ∀ p, s.par file = some p → files f s' v' own' p = (files f s v own p).write f (s.dirents file).parentDirOff
          (slice (s'.dirents file).raw 0 direntSize)) (Halts f s 0) s := by
  obtain ⟨e2, he2⟩ : ∃ e2, e2 = (s.dirents file).setRaw (s.dirents file).syncRaw := ⟨_, rfl⟩
  obtain ⟨s2, hs2⟩ : ∃ s2, s2 = s.filed file s.disk e2 s.pages := ⟨_, rfl⟩
  have hrest : e2.rest = (s.dirents file).rest := he2 ▸ rest_syncRaw
  have hown : Owns f v e2 (own file) := by
    rw [he2]
    exact ⟨(h.owns file).toLinked, (h.owns file).empty, (h.owns file).size, (h.owns file).lt⟩
  have hmir : ready file → Mirrors e2.pointer (own file) (cls f e2.fileSize) := by
    rw [he2]
    exact h.mirror file
  have h2 := h.set (n := s.pages) hf h.shows hown hmir (h.small file) .refl (h.parent_of_rest hrest)
  have hfiles := h.files_set (i := file) hf s.disk e2 s.pages .refl
  have hself : afile f v e2 (own file) = files f s v own file := by
    rw [he2]
    rfl
  rw [update_eq_self, ← hs2] at h2 hfiles
  rw [hself, update_eq_self] at hfiles
  have hd2 : s2.dirents file = e2 := hs2 ▸ dirents_filed_self ..
  have hne2 {j : ℕ} (hj : j ≠ file) : s2.dirents j = s.dirents j := hs2 ▸ dirents_filed_ne _ hj
  have hrest2 (i : ℕ) : (s2.dirents i).rest = (s.dirents i).rest := hs2 ▸ rest_filed hrest i
  have hpar := par_eq hrest2
  have hoff : e2.parentDirOff = (s.dirents file).parentDirOff := parentDirOff_eq hrest
  rw [syncWith, wp_bind, wp_modifyDirent, update_eq_filed, ← he2, ← hs2, wp_bind, wp_getDirent, hd2]
  cases hp : e2.parentDirent with
  | none =>
    have hp' : s.par file = none := (parentDirent_eq hrest).symm.trans hp
    refine wp_pure.mpr ⟨v, own, ⟨h2, hrest2, hs2 ▸ rfl, by rw [hfiles], fun hj _ => ?_⟩,
      fun p hpp => nomatch hp'.symm.trans hpp⟩
    exact ⟨hne2 hj, rfl, by rw [hfiles]⟩
  | some p =>
    have hp' : s.par file = some p := (parentDirent_eq hrest).symm.trans hp
    have habove : Above s.par file p := .single hp'
    have hself' : ¬ Above s.par p file := fun hc => hw.not_above (.head hp' hc)
    have hpf : file ≠ p := fun hc => hw.not_above (hc ▸ habove)
    obtain ⟨hready, hfit⟩ := h.parent hp'
    have hlen : (slice e2.raw 0 direntSize).length = direntSize := length_slice ..
    have hnil : slice e2.raw 0 direntSize ≠ [] := fun hc => by
      rw [hc] at hlen
      exact absurd hlen (by decide)
    have hlt2 : e2.parentDirOff + (slice e2.raw 0 direntSize).length + f.clusSize ≤ 2 ^ 32 := by rwa [hlen, hoff]
    have hseat (_ : cls f 0 ≤ tableSize) (hs : Seated f s) :
        cls f (e2.parentDirOff + (slice e2.raw 0 direntSize).length) ≤ tableSize := by
      rw [hlen, hoff]
      exact hs file p hp'
    refine wp_mono (wp_mono_error (hspec h2 (hpar ▸ hw.up hp') hready hnil hlt2) fun p hp => hp.mono hrest2 hseat)
      fun _ s3 h3 => ?_
    obtain ⟨v3, own3, h3⟩ := h3
    obtain ⟨hdir3, hown3, hfile3⟩ := h3.other hpf (by rwa [hpar])
    rw [hd2] at hdir3
    refine ⟨v3, own3, ⟨h3.inv, fun i => (h3.rest i).trans (hrest2 i), h3.free.trans (hs2 ▸ rfl), ?_,
      fun {j} hj ha => ?_⟩, fun q hq => ?_⟩
    · rw [hfile3, hfiles]
    · obtain ⟨hd, ho, hfl⟩ := h3.other (j := j) (fun hc => ha (hc ▸ habove)) fun hc => ha (.head hp' (hpar ▸ hc))
      exact ⟨hd.trans (hne2 hj), ho, by rw [hfl, hfiles]⟩
    · obtain rfl : p = q := Option.some.inj (hp'.symm.trans hq)
      rw [h3.self, hfiles, hdir3, hoff]

lemma Synced.of_set {d1 : Disk} {v' : View} {e1 : Dirent} {l1 : List ℕ} {n : ℕ} {s' : State}
    {own' : ℕ → List ℕ} (hs : Synced f ready (s.filed file d1 e1 n) v1 (update own file l1) file a s' v' own')
    (h : Files f ready s v own) (hf : Consistent f) (hloc : Local v (own file) v1 l1)
    (hr : e1.rest = (s.dirents file).rest) :
    Synced f ready s v own file a s' v' own' := by
  have hrest : ∀ i, ((s.filed file d1 e1 n).dirents i).rest = (s.dirents i).rest := rest_filed hr
  have hpar := par_eq hrest
  have hfiles {j : ℕ} (hj : j ≠ file) :
      files f (s.filed file d1 e1 n) v1 (update own file l1) j = files f s v own j := by
    rw [h.files_set hf _ _ _ hloc, update_of_ne hj]
  refine ⟨hs.inv, fun i => (hs.rest i).trans (hrest i), hs.free, hs.self, fun {j} hj ha => ?_⟩
  obtain ⟨hd, ho, hfl⟩ := hs.other hj (by rwa [hpar])
  rw [dirents_filed_ne _ hj] at hd
  rw [update_of_ne hj] at ho
  exact ⟨hd, ho, hfl.trans (hfiles hj)⟩

end Sync

variable {k newSize : ℕ}

section

variable (hf : Consistent f)
include hf

lemma cls_zero_le : cls f 0 ≤ tableSize := by
  rw [cls_zero hf]
  exact zero_le _

lemma wp_extendSync (hspec : WriteSpec f ready k) (h : Files f ready s v own)
    (hw : Within s.par (k + 1) file) (hr : ready file) (hlt : (s.dirents file).fileSize < newSize)
    (hN : newSize + f.clusSize ≤ 2 ^ 32) :
    wp (fileExtendWith f (syncWith (fileWriteN f k)) file newSize)
      (fun _ s' => ∃ v' own', Synced f ready s v own file ((files f s v own file).extend f newSize) s' v' own')
      (Halts f s newSize) s := by
  refine wp_fileExtendWith hf h.shows (h.owns file) (h.mirror file hr) (h.small file hr) hlt hN
    (fun v' l' e' d' n hN' h' ho hm he hx => ?_) fun _ hp => hp.halts
  have hsize : e'.fileSize = newSize := by rw [hx.eq]; rfl
  have hset := h.set (n := n) hf h' ho (fun _ => by rwa [hsize]) (fun _ => he.small (h.small file hr) hN') he.toLocal
    (h.parent_of_rest hx.rest_eq)
  have hrest : ∀ i, ((s.filed file d' e' n).dirents i).rest = (s.dirents i).rest := rest_filed hx.rest_eq
  refine wp_mono (wp_mono_error (wp_syncWith_entry hf hspec hset (by rwa [par_eq hrest]))
    fun _ hp => hp.mono hrest fun _ _ => cls_zero_le hf) fun _ s' hs => ?_
  obtain ⟨v3, own3, hs, -⟩ := hs
  rw [h.files_set hf _ _ _ he.toLocal, update_self, he.afile_eq (fun c hc => h.fat_ne_zero hf hc) hsize] at hs
  exact ⟨v3, own3, hs.of_set h hf he.toLocal hx.rest_eq⟩

lemma wp_fileWriteN (k : ℕ) : WriteSpec f ready k := by
  induction k with
  | zero => exact fun _ hw => nomatch hw
  | succ k ih =>
    intro s v own file off src h hw hr hsrc hfit
    have hu : u32 (off + src.length) = off + src.length := by
      rw [u32, mod_eq_of_lt (by have := hf.clusSize_pos; omega)]
    rw [fileWriteN, wp_bind, wp_check]
    refine ⟨fun _ => ?_, fun hn => absurd hsrc hn⟩
    rw [wp_bind, wp_getDirent, hu]
    split_ifs with hlt
    · rw [wp_bind]
      refine wp_mono (wp_extendSync hf ih h hw hr hlt hfit) fun _ s1 hs => ?_
      obtain ⟨v1, own1, hs⟩ := hs
      have hsize : (s1.dirents file).fileSize = off + src.length := by
        have := congrArg AFile.size hs.self
        rw [size_files] at this
        rw [this, AFile.extend]
        split_ifs <;> rfl
      refine wp_mono (wp_writeBytes_files hf hs.inv hr hsrc (le_of_eq hsize.symm)) fun _ s' hq => ?_
      obtain ⟨v', own', hq⟩ := hq
      refine ⟨v', own', ?_⟩
      have := hs.trans hq
      rwa [hs.self, show ((files f s v own file).extend f (off + src.length)).blit off src =
        (files f s v own file).write f off src by rw [AFile.write, size_files, if_pos hlt]] at this
    · have hle := not_lt.mp hlt
      refine wp_mono (wp_writeBytes_files hf h hr hsrc hle) fun _ s' hq => ?_
      obtain ⟨v', own', hq⟩ := hq
      refine ⟨v', own', ?_⟩
      rwa [AFile.write, size_files, if_neg hlt]

lemma wp_fileWrite (h : Files f ready s v own) (hw : Within s.par maxDirent file) (hr : ready file)
    (hsrc : src ≠ []) (hN : off + src.length + f.clusSize ≤ 2 ^ 32) :
    wp (fileWrite f file off src) (fun _ s' => ∃ v' own',
      Synced f ready s v own file ((files f s v own file).write f off src) s' v' own')
        (Halts f s (off + src.length)) s := by
  rw [fileWrite]
  generalize maxDirent = k at hw ⊢
  exact wp_fileWriteN hf k h hw hr hsrc hN

lemma wp_syncBack_entry (h : Files f ready s v own) (hw : Within s.par (maxDirent + 1) file) :
    wp (syncDirentRawdataBack f file)
      (fun _ s' => ∃ v' own', Synced f ready s v own file (files f s v own file) s' v' own' ∧
        ∀ p, s.par file = some p → files f s' v' own' p = (files f s v own p).write f (s.dirents file).parentDirOff
          (slice (s'.dirents file).raw 0 direntSize)) (Halts f s 0) s := by
  have hsync : syncDirentRawdataBack f = syncWith (fileWriteN f maxDirent) := rfl
  rw [hsync]
  generalize maxDirent = k at hw ⊢
  exact wp_syncWith_entry hf (wp_fileWriteN hf k) h hw

lemma wp_fileExtend (h : Files f ready s v own) (hw : Within s.par maxDirent file) (hr : ready file)
    (hlt : (s.dirents file).fileSize < newSize) (hN : newSize + f.clusSize ≤ 2 ^ 32) :
    wp (fileExtend f file newSize)
      (fun _ s' => ∃ v' own', Synced f ready s v own file ((files f s v own file).extend f newSize) s' v' own')
      (Halts f s newSize) s := by
  have hext : fileExtend f = fileExtendWith f (syncWith (fileWriteN f maxDirent)) := rfl
  rw [hext]
  generalize maxDirent = k at hw ⊢
  exact wp_extendSync hf (wp_fileWriteN hf k) h hw.succ hr hlt hN

end

end Code

end FarmOS.Fat

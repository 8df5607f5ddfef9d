import FarmOS.Walk.Dirent

/-! The reference counts after a walk: each `Dirent` on the way from the result up to the root has one more. -/

namespace FarmOS.Walk

open Lib List

variable {D : Type} [DecidableEq D] {t : Tree D} {cur : BitVec 16}

namespace Tree

variable {d e m p : D}

lemma pathFrom_eq {n k : ℕ} (hn : t.depth d < n) (hk : t.depth d < k) : t.pathFrom n d = t.pathFrom k d := by
  induction n generalizing d k with
  | zero => exact absurd hn (Nat.not_lt_zero _)
  | succ n ih =>
    obtain ⟨k, rfl⟩ : ∃ j, k = j + 1 := ⟨k - 1, by omega⟩
    rw [pathFrom, pathFrom]
    cases hu : t.up d with
    | none => rfl
    | some e =>
      have hd := t.depth_up hu
      dsimp only
      rw [ih (k := k) (by omega) (by omega)]

lemma path_of_up (h : t.up d = some e) : t.path d = d :: t.path e := by
  have hd := t.depth_up h
  rw [path, pathFrom, h]
  dsimp only
  rw [path, pathFrom_eq (k := t.depth e + 1) (by omega) (by omega)]

lemma path_of_top (h : t.up d = none) : t.path d = [d] := by
  rw [path, pathFrom, h]

lemma depth_le_of_mem (h : e ∈ t.path d) : t.depth e ≤ t.depth d := by
  induction hn : t.depth d using Nat.strongRecOn generalizing d with
  | ind n ih =>
    subst hn
    cases hu : t.up d with
    | none =>
      rw [path_of_top hu, mem_singleton] at h
      exact Nat.le_of_eq (congrArg t.depth h)
    | some p =>
      rw [path_of_up hu, mem_cons] at h
      obtain rfl | h := h
      · exact Nat.le_refl _
      · have hd := t.depth_up hu
        exact Nat.le_of_lt (Nat.lt_of_le_of_lt (ih _ hd h rfl) hd)

lemma path_nodup (t : Tree D) (d : D) : (t.path d).Nodup := by
  induction hn : t.depth d using Nat.strongRecOn generalizing d with
  | ind n ih =>
    subst hn
    cases hu : t.up d with
    | none =>
      rw [path_of_top hu]
      exact nodup_cons.mpr ⟨not_mem_nil, nodup_nil⟩
    | some p =>
      have hd := t.depth_up hu
      rw [path_of_up hu, nodup_cons]
      exact ⟨fun hmem => absurd (depth_le_of_mem hmem) (by omega), ih _ hd p rfl⟩

lemma up_of_not_root (h : ¬ t.isRoot d) (hp : t.parent d = some p) : t.up d = some p := by
  rw [Dirents.up, if_neg h, hp]

lemma up_of_root (h : t.isRoot d) : t.up d = (t.fileSystem d).mountPoint := if_pos h

lemma getParentDirent_of_parent (h : ¬ t.isRoot d) (hp : t.parent d = some p) : t.getParentDirent d = p := by
  rw [getParentDirent, parentFrom, if_neg h, hp, Option.getD_some]

lemma getParentDirent_of_mount (h : t.isRoot d) (hm : (t.fileSystem d).mountPoint = some m) (hr : ¬ t.isRoot m)
    (hp : t.parent m = some p) : t.getParentDirent d = p := by
  have hd := t.depth_up ((up_of_root h).trans hm)
  obtain ⟨k, hk⟩ : ∃ k, t.depth d = k + 1 := ⟨t.depth d - 1, by omega⟩
  rw [getParentDirent, parentFrom, if_pos h, hm]
  dsimp only
  rw [hk, parentFrom, if_neg hr, hp, Option.getD_some]

end Tree

def Counts (f : D → BitVec 16) (s : Refs D) (l : List D) : Prop :=
  ∀ d, s.refcnt d = f d + BitVec.ofNat 16 (l.count d)

namespace Counts

variable {f : D → BitVec 16} {s : Refs D} {l l' : List D} {d : D}

lemma congr (h : Counts f s l) (hl : ∀ d, l.count d = l'.count d) : Counts f s l' := fun d => by
  rw [← hl]
  exact h d

lemma dget (h : Counts f s l) : wp (dget cur d) (fun _ s' => Counts f s' (d :: l)) (fun _ => True) s := by
  rw [Walk.dget, wp_bind, wp_get]
  split
  · rw [wp_throw]
    trivial
  · rw [wp_set]
    intro e
    by_cases he : e = d
    · subst he
      simp [h e, BitVec.ofNat_add, BitVec.add_assoc]
    · simp [he, h e, count_cons_of_ne (Ne.symm he)]

lemma dput (h : Counts f s (d :: l)) : wp (dput cur d) (fun _ s' => Counts f s' l) (fun _ => False) s := by
  rw [Walk.dput, wp_modify]
  intro e
  by_cases he : e = d
  · subst he
    refine (Function.update_self ..).trans ?_
    rw [h e, count_cons_self, BitVec.ofNat_add, ← BitVec.add_assoc]
    exact BitVec.add_sub_cancel _ _
  · simp [he, h e, count_cons_of_ne (Ne.symm he)]

lemma dgets (h : Counts f s l) :
    wp (l'.forM (Walk.dget cur)) (fun _ s' => Counts f s' (l' ++ l)) (fun _ => True) s := by
  induction l' generalizing s l with
  | nil => exact wp_pure.mpr h
  | cons d l' ih =>
    rw [List.forM]
    refine wp_seq h.dget fun _ s' h' => wp_mono (ih h') fun _ s' h' => h'.congr fun e => ?_
    simp only [List.count_append, List.count_cons]
    omega

lemma dputs (h : Counts f s (l' ++ l)) :
    wp (l'.forM (Walk.dput cur)) (fun _ s' => Counts f s' l) (fun _ => False) s := by
  induction l' generalizing s with
  | nil => exact wp_pure.mpr h
  | cons d l' ih =>
    rw [List.forM, wp_bind]
    exact wp_mono h.dput fun _ s' h' => ih h'

end Counts

namespace Dirents

def entered (t : Dirents D) (dir : D) : Option D :=
  if t.head dir then (t.findFsBy dir).map FileSystem.root else some dir

end Dirents

namespace Tree

def next (t : Tree D) (file : D) (name : Name) : Option D :=
  if name = dot then some file
  else if name = dotdot then some (t.getParentDirent file)
  else (t.entered file).bind fun dir => t.lookup dir name

def Searched (t : Tree D) (file dir : D) : Prop :=
  dir = file ∨ t.head file = true ∧ t.isRoot dir ∧ (t.fileSystem dir).mountPoint = some file

/-- The lookup of the file system mounted on `file` does not find one that is mounted elsewhere. -/
def Entrable (t : Tree D) (file : D) : Prop := t.head file = true → ∀ f ∈ t.findFsBy file, f.mountPoint = some file

def Leavable (t : Tree D) (dir : D) : Prop := t.isRoot dir → ∀ m ∈ (t.fileSystem dir).mountPoint, ¬ t.isRoot m

/-- The condition on the directories that the walk visits and on the names it reads, and on no others. -/
def Walkable (t : Tree D) : D → List Name → Prop
  | file, [] => t.Entrable file
  | file, name :: rest =>
    name.length < maxNameLen ∧ (t.isDirectory file = true → t.Entrable file ∧ (name = dot → t.head file = false) ∧
      (name = dotdot → ∀ dir ∈ t.entered file, t.Leavable dir) ∧ ∀ c ∈ t.next file name, Walkable t c rest)

instance (t : Tree D) (file : D) : Decidable (t.Entrable file) := inferInstanceAs (Decidable (_ → _))

instance (t : Tree D) (dir : D) : Decidable (t.Leavable dir) := inferInstanceAs (Decidable (_ → _))

instance decidableWalkable (t : Tree D) : ∀ file ns, Decidable (t.Walkable file ns)
  | file, [] => inferInstanceAs (Decidable (t.Entrable file))
  | _, _ :: rest =>
    have := fun c => decidableWalkable t c rest
    inferInstanceAs (Decidable (_ ∧ (_ → _)))

end Tree

namespace Counts

variable {f : D → BitVec 16} {s : Refs D} {d file dir : D}

lemma dputPath (h : Counts f s (t.path d)) :
    wp (t.dputPath cur d) (fun _ s' => Counts f s' []) (fun _ => False) s :=
  dputs (by rwa [append_nil])

lemma dgetPath (h : Counts f s []) : wp (t.dgetPath cur d) (fun _ s' => Counts f s' (t.path d)) (fun _ => True) s :=
  wp_mono h.dgets fun _ s' h' => by rwa [append_nil] at h'

lemma enter (ht : t.Entrable file) (h : Counts f s (t.path file)) :
    wp (t.enter cur file) (fun dir s' => t.entered file = some dir ∧ t.Searched file dir ∧ Counts f s' (t.path dir))
      (fun _ => True) s := by
  rw [Tree.enter, wp_bind, Tree.tryEnterMountDir, Dirents.entered]
  by_cases hh : t.head file
  · rw [if_pos hh, if_pos hh]
    cases hf : t.findFsBy file with
    | none => exact wp_throw.mpr trivial
    | some fs =>
      have hm := ht hh fs hf
      have hfs : t.fileSystem fs.root = fs := t.mounted (mem_of_find?_eq_some hf)
      have hr : t.isRoot fs.root := by rw [Dirents.isRoot, hfs]
      have hu : t.up fs.root = some file := (Tree.up_of_root hr).trans (by rw [hfs, hm])
      have hne : fs.root ≠ file := fun heq => absurd (t.depth_up hu) (by simp [heq])
      dsimp only
      rw [wp_pure, if_pos hne]
      refine wp_seq h.dget fun _ s' h' => ?_
      rw [wp_pure, Tree.path_of_up hu]
      exact ⟨rfl, .inr ⟨hh, hr, by rw [hfs, hm]⟩, h'⟩
  · rw [if_neg hh, if_neg hh, wp_pure, if_neg (not_not.mpr rfl), wp_pure]
    exact ⟨rfl, .inl rfl, h⟩

lemma walkUp (ht : t.Leavable dir) (hdir : t.Searched file dir) (h : Counts f s (t.path dir)) :
    wp (t.walkUp cur dir) (fun _ s' => t.getParentDirent dir = t.getParentDirent file ∧
      Counts f s' (t.path (t.getParentDirent dir))) (fun _ => True) s := by
  rw [Tree.walkUp]
  by_cases hr : t.isRoot dir
  · cases hm : (t.fileSystem dir).mountPoint with
    | none =>
      have hg : t.getParentDirent dir = dir := by
        rw [Tree.getParentDirent, Tree.parentFrom, if_pos hr, hm]
      obtain rfl | ⟨-, -, hm'⟩ := hdir
      · rw [if_neg (not_not.mpr hg), if_pos hr, wp_pure, hg]
        exact ⟨rfl, h⟩
      · cases hm.symm.trans hm'
    | some m =>
      have hmr := ht hr m hm
      obtain ⟨q, hq⟩ := t.parent_some hmr
      have hg := Tree.getParentDirent_of_mount hr hm hmr hq
      have hup := (Tree.up_of_root hr).trans hm
      have hup' := Tree.up_of_not_root hmr hq
      have hne : q ≠ dir := fun heq => by
        have h1 := t.depth_up hup
        have h2 := t.depth_up hup'
        rw [heq] at h2
        omega
      rw [hg, if_pos hne, wp_bind]
      rw [Tree.path_of_up hup, Tree.path_of_up hup'] at h
      refine wp_mono (wp_mono_error h.dput fun _ => False.elim) fun _ s' h' => ?_
      rw [if_pos hr]
      refine wp_mono (wp_mono_error h'.dput fun _ => False.elim) fun _ s'' h'' => ⟨?_, h''⟩
      obtain rfl | ⟨-, -, hm'⟩ := hdir
      · exact hg.symm
      · cases hm.symm.trans hm'
        exact (Tree.getParentDirent_of_parent hmr hq).symm
  · obtain ⟨p, hp⟩ := t.parent_some hr
    have hup := Tree.up_of_not_root hr hp
    have hg := Tree.getParentDirent_of_parent hr hp
    have hne : p ≠ dir := fun heq => absurd (t.depth_up hup) (by simp [heq])
    rw [hg, if_pos hne, wp_bind]
    rw [Tree.path_of_up hup] at h
    refine wp_mono (wp_mono_error h.dput fun _ => False.elim) fun _ s' h' => ?_
    rw [if_neg hr, wp_pure]
    obtain rfl | ⟨-, hr', -⟩ := hdir
    · exact ⟨hg.symm, h'⟩
    · exact absurd hr' hr

def After (t : Tree D) (f : D → BitVec 16) (s : Refs D) : Walked D → Prop
  | .found _ file => Counts f s (t.path file)
  | .failed .. => Counts f s []

lemma walkLoop (pdir : Option D) (ns : List Name) (hw : t.Walkable file ns) (h : Counts f s (t.path file)) :
    wp (t.walkLoop cur pdir file ns) (fun r s' => After t f s' r) (fun _ => True) s := by
  induction ns generalizing s file pdir with
  | nil =>
    rw [Tree.walkLoop, wp_bind]
    exact wp_mono (h.enter hw) fun dir s' h' => wp_pure.mpr h'.2.2
  | cons name rest ih =>
    rw [Tree.walkLoop, if_neg (Nat.not_le.mpr hw.1)]
    by_cases hdir : t.isDirectory file = false
    · rw [if_pos hdir, wp_bind]
      exact wp_mono (wp_mono_error h.dputPath fun _ => False.elim) fun _ s' h' => wp_pure.mpr h'
    obtain ⟨ht, hd, hup, hnext⟩ := hw.2 (by simpa using hdir)
    rw [if_neg hdir]
    refine wp_seq (h.enter ht) fun dir s' ⟨he, hs, h'⟩ => ?_
    by_cases h1 : name = dot
    · rw [if_pos h1]
      obtain rfl | ⟨hh, -⟩ := hs
      · exact ih _ (hnext dir (by simp [Tree.next, h1])) h'
      · cases hh.symm.trans (hd h1)
    by_cases h2 : name = dotdot
    · rw [if_neg h1, if_pos h2, wp_bind]
      refine wp_mono (h'.walkUp (hup h2 dir he) hs) fun _ s' ⟨hg, h'⟩ => ?_
      rw [hg] at h'
      exact ih _ (hnext _ (by rw [Tree.next, if_neg h1, if_pos h2]; rfl)) h'
    rw [if_neg h1, if_neg h2]
    cases hl : t.lookup dir name with
    | none =>
      dsimp only
      refine wp_seq (wp_mono_error h'.dputPath fun _ => False.elim) fun _ s' h' => wp_pure.mpr ?_
      split_ifs <;> exact h'
    | some c =>
      dsimp only
      rw [wp_bind]
      obtain ⟨hp, hr⟩ := t.child (mem_of_find?_eq_some hl)
      refine wp_mono h'.dget fun _ s' h' => ih _ (hnext c ?_) ?_
      · simp [Tree.next, h1, h2, he, hl]
      · rwa [Tree.path_of_up (Tree.up_of_not_root hr hp)]

end Counts

structure Balanced (t : Tree D) (cur : BitVec 16) (s s' : Refs D) (r : Walked D) : Prop where
  found {pdir : Option D} {file : D} : r = .found pdir file →
    (∀ d, s'.refcnt d = if d ∈ t.path file then s.refcnt d + 1 else s.refcnt d) ∧
      ∃ b s'', (t.fileClose cur file).run s' = .ok (b, s'') ∧ s''.refcnt = s.refcnt
  failed {e : Errno} {pdir : Option D} {lastelem : Option Name} : r = .failed e pdir lastelem → s'.refcnt = s.refcnt

lemma Counts.eq {s s' : Refs D} (h : Counts s.refcnt s' []) : s'.refcnt = s.refcnt := by
  funext d
  rw [h d, count_nil, BitVec.add_zero]

lemma Counts.ite {s s' : Refs D} {l : List D} (h : Counts s.refcnt s' l) (hl : l.Nodup) (d : D) :
    s'.refcnt d = if d ∈ l then s.refcnt d + 1 else s.refcnt d := by
  rw [h d]
  split_ifs with hd
  · rw [count_eq_one_of_mem hl hd]
    rfl
  · rw [count_eq_zero.mpr hd, BitVec.add_zero]

lemma Counts.after {s s' : Refs D} {r : Walked D} (h : Counts.After t s.refcnt s' r) : Balanced t cur s s' r where
  found {pdir file} hr := by
    subst hr
    refine ⟨h.ite (t.path_nodup file), ?_⟩
    have hclose : wp (t.fileClose cur file) (fun _ s'' => Counts s.refcnt s'' []) (fun _ => False) s' := by
      rw [Tree.fileClose]
      refine wp_seq (Counts.dputPath h) fun _ s'' h'' => ?_
      rw [wp_bind, wp_get, wp_pure]
      exact h''
    obtain ⟨b, s'', hrun, h''⟩ := wp_total hclose
    exact ⟨b, s'', hrun, h''.eq⟩
  failed hr := by
    subst hr
    exact h.eq

theorem walk_path_balanced (t : Tree D) (cur : BitVec 16) (fs : FileSystem D) (path : List UInt8) (baseDir : Option D)
    (hw : t.Walkable (if path.head? = some slash then fs.root else baseDir.getD fs.root) (names path))
    (s s' : Refs D) (r : Walked D) (hrun : (t.walkPath cur fs path baseDir).run s = .ok (r, s')) :
    Balanced t cur s s' r := by
  have h0 : Counts s.refcnt s [] := fun d => by rw [count_nil, BitVec.add_zero]
  have h : wp (t.walkPath cur fs path baseDir) (fun r s' => Counts.After t s.refcnt s' r) (fun _ => True) s := by
    rw [Tree.walkPath, wp_bind]
    exact wp_mono h0.dgetPath fun _ s1 h1 => h1.walkLoop none _ hw
  have hafter := wp_of_ok h hrun
  exact Counts.after hafter

def rootFs : FileSystem (Fin 5) := ⟨0, none⟩

def innerFs : FileSystem (Fin 5) := ⟨2, some 1⟩

def deepFs : FileSystem (Fin 5) := ⟨4, some 3⟩

def nested (same : Bool) : Tree (Fin 5) where
  name d := if d = 1 then [109] else if d = 3 then [110] else []
  isDirectory _ := true
  isRm _ := false
  firstClus d := if same then 5 else BitVec.ofNat 32 d.val
  head d := d = 1 ∨ d = 3
  fileSystem d := if d.val < 2 then rootFs else if d.val < 4 then innerFs else deepFs
  parent d := if d = 1 then some 0 else if d = 3 then some 2 else none
  children d := if d = 0 then [1] else if d = 2 then [3] else []
  fs := [rootFs, innerFs, deepFs]
  depth d := d.val
  depth_up {d e} := by revert d e; cases same <;> decide +kernel
  parent_some {d} := by revert d; cases same <;> decide +kernel
  child {d c} := by revert d c; cases same <;> decide +kernel
  mounted {f} hf := by
    simp only [mem_cons, not_mem_nil, or_false] at hf
    obtain rfl | rfl | rfl := hf <;> rfl

local instance direntNeZero : NeZero 2 := ⟨two_ne_zero⟩

def outerFs : FileSystem (Fin 2) := ⟨0, none⟩

def coverFs : FileSystem (Fin 2) := ⟨1, some 0⟩

def covered : Tree (Fin 2) where
  name _ := []
  isDirectory _ := true
  isRm _ := false
  firstClus _ := 2
  head d := d = 0
  fileSystem d := if d = 0 then outerFs else coverFs
  parent _ := none
  children _ := []
  fs := [outerFs, coverFs]
  depth d := d.val
  depth_up {d e} := by revert d e; decide +kernel
  parent_some {d} := by revert d; decide +kernel
  child {d c} := by revert d c; decide +kernel
  mounted {f} hf := by
    simp only [mem_cons, not_mem_nil, or_false] at hf
    obtain rfl | rfl := hf <;> rfl

def fresh {D : Type} : Refs D := ⟨fun _ => 0, fun _ => []⟩

def spoils (t : Tree D) (fs : FileSystem D) (path : List UInt8) (d : D) : Bool :=
  match (t.walkPath 1 fs path none).run fresh with
  | .ok (.found _ file, s) => s.refcnt d ≠ if d ∈ t.path file then 1 else 0
  | .ok (.failed .., s) => s.refcnt d ≠ 0
  | .error _ => false

lemma not_balanced_of_spoils {fs : FileSystem D} {path : List UInt8} {d : D} (h : spoils t fs path d = true) :
    ∃ r s, (t.walkPath 1 fs path none).run fresh = .ok (r, s) ∧ ¬ Balanced t 1 fresh s r := by
  unfold spoils at h
  split at h
  next pdir file s hrun =>
    refine ⟨_, s, hrun, fun hb => of_decide_eq_true h ?_⟩
    exact (hb.found rfl).1 d
  next e pdir lastelem s hrun =>
    refine ⟨_, s, hrun, fun hb => of_decide_eq_true h ?_⟩
    exact congrFun (hb.failed rfl) d
  next => cases h

theorem walk_path_spoils_counts :
    (∃ r s, ((nested false).walkPath 1 rootFs (replicate 128 97) none).run fresh = .ok (r, s) ∧
      ¬ Balanced (nested false) 1 fresh s r) ∧
    (∃ r s, ((nested false).walkPath 1 rootFs [109, 47, 46] none).run fresh = .ok (r, s) ∧
      ¬ Balanced (nested false) 1 fresh s r) ∧
    (∃ r s, ((nested true).walkPath 1 rootFs [109, 47, 110] none).run fresh = .ok (r, s) ∧
      ¬ Balanced (nested true) 1 fresh s r) ∧
    ∃ r s, (covered.walkPath 1 outerFs [46, 46] none).run fresh = .ok (r, s) ∧ ¬ Balanced covered 1 fresh s r := by
  refine ⟨not_balanced_of_spoils (d := 0) ?_, not_balanced_of_spoils (d := 2) ?_, not_balanced_of_spoils (d := 2) ?_,
    not_balanced_of_spoils (d := 0) ?_⟩ <;> decide +kernel

def zigzag : List UInt8 := [109, 47, 110, 47, 46, 46, 47, 46, 46, 47, 109]

theorem walk_path_zigzag_balanced : ∃ r s, ((nested false).walkPath 1 rootFs zigzag none).run fresh = .ok (r, s) ∧
      s.refcnt 2 = 1 ∧ s.refcnt 3 = 0 ∧ Balanced (nested false) 1 fresh s r := by
  have hok : (match ((nested false).walkPath 1 rootFs zigzag none).run fresh with
    | .ok (_, s) => decide (s.refcnt 2 = 1 ∧ s.refcnt 3 = 0)
    | .error _ => false) = true := by decide +kernel
  split at hok
  next r s hrun =>
    obtain ⟨h2, h3⟩ := of_decide_eq_true hok
    refine ⟨r, s, hrun, h2, h3, walk_path_balanced _ 1 rootFs zigzag none ?_ fresh s r hrun⟩
    decide +kernel
  next => cases hok

end FarmOS.Walk

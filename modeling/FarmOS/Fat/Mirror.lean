import FarmOS.Fat.Shrink
import FarmOS.Fat.Mount
import FarmOS.Lib.Run

/-! The table of cluster numbers follows the FAT: `filepnt_init` fills it from the chain of a file, and the operations
on the file keep the two together. -/

namespace FarmOS.Fat

open Lib Function List Nat

section Init

variable {f : Super} {ready : ℕ → Prop} {s : State} {v : View} {own : ℕ → List ℕ} {file i k clus : ℕ} {l : List ℕ}
  {E : Panic → Prop}

lemma Mirrors.push {p p' : Pointer} {c : ℕ} (hm : Mirrors p l i) (hc : l[i]? = some c)
    (hp : p'.entry = update p.entry i c) : Mirrors p' l (i + 1) := by
  intro j hj
  rw [hp]
  by_cases hji : j = i
  · rw [hji, update_self, hc]
  · rw [update_of_ne hji]
    exact hm j (by omega)

lemma wp_initLoop {Q : Unit → State → Prop} (hf : Consistent f) (hv : Shows f s.disk v) (hl : Row f l)
    (hc : Chain v.fat Ended clus (l.drop i)) (hi : i ≤ l.length) (hm : Mirrors (s.dirents file).pointer l i)
    (ht : i ≤ tableSize) (hk : i + k = tableSize + 1)
    (hQ : ∀ p n, l.length ≤ tableSize → Mirrors p l l.length → p.valid = (s.dirents file).pointer.valid →
      Q () (s.filed file s.disk ((s.dirents file).setPointer p) n))
    (hE : E .noPage) (hover : tableSize < l.length → E .outOfTable) : wp (initLoop f file k i clus) Q E s := by
  induction k generalizing s i clus with
  | zero => omega
  | succ k ih =>
    have hend := hc.eq_nil_iff
    rw [drop_eq_nil_iff] at hend
    rw [initLoop, wp_ite, wp_pure]
    refine ⟨fun hgo => ?_, fun hstop => ?_⟩
    · have hlt : i < l.length := not_le.mp fun hle => by
        have : notEndCluster clus = false := hend.mp hle
        rw [this] at hgo
        exact Bool.noConfusion hgo
      rw [drop_eq_getElem_cons hlt] at hc
      obtain ⟨rfl, -, hc⟩ := hc
      have hget : l[i]? = some l[i] := getElem?_eq_getElem hlt
      rw [wp_bind]
      refine wp_filepntSetval (fun hit p n hp hpv => ?_) hE fun hle => hover (by omega)
      have hv' : Shows f (s.filed file s.disk ((s.dirents file).setPointer p) n).disk v := hv
      rw [wp_bind, wp_fatRead hf hv' (hl.valid _ (getElem_mem hlt))]
      refine ih hv' hc hlt ?_ hit (by omega) fun p' n' hlen hm' hpv' => ?_
      · rw [dirents_filed_self]
        exact hm.push hget hp
      · rw [dirents_filed_self] at hpv' ⊢
        rw [filed_filed, disk_filed]
        exact hQ p' n' hlen hm' (hpv'.trans hpv)
    · have hle : l.length ≤ i := hend.mpr (Bool.eq_false_iff.mpr hstop)
      obtain rfl : i = l.length := le_antisymm hi hle
      have hq := hQ (s.dirents file).pointer s.pages ht hm rfl
      rwa [Dirent.setPointer, ← onDisk_eq_filed] at hq

structure Opens (f : Super) (ready : ℕ → Prop) (s : State) (v : View) (own : ℕ → List ℕ) (file : ℕ) (s' : State) :
    Prop where
  inv : Files f (fun j => ready j ∨ j = file) s' v own
  eq : ∃ p n, s' = s.filed file s.disk ((s.dirents file).setPointer p) n

lemma Files.setPointer {p : Pointer} {n : ℕ} (h : Files f ready s v own)
    (hm : Mirrors p (own file) (cls f (s.dirents file).fileSize)) (hs : (own file).length ≤ tableSize) :
    Files f (fun j => ready j ∨ j = file) (s.filed file s.disk ((s.dirents file).setPointer p) n) v own := by
  refine ⟨h.shows, fun j => ?_, h.apart, fun j hj => ?_, fun j hj => ?_, fun {j q} hp => ?_⟩
  · by_cases hj : j = file
    · rw [hj, dirents_filed_self]
      exact ⟨(h.owns file).toLinked, (h.owns file).empty, (h.owns file).size, (h.owns file).lt⟩
    · rw [dirents_filed_ne _ hj]
      exact h.owns j
  · by_cases hjf : j = file
    · rw [hjf, dirents_filed_self]
      exact hm
    · rw [dirents_filed_ne _ hjf]
      exact h.mirror j (hj.resolve_right hjf)
  · by_cases hjf : j = file
    · rwa [hjf]
    · exact h.small j (hj.resolve_right hjf)
  · by_cases hj : j = file
    · rw [hj, dirents_filed_self] at hp ⊢
      exact ⟨.inl (h.parent hp).1, (h.parent hp).2⟩
    · rw [dirents_filed_ne _ hj] at hp ⊢
      exact ⟨.inl (h.parent hp).1, (h.parent hp).2⟩

lemma wp_filepntInit (hf : Consistent f) (h : Files f ready s v own)
    (hr : (s.dirents file).pointer.valid = true → ready file) :
    wp (filepntInit f file) (fun _ s' => Opens f ready s v own file s')
      (fun p => p = .noPage ∨ p = .outOfTable ∧ tableSize < (own file).length) s := by
  have ho := h.owns file
  have hsame : Mirrors (s.dirents file).pointer (own file) (cls f (s.dirents file).fileSize) →
      (own file).length ≤ tableSize → Opens f ready s v own file s := fun hm hsm => by
    have hset := h.setPointer (n := s.pages) hm hsm
    rw [Dirent.setPointer, ← onDisk_eq_filed] at hset
    exact ⟨hset, (s.dirents file).pointer, s.pages, onDisk_eq_filed s file s.disk⟩
  rw [filepntInit, wp_bind, wp_getDirent, wp_ite, wp_pure]
  refine ⟨fun hstop => ?_, fun hgo => ?_⟩
  · obtain hv | h0 := hstop
    · exact hsame (h.mirror file (hr hv)) (h.small file (hr hv))
    · have hnil := (ho.firstClus_eq_zero hf).mp h0
      have hsize : (s.dirents file).fileSize = 0 := ho.empty.mp hnil
      refine hsame (fun i hi => ?_) ?_
      · rw [hsize, cls_zero hf] at hi
        exact absurd hi (not_lt_zero i)
      · rw [hnil]
        exact zero_le _
  · have hne : own file ≠ [] := fun hnil => hgo (.inr (ho.nil hnil))
    rw [wp_bind]
    refine wp_initLoop (i := 0) hf h.shows ho.toRow (ho.chain hne) (zero_le _) (fun _ hi => absurd hi (not_lt_zero _))
      (zero_le _) (zero_add _) (fun p n hlen hm hp => ?_) (.inl rfl) fun hlt => .inr ⟨rfl, hlt⟩
    rw [wp_modifyDirent, update_eq_filed, filed_filed, dirents_filed_self, disk_filed, Dirent.setPointer_setPointer]
    refine ⟨h.setPointer (fun i hi => ?_) hlen, _, _, rfl⟩
    exact hm i (lt_of_lt_of_le hi (ho.cls_le_length hf))

end Init

structure Tables where
  state : State
  opened : List ℕ

inductive TableOp
  | init (file : ℕ)
  | extend (file newSize : ℕ)
  | write (file off : ℕ) (src : List Byte)
  | shrink (file newsize : ℕ)

instance (f : Super) (n : ℕ) : Decidable (Fitting f n) :=
  decidable_of_iff (n + f.clusSize ≤ 2 ^ 32 ∧ cls f n ≤ tableSize) ⟨fun h => ⟨h.1, h.2⟩, fun h => ⟨h.lt, h.table⟩⟩

namespace TableOp

variable (f : Super)

def exec : TableOp → M Unit
  | init file => filepntInit f file
  | extend file newSize => fileExtend f file newSize
  | write file off src => fileWrite f file off src
  | shrink file newsize => fileShrink f file newsize

def Allowed (t : Tables) : TableOp → Prop
  | init _ => True
  | extend file newSize => file ∈ t.opened ∧ (t.state.dirents file).fileSize < newSize ∧ Fitting f newSize
  | write file off src => file ∈ t.opened ∧ src ≠ [] ∧ Fitting f (off + src.length)
  | shrink file newsize => file ∈ t.opened ∧ newsize ≤ (t.state.dirents file).fileSize

instance (t : Tables) (op : TableOp) : Decidable (op.Allowed f t) := by
  cases op <;> unfold Allowed <;> infer_instance

def opens (opened : List ℕ) : TableOp → List ℕ
  | init file => file :: opened
  | _ => opened

def next (t : Tables) (op : TableOp) : Option Tables :=
  if op.Allowed f t then
    match (op.exec f).run t.state with
    | .ok (_, s) => some ⟨s, op.opens t.opened⟩
    | .error _ => none
  else none

end TableOp

def clusAt (f : Super) (clus : ℕ) : ℕ → M ℕ
  | 0 => pure clus
  | i + 1 => do
    let c ← clusAt f clus i
    fatRead f c

section Runs

variable {f : Super} {s : State} {v : View} {a i : ℕ} {l : List ℕ} {t t' : Tables}

lemma wp_clusAt (hf : Consistent f) (hv : Shows f s.disk v) (hl : Linked f v a l) (hi : i < l.length) :
    wp (clusAt f a i) (fun c s' => s' = s ∧ c = l[i]) (fun _ => False) s := by
  have hc := hl.chain (ne_nil_of_length_pos (by omega))
  induction i with
  | zero => exact wp_pure.mpr ⟨rfl, hc.head_eq hi⟩
  | succ i ih =>
    rw [clusAt]
    refine wp_seq (ih (lt_of_succ_lt hi)) fun c s' h => ?_
    obtain ⟨rfl, rfl⟩ := h
    rw [wp_fatRead hf hv (hl.valid _ (getElem_mem _))]
    exact ⟨rfl, hc.getElem_succ hi⟩

structure Tables.Inv (f : Super) (t : Tables) (v : View) (own : ℕ → List ℕ) : Prop where
  files : Files f (· ∈ t.opened) t.state v own
  small (i : ℕ) : (own i).length ≤ tableSize
  within (i : ℕ) : Within t.state.par maxDirent i
  valid (i : ℕ) : (t.state.dirents i).pointer.valid = true → i ∈ t.opened
  seated : Seated f t.state

namespace Tables.Inv

variable {own own' : ℕ → List ℕ} {v' : View} {s' : State} {file : ℕ} {op : TableOp}

section

variable (h : t.Inv f v own)
include h

lemma opened_of_above {j : ℕ} (ha : Above t.state.par file j) : j ∈ t.opened := by
  obtain ⟨i, -, hi⟩ := Relation.TransGen.tail'_iff.mp ha
  exact (h.files.parent hi).1

lemma after (hfile : file ∈ t.opened) (hs : Files f (· ∈ t.opened) s' v' own')
    (hrest : ∀ i, (s'.dirents i).rest = (t.state.dirents i).rest)
    (hother : ∀ j ≠ file, ¬ Above t.state.par file j → own' j = own j) : Inv f ⟨s', t.opened⟩ v' own' := by
  refine ⟨hs, fun j => ?_, fun j => ?_, fun j hj => ?_, h.seated.congr hrest⟩
  · by_cases hj : j ∈ t.opened
    · exact hs.small j hj
    · rw [hother j (fun he => hj (he ▸ hfile)) fun ha => hj (h.opened_of_above ha)]
      exact h.small j
  · rw [par_eq hrest]
    exact h.within j
  · have hv : (s'.dirents j).rest.pointer.valid = (t.state.dirents j).rest.pointer.valid := by rw [hrest]
    exact h.valid j (hv.symm.trans hj)

lemma of_opens (ho : Opens f (· ∈ t.opened) t.state v own file s') : Inv f ⟨s', file :: t.opened⟩ v own := by
  have hready : (fun j => j ∈ t.opened ∨ j = file) = (· ∈ file :: t.opened) := by
    funext j
    rw [mem_cons, or_comm]
  have hinv := ho.inv
  rw [hready] at hinv
  obtain ⟨p, n, rfl⟩ := ho.eq
  have hdir (j : ℕ) : ((t.state.filed file t.state.disk ((t.state.dirents file).setPointer p)
    n).dirents j).parentDirOff =
      (t.state.dirents j).parentDirOff := by
    by_cases hj : j = file
    · rw [hj, dirents_filed_self]
      rfl
    · rw [dirents_filed_ne _ hj]
  have hpar : (t.state.filed file t.state.disk ((t.state.dirents file).setPointer p) n).par = t.state.par := by
    funext i
    rw [State.par, State.par]
    by_cases hi : i = file
    · rw [hi, dirents_filed_self]
      rfl
    · rw [dirents_filed_ne _ hi]
  refine ⟨hinv, h.small, fun j => ?_, fun j hj => ?_, fun i q hq => ?_⟩
  · rw [hpar]
    exact h.within j
  · by_cases hjf : j = file
    · rw [hjf]
      exact mem_cons_self
    · rw [dirents_filed_ne _ hjf] at hj
      exact mem_cons_of_mem _ (h.valid j hj)
  · rw [hpar] at hq
    rw [hdir]
    exact h.seated i q hq

lemma wp_write {off : ℕ} {src : List Byte} (hf : Consistent f) (hr : file ∈ t.opened)
    (hsrc : src ≠ []) (hN : Fitting f (off + src.length)) :
    wp (fileWrite f file off src) (fun _ s' => ∃ v' own', Inv f ⟨s', t.opened⟩ v' own' ∧
      Synced f (· ∈ t.opened) t.state v own file ((Fat.files f t.state v own file).write f off src) s' v' own')
        Full t.state := by
  refine wp_mono (wp_mono_error (wp_fileWrite hf h.files (h.within file) hr hsrc hN.lt) fun p hp =>
    hp.full hN.table h.seated) fun _ s' ⟨v', own', hs⟩ => ⟨v', own', ?_, hs⟩
  exact h.after hr hs.inv hs.rest fun j hj ha => (hs.other hj ha).2.1

lemma wp_exec (hf : Consistent f) (ho : op.Allowed f t) :
    wp (op.exec f) (fun _ s' => ∃ v' own', Inv f ⟨s', op.opens t.opened⟩ v' own') Full t.state := by
  cases op with
  | init file =>
    refine wp_mono (wp_mono_error (wp_filepntInit hf h.files (h.valid file)) fun p hp => ?_) fun _ s' hs =>
      ⟨v, own, h.of_opens hs⟩
    exact hp.elim .inr fun ⟨_, hlt⟩ => absurd (h.small file) (not_le.mpr hlt)
  | extend file newSize =>
    obtain ⟨hr, hlt, hN⟩ := ho
    refine wp_mono (wp_mono_error (wp_fileExtend hf h.files (h.within file) hr hlt hN.lt) fun p hp =>
      hp.full hN.table h.seated)
      fun _ s' ⟨v', own', hs⟩ => ⟨v', own', ?_⟩
    exact h.after hr hs.inv hs.rest fun j hj ha => (hs.other hj ha).2.1
  | write file off src =>
    obtain ⟨hr, hsrc, hN⟩ := ho
    exact wp_mono (h.wp_write hf hr hsrc hN) fun _ s' ⟨v', own', h', _⟩ => ⟨v', own', h'⟩
  | shrink file newsize =>
    obtain ⟨hr, hle⟩ := ho
    refine wp_mono (wp_mono_error (wp_fileShrink hf h.files (h.within file) hr hle) fun p hp =>
      hp.full (cls_zero_le hf) h.seated) fun _ s' ⟨v', own', _, _, hs⟩ => ⟨v', own', ?_⟩
    exact h.after hr hs.inv hs.rest fun j hj ha => (hs.other hj ha).2.1

lemma next (hf : Consistent f) (hn : op.next f t = some t') : ∃ v' own', t'.Inv f v' own' := by
  rw [TableOp.next] at hn
  split_ifs at hn with ho
  split at hn
  · next s' he =>
    cases hn
    exact wp_of_ok (h.wp_exec hf ho) he
  · cases hn

lemma getclusbyno (hf : Consistent f) (hr : file ∈ t.opened) (hi : i < cls f (t.state.dirents file).fileSize) :
    ∃ c, (filepntGetclusbyno file i).run t.state = .ok (c, t.state) ∧
      (clusAt f (t.state.dirents file).firstClus i).run t.state = .ok (c, t.state) := by
  have ho := h.files.owns file
  have hlen := lt_of_lt_of_le hi (ho.cls_le_length hf)
  obtain ⟨c, s1, hrun, rfl, rfl⟩ := wp_total (wp_clusAt hf h.files.shows ho.toLinked hlen)
  have hget : wp (filepntGetclusbyno file i) (fun c s' => s' = t.state ∧ c = (own file)[i])
    (fun _ => False) t.state := by
    refine wp_mirrored hf ho.toRow (h.files.mirror file hr) hi fun c hc _ => ⟨rfl, ?_⟩
    rw [getElem?_eq_getElem hlen] at hc
    exact (Option.some.inj hc).symm
  obtain ⟨c, s2, hrun', rfl, rfl⟩ := wp_total hget
  exact ⟨_, hrun', hrun⟩

end

end Tables.Inv

theorem getclusbyno_follows_fat {own : ℕ → List ℕ} {ops : List TableOp} (hf : Consistent f) (h : t.Inv f v own)
    (hrun : Run (fun t op t' => op.next f t = some t') t ops t') :
    (∀ file i, file ∈ t'.opened → i < cls f (t'.state.dirents file).fileSize →
      ∃ c, (filepntGetclusbyno file i).run t'.state = .ok (c, t'.state) ∧
        (clusAt f (t'.state.dirents file).firstClus i).run t'.state = .ok (c, t'.state)) ∧
      ∀ (op : TableOp) p, op.Allowed f t' → (op.exec f).run t'.state = .error p → p = .volumeFull ∨ p = .noPage := by
  obtain ⟨v', own', h'⟩ : ∃ v' own', t'.Inv f v' own' :=
    hrun.invariant (P := fun t => ∃ v own, t.Inv f v own) ⟨v, own, h⟩ fun _ _ _ ⟨_, _, ha⟩ hn => ha.next hf hn
  refine ⟨fun file i hr hi => h'.getclusbyno hf hr hi, fun op p ho hp => ?_⟩
  have hfull : Full p := wp_of_error (h'.wp_exec hf ho) hp
  exact hfull

def Chained (f : Super) (s : State) : Prop :=
  ∃ (v : View) (own : ℕ → List ℕ), Shows f s.disk v ∧ (∀ i, Owns f v (s.dirents i) (own i)) ∧
    ∀ i j c, i ≠ j → c ∈ own i → c ∉ own j

theorem table_calls_keep_chains {own : ℕ → List ℕ} {ops : List TableOp} (hf : Consistent f) (h : t.Inv f v own)
    (hrun : Run (fun t op t' => op.next f t = some t') t ops t') : Chained f t'.state := by
  obtain ⟨v', own', h'⟩ : ∃ v' own', t'.Inv f v' own' :=
    hrun.invariant (P := fun t => ∃ v own, t.Inv f v own) ⟨v, own, h⟩ fun _ _ _ ⟨_, _, ha⟩ hn => ha.next hf hn
  exact ⟨v', own', h'.files.shows, h'.files.owns, fun _ _ _ => h'.files.apart⟩

end Runs

section Blank

def blank : Tables := ⟨imageState [0, 0, 0, 0], []⟩

lemma consistent_smallSuper : Consistent smallSuper := ⟨placed_smallSuper, by decide, by decide, by decide⟩

lemma flat_blank {a : ℕ} (ha : bufSize ≤ a) : flat blank.state.disk a = 0 := by
  have hsec : a / bufSize ≠ 0 := ne_of_gt (div_pos ha (by decide))
  have hzero (i : ℕ) : [(0 : Byte), 0, 0, 0].getD i 0 = 0 := by
    match i with
    | 0 | 1 | 2 | 3 => rfl
    | i + 4 => rfl
  change image [0, 0, 0, 0] (a / bufSize) (a % bufSize) = 0
  rw [image, if_neg hsec]
  split_ifs
  · exact hzero _
  · rfl

lemma shows_blank : Shows smallSuper blank.state.disk ⟨fun _ => 0, fun _ _ => 0⟩ := by
  refine ⟨fun {c k} _ _ => ?_, fun {c o} _ _ => ?_⟩
  · have hpos : bufSize ≤ fatPos smallSuper k c := by
      have : smallSuper.rsvdSecCnt.toNat = 64 := by decide
      rw [fatPos, this, bufSize]
      omega
    have hz : slice (flat blank.state.disk) (fatPos smallSuper k c) 4 =
        slice (fun _ => 0) (fatPos smallSuper k c) 4 := slice_congr _ _ _ fun j _ => flat_blank (by omega)
    rw [hz]
    rfl
  · have hpos : bufSize ≤ dataPos smallSuper c := by
      have : smallSuper.firstDataSec.toNat = 576 := by decide
      rw [dataPos, this, bufSize]
      omega
    exact flat_blank (by omega)

lemma owns_zero : Owns smallSuper ⟨fun _ => 0, fun _ _ => 0⟩ .zero [] :=
  ⟨⟨⟨fun _ hc => absurd hc (not_mem_nil), nodup_nil⟩, fun h => absurd rfl h, fun _ => rfl⟩,
    iff_of_true rfl rfl, zero_le _, by decide⟩

lemma inv_blank (opened : List ℕ) : Tables.Inv smallSuper ⟨blank.state, opened⟩ ⟨fun _ => 0, fun _ _ => 0⟩
    fun _ => [] := by
  have hcls : cls smallSuper 0 = 0 := cls_zero consistent_smallSuper
  refine ⟨⟨shows_blank, fun _ => owns_zero, fun _ _ => not_mem_nil, fun _ _ => ?_, fun _ _ => zero_le _, nofun⟩,
    fun _ => zero_le _, fun _ => .intro nofun, nofun, nofun⟩
  exact hcls ▸ nofun

theorem getclusbyno_follows_fat_blank : ∃ t, Run (fun t op t' => TableOp.next smallSuper t op = some t') blank
        [.init 0, .extend 0 1200, .write 0 500 (replicate 100 7), .shrink 0 600] t ∧
      (t.opened, (t.state.dirents 0).fileSize) = ([0], 600) ∧
      ∃ c, (filepntGetclusbyno 0 1).run t.state = .ok (c, t.state) ∧
        (clusAt smallSuper (t.state.dirents 0).firstClus 1).run t.state = .ok (c, t.state) := by
  have heval : ([.init 0, .extend 0 1200, .write 0 500 (replicate 100 7), .shrink 0 600].foldlM
      (TableOp.next smallSuper) blank).map (fun t => (t.opened, (t.state.dirents 0).fileSize)) = some ([0], 600) := by
    decide +kernel
  obtain ⟨t, hrun, ht⟩ := Run.of_eval (fun _ _ _ h => h) heval
  have hlen : 1 < cls smallSuper (t.state.dirents 0).fileSize := by
    rw [(Prod.mk.inj ht).2]
    decide
  have hmem : 0 ∈ t.opened := by
    rw [(Prod.mk.inj ht).1]
    exact mem_cons_self
  exact ⟨t, hrun, ht, (getclusbyno_follows_fat consistent_smallSuper (inv_blank []) hrun).1 0 1 hmem hlen⟩

theorem table_calls_keep_chains_blank : ∃ t, Run (fun t op t' => TableOp.next smallSuper t op = some t') blank
      [.init 0, .extend 0 1200] t ∧ Chained smallSuper t.state := by
  have heval : ([.init 0, .extend 0 1200].foldlM (TableOp.next smallSuper) blank).map (fun _ => ()) = some () := by
    decide +kernel
  obtain ⟨t, hrun, -⟩ := Run.of_eval (fun _ _ _ h => h) heval
  exact ⟨t, hrun, table_calls_keep_chains consistent_smallSuper (inv_blank []) hrun⟩

end Blank

section Overrun

def bigBoot : BootSector := blit (bootOf 1 0 32) 32 [0, 0, 16, 0]

def longDisk : Disk := fun sec i =>
  if sec = 0 then bigBoot i
  else if sec < 16448 then
    let c := (sec - 64) % 8192 * 128 + i / 4
    (leBytes 4 (if c ≤ tableSize then c + 1 else if c = tableSize + 1 then fat32Eof else 0)).getD (i % 4) 0
  else 0

def longFile : Dirent :=
  { Dirent.zero with
    firstClus := 2
    fileSize := tableSize * bufSize
    pointer :=
      { second := fun i => some fun j => i * pageNClusNo + j + 2
        third := some fun i => some fun j => (nDirentSecPointer + i) * pageNClusNo + j + 2
        valid := true } }

def longState : State :=
  { disk := longDisk, dirents := update (fun _ => .zero) 0 longFile, freeList := [], pages := 1 }

end Overrun

end FarmOS.Fat

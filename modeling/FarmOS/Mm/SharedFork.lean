import FarmOS.Mm.SharedPage

/-! Which pages of an anonymous `MAP_SHARED` mapping stay shared over every fork tree. -/

namespace FarmOS.Mm

open Lib

variable {L : Layout} {img : Image L} {perm w : Pte} {va va2 start len brk mmapAddr : BitVec 64}
  {procs members : List ℕ} {mem : BitVec 64 → Byte} {s s' : Phys} {v v' : View} {pd p q c : ℕ}
  {more : BitVec 64 → Bool} {body : BitVec 64 → M Unit} {prot flags : BitVec 32}

lemma wp_whilePages_hit {I P : Phys → Prop} (fuel : ℕ) (hr : Reached more start va) (h : I s)
    (hI : ∀ va2 s, I s → wp (body va2) (fun _ s' => I s') NotRefZero s)
    (hP : ∀ va2 s, P s → wp (body va2) (fun _ s' => P s') NotRefZero s)
    (hhit : ∀ s, I s → wp (body va) (fun _ s' => P s') NotRefZero s) :
    wp (whilePages more body fuel start) (fun _ s' => P s') NotRefZero s := by
  induction fuel generalizing start s with
  | zero => exact wp_throw.mpr nofun
  | succ fuel ih =>
    obtain ⟨hm, he⟩ := hr.first
    rw [whilePages, if_pos hm, wp_bind]
    rcases he with rfl | hr'
    · exact wp_mono (hhit s h) fun _ _ h' => wp_whilePages fuel h' fun va2 s _ => hP va2 s
    · exact wp_mono (hI start s h) fun _ _ h' => ih hr' h'

def Awaited (L : Layout) (perm : Pte) (va : BitVec 64) (procs : List ℕ) (p : ℕ) (s : Phys) : Prop :=
  ∃ v, Rooted L procs s v ∧ (pteToPa (look s p va) = 0 ∨ Common L perm va procs [p] (fun _ => 0) s)

def Begun (L : Layout) (perm : Pte) (va : BitVec 64) (procs : List ℕ) (p : ℕ) (s : Phys) : Prop :=
  ∃ v, Rooted L procs s v ∧ Common L perm va procs [p] (fun _ => 0) s

lemma content_zero (hz : ∀ f, target (look s pd va) = some f → ∀ i, s.mem f i = 0) : content s pd va = 0 := by
  unfold content
  split
  · next f hf => rw [readByte, hz f hf]; simp
  · rfl

lemma Rooted.begin (hg : Rooted L procs s v) (hp : p ∈ procs) (hk : SharedPerm perm) (hpage : SamePage va va2)
    (he : Edit L s v p va2 w s' v') (hf : Fill L s perm w) (hz : ∀ f, target w = some f → ∀ i, s'.mem f i = 0) :
    Begun L perm va procs p s' := by
  refine ⟨v', hg.edit hp he, Common.placed hg hp he hk hpage hf hk.lt (fun _ _ _ => rfl) (by simp) (by simp)
    fun va' hp' _ => content_zero fun f ht => hz f ?_⟩
  rwa [he.look hg.inv.shape (hg.roots ▸ hp), put, if_pos ⟨rfl, samePage_trans hp' hpage⟩] at ht

section Maps

variable (hp : p ∈ procs) (hk : SharedPerm perm)
include hp hk

lemma Awaited.mapPage (h : Awaited L perm va procs p s) (va2 : BitVec 64) :
    wp (mapPage p perm va2) (fun _ s' => Awaited L perm va procs p s' ∧
      (SamePage va va2 ∨ Begun L perm va procs p s → Begun L perm va procs p s')) NotRefZero s := by
  obtain ⟨v, hg, hst⟩ := h
  refine wp_mono (hg.mapPage (hg.roots ▸ hp) hk.lt hk.valid) fun _ s' h' => ?_
  rcases h' with ⟨hne, rfl⟩ | ⟨v', w, -, hf, he, hz⟩
  · refine ⟨⟨v, hg, hst⟩, fun hor => hor.elim (fun hpage => ⟨v, hg, hst.resolve_left fun h0 => hne ?_⟩) id⟩
    rwa [← hpage.look s' p]
  · by_cases hpage : SamePage va va2
    · have hb := hg.begin hp hk hpage he hf hz
      exact ⟨hb.imp fun _ hb => ⟨hb.1, .inr hb.2⟩, fun _ => hb⟩
    · have hg' := hg.edit hp he
      have hkeep : ∀ {mem}, Common L perm va procs [p] mem s → Common L perm va procs [p] mem s' := fun hc =>
        hc.edit hg hp he fun hin => hpage hin.2
      refine ⟨⟨v', hg', hst.imp (fun h0 => ?_) hkeep⟩, fun hor => ?_⟩
      · rwa [he.look hg.inv.shape (hg.roots ▸ hp), put, if_neg fun hin => hpage hin.2]
      · obtain ⟨-, -, hc⟩ := hor.resolve_left hpage
        exact ⟨v', hg', hkeep hc⟩

lemma Awaited.sysMap (h : Awaited L perm va procs p s)
    (hr : Reached (· < mapEnd start len) (pgRoundDown start) va) :
    wp (sysMap p start len perm) (fun _ s' => Begun L perm va procs p s') NotRefZero s := by
  refine wp_seq (wp_whilePages_hit (I := Awaited L perm va procs p) _ hr h (fun va2 s hI => ?_)
    (fun va2 s hP => ?_) fun s hI => ?_) fun _ _ h' => wp_pure.mpr h'
  · exact wp_mono (hI.mapPage hp hk va2) fun _ _ h' => h'.1
  · have hI : Awaited L perm va procs p s := hP.imp fun _ hb => ⟨hb.1, .inr hb.2⟩
    exact wp_mono (hI.mapPage hp hk va2) fun _ _ h' => h'.2 (.inr hP)
  · exact wp_mono (hI.mapPage hp hk va) fun _ _ h' => h'.2 (.inl (samePage_refl va))

end Maps

lemma sharedPerm_mmapPerm (hs : flags &&& mapShared ≠ 0) : SharedPerm (mmapPerm prot flags) := by
  obtain ⟨hcow, hsh⟩ := mmapPerm_bits prot flags
  refine ⟨mmapPerm_lt .., mmapPerm_V .., hcow, hsh.trans (decide_eq_true hs), ?_⟩
  unfold mmapPerm getPermByProt
  split <;> split <;> split <;> split <;> decide

def MapsShared (mmapAddr start len : BitVec 64) (flags : BitVec 32) (va : BitVec 64) : Prop :=
  flags &&& mapAnonymous ≠ 0 ∧ flags &&& mapShared ≠ 0 ∧ pgRoundUpVa len ≠ 0 ∧ ∃ first newAddr,
    mmapStart mmapAddr (pgRoundUpVa start) (pgRoundUpVa len) = some (first, newAddr) ∧
      Reached (· < mapEnd first (pgRoundUpVa len)) (pgRoundDown first) va

lemma Walled.mmapShared (h : Walled L s v []) (hr : v.roots = procs) (hp : p ∈ procs)
    {file : Option (List Byte)} {off : BitVec 32} (hm : MapsShared mmapAddr start len flags va)
    (h0 : pteToPa (look s p va) = 0) :
    wp ((Call.mmap start len prot flags file off).exec p brk mmapAddr)
      (fun _ s' => Common L (mmapPerm prot flags) va procs [p] (fun _ => 0) s') NotRefZero s := by
  obtain ⟨ha, hs, hlen, first, newAddr, hstart, hreach⟩ := hm
  have hwait : Awaited L (mmapPerm prot flags) va procs p s := ⟨v, h.rooted hr, .inl h0⟩
  simp only [Call.exec, sysMmap, hstart, if_neg hlen, if_pos ha, wp_bind, wp_pure]
  refine wp_mono (hwait.sysMap hp (sharedPerm_mmapPerm hs) hreach) ?_
  rintro _ _ ⟨_, _, hc⟩
  exact hc

structure Clan where
  sys : Sharing
  members : List ℕ
  mem : BitVec 64 → Byte

namespace Clan

def nextMembers (y : Clan) (x' : Sharing) : Life → List ℕ
  | .doing (.fork q) => if q ∈ y.members then x'.users.procs.head?.toList ++ y.members else y.members
  | _ => y.members

def nextMem (va : BitVec 64) (y : Clan) : Life → BitVec 64 → Byte
  | .store q va' b ok => if ok = true ∧ q ∈ y.members ∧ SamePage va' va then Function.update y.mem va' b else y.mem
  | _ => y.mem

def Step (img : Image L) (va : BitVec 64) (y : Clan) (l : Life) (y' : Clan) : Prop :=
  l.Step img y.sys y'.sys ∧ y'.members = y.nextMembers y'.sys l ∧ y'.mem = y.nextMem va l

def Keeps (va : BitVec 64) (y : Clan) : Life → Prop
  | .doing (.fork q) => q ∈ y.members → has (look y.sys.users.phys q va) pteV = true
  | .doing (.call q c) => q ∈ y.members → ¬ c.Covers (y.sys.users.brk q) (y.sys.users.mmapAddr q) va
  | _ => True

end Clan

variable {y y' : Clan} {l : Life}

structure United (L : Layout) (perm : Pte) (va : BitVec 64) (y : Clan) (v : View) : Prop where
  marked : Marked L y.sys v
  common : Common L perm va y.sys.users.procs y.members y.mem y.sys.users.phys

lemma United.step (h : United L perm va y v) (hfix : ¬ Fixed va) (hstep : y.Step img va l y')
    (hc : l.Careful L y.sys) (hk : y.Keeps va l) : ∃ v', United L perm va y' v' := by
  obtain ⟨x', members', mem'⟩ := y'
  obtain ⟨hstep, hmem, hstore⟩ := hstep
  change l.Step img y.sys x' at hstep
  change members' = y.nextMembers x' l at hmem
  change mem' = y.nextMem va l at hstore
  subst hmem hstore
  obtain ⟨v', hv'⟩ := h.marked.live hstep hc
  refine ⟨v', hv', ?_⟩
  have hw := h.marked.walled
  have hr := h.marked.roots
  change Common L perm va x'.users.procs (y.nextMembers x' l) (y.nextMem va l) x'.users.phys
  cases hstep with
  | doing hd =>
    next d =>
    obtain ⟨ha, hx⟩ := hd
    cases d with
    | spawn brk mmapAddr =>
      obtain ⟨c, s, rfl, h'⟩ := ok_of_runWith (h.common.spawn img hw hr) hx
      exact h'
    | fork p =>
      obtain ⟨c, s, rfl, h'⟩ := ok_of_runWith (h.common.fork img hw hr ha hfix hk) hx
      exact h'
    | call p c =>
      obtain ⟨a, s, rfl, h'⟩ := ok_of_runWith (h.common.call hw hr ha hk) hx
      exact h'
  | load hp hva hrun =>
    have h' := wp_of_ok (h.common.userLoad hw hr hp) hrun
    exact h'
  | store hp hva hrun =>
    have h' := wp_of_ok (h.common.userStore hw hr hp hva) hrun
    exact h'

lemma mmapPerm_access (prot flags : BitVec 32) : has (mmapPerm prot flags) pteR = decide (prot &&& protRead ≠ 0) ∧
    has (mmapPerm prot flags) pteW = decide (prot &&& protWrite ≠ 0) := by
  unfold mmapPerm getPermByProt
  by_cases hr : prot &&& protRead ≠ 0 <;> by_cases hw : prot &&& protWrite ≠ 0
  · rw [if_pos hr, if_pos hw, decide_eq_true hr, decide_eq_true hw]
    split <;> split <;> decide
  · rw [if_pos hr, if_neg hw, decide_eq_true hr, decide_eq_false hw]
    split <;> split <;> decide
  · rw [if_neg hr, if_pos hw, decide_eq_false hr, decide_eq_true hw]
    split <;> split <;> decide
  · rw [if_neg hr, if_neg hw, decide_eq_false hr, decide_eq_false hw]
    split <;> split <;> decide

section Loads

variable (h : United L perm va y v) (hu : 0 < L.pageused) (hq : q ∈ y.members) {va' : BitVec 64}
  (hp : SamePage va' va) (hva : va'.toNat < 2 ^ 38)
include h hu hq hp hva

lemma United.load (hR : has perm pteR = true) :
    wp (userLoad q va') (fun r _ => r = some (y.mem va')) OutOfMemory y.sys.users.phys := by
  rw [← h.common.bytes q va' hq hp hva]
  refine h.marked.walled.load_content hu (h.marked.roots ▸ h.common.live q hq) ?_
  have hb := h.common.bits q hq
  rw [hp.look]
  exact ⟨(hb 4 (by decide) (by decide)).trans h.common.kind.user, .inl ((hb 1 (by decide) (by decide)).trans hR)⟩

lemma United.store (hW : has perm pteW = true) (b : Byte) :
    wp (userStore q va' b) (fun ok _ => ok = true) OutOfMemory y.sys.users.phys := by
  have hroot : q ∈ v.roots := h.marked.roots ▸ h.common.live q hq
  have hw := h.marked.walled
  refine wp_mono (wp_outOfMemory ((walled_stable _ _).userStore hw hroot hva) (hw.wp_userStore hu hroot))
    fun ok _ hok => hok.1 ?_
  have hb := h.common.bits q hq
  rw [hp.look]
  exact ⟨(hb 4 (by decide) (by decide)).trans h.common.kind.user, .inl ((hb 2 (by decide) (by decide)).trans hW)⟩

end Loads

theorem touched_shared_pages_stay_shared (b : Board) (img : Image b.layout) (mem : ℕ → ℕ → BitVec 64) :
    wp (boot b) (fun _ s => ∀ ls x, Run (fun x l x' => Life.Step img x l x' ∧ l.Careful b.layout x) (.start s) ls x →
      ∀ p start len prot flags file off x', Doing.Step img x (.call p (.mmap start len prot flags file off)) x' →
      ∀ va, MapsShared (x.users.mmapAddr p) start len flags va → pteToPa (look x.users.phys p va) = 0 → ¬ Fixed va →
      ∀ ls' y, Run (fun y l y' => Clan.Step img va y l y' ∧ l.Careful b.layout y.sys ∧ y.Keeps va l)
          ⟨x', [p], fun _ => 0⟩ ls' y →
        ∀ q ∈ y.members, ∀ va', SamePage va' va → va'.toNat < 2 ^ 38 →
          (prot &&& protRead ≠ 0 →
            wp (userLoad q va') (fun r _ => r = some (y.mem va')) OutOfMemory y.sys.users.phys) ∧
          (prot &&& protWrite ≠ 0 → ∀ b, wp (userStore q va' b) (fun ok _ => ok = true) OutOfMemory y.sys.users.phys))
      NotRefZero (powerOn b mem) := by
  refine wp_mono (wp_boot_live b img mem) fun _ s hboot ls x hrun p start len prot flags file off x' hmap va hm h0
    hfix ls' y hrun' q hq va' hp hva => ?_
  obtain ⟨v, hv⟩ := hboot ls x hrun
  obtain ⟨v', hv'⟩ := hv.step hmap trivial
  have hstart : United b.layout (mmapPerm prot flags) va ⟨x', [p], fun _ => 0⟩ v' := by
    refine ⟨hv', ?_⟩
    obtain ⟨ha, hx⟩ := hmap
    obtain ⟨a, s, rfl, hc⟩ := ok_of_runWith (hv.walled.mmapShared hv.roots ha hm h0) hx
    exact hc
  obtain ⟨v₂, hy⟩ := hrun'.invariant (P := fun y => ∃ v, United b.layout (mmapPerm prot flags) va y v) ⟨v', hstart⟩
    fun y l y' ⟨v, hv⟩ hstep => hv.step hfix hstep.1 hstep.2.1 hstep.2.2
  obtain ⟨hR, hW⟩ := mmapPerm_access prot flags
  exact ⟨fun hr => hy.load img.used_pos hq hp hva (hR.trans (decide_eq_true hr)),
    fun hw => hy.store img.used_pos hq hp hva (hW.trans (decide_eq_true hw))⟩

def untouchedVa : BitVec 64 := 0x3000000

def forkUntouched : List Life :=
  [.doing (.spawn 0 0), .doing (.call 4 (.mmap untouchedVa 4096 readWrite (mapAnonymous ||| mapShared) none 0)),
    .doing (.fork 4), .store 4 untouchedVa 0xaa true, .load 4 untouchedVa (some 0xaa), .load 10 untouchedVa (some 0)]

theorem untouched_shared_page_splits :
    ∃ x, Run (Life.Step smallImage) (.start smallMachine) forkUntouched x ∧ x.users.procs = [10, 4] := by
  have hrun : runLives smallImage (fun x => x.users.procs == [10, 4]) (.start smallMachine) forkUntouched = true := by
    decide +kernel
  obtain ⟨x, hr, h⟩ := run_of_runLives hrun
  exact ⟨x, hr, eq_of_beq h⟩

end FarmOS.Mm

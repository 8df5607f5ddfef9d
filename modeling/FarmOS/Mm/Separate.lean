import FarmOS.Lib.Run
import FarmOS.Mm.Spawn

/-! Fork gives every process its own memory: every run of processes refines one abstract memory per
process. -/

namespace FarmOS.Mm

open Lib Function List

structure Machine where
  phys : Phys
  procs : List ℕ

inductive Act
  | spawn (c : ℕ) (init : BitVec 64 → Byte)
  | mapPassive (p : ℕ) (va : BitVec 64) (perm : Pte)
  | loadData (p : ℕ) (va : BitVec 64) (offset : ℕ) (perm : Pte) (src : List Byte)
  | fork (p c : ℕ)
  | load (p : ℕ) (va : BitVec 64) (b : Option Byte)
  | store (p : ℕ) (va : BitVec 64) (b : Byte) (ok : Bool)
  | copyIn (p : ℕ) (uptr : BitVec 64) (len : ℕ) (data : List Byte)
  | copyOut (p : ℕ) (uptr : BitVec 64) (data : List Byte)

structure UserPerm (perm : Pte) : Prop where
  lt : perm.toNat < 1024
  valid : has perm pteV = false
  cow : has perm pteCow = false

inductive Act.Step {L : Layout} (img : Image L) (m : Machine) : Act → Machine → Prop
  | spawn {c : ℕ} {s : Phys} : (procInitupt img).run m.phys = .ok (c, s) →
      Step img m (.spawn c (content s c)) ⟨s, c :: m.procs⟩
  | mapPassive {p : ℕ} {va : BitVec 64} {perm : Pte} {r : ℤ} {s : Phys} : p ∈ m.procs → UserPerm perm →
      has (look m.phys p va) pteV = false → (ptMap p va 0 perm).run m.phys = .ok (r, s) →
        Step img m (.mapPassive p va perm) ⟨s, m.procs⟩
  | loadData {p : ℕ} {va : BitVec 64} {offset : ℕ} {perm : Pte} {src : List Byte} {r : ℤ} {s : Phys} :
      p ∈ m.procs → UserPerm perm → has (look m.phys p va) pteV = false →
      offset + src.length ≤ pageSize → (loadDataMapper p va offset perm src).run m.phys = .ok (r, s) →
      Step img m (.loadData p va offset perm src) ⟨s, m.procs⟩
  | fork {p c : ℕ} {s : Phys} : p ∈ m.procs → (procFork img p).run m.phys = .ok (c, s) →
      Step img m (.fork p c) ⟨s, c :: m.procs⟩
  | load {p : ℕ} {va : BitVec 64} {res : Option Byte} {s : Phys} : p ∈ m.procs → va.toNat < 2 ^ 38 →
      (userLoad p va).run m.phys = .ok (res, s) → Step img m (.load p va res) ⟨s, m.procs⟩
  | store {p : ℕ} {va : BitVec 64} {b : Byte} {ok : Bool} {s : Phys} : p ∈ m.procs → va.toNat < 2 ^ 38 →
      (userStore p va b).run m.phys = .ok (ok, s) → Step img m (.store p va b ok) ⟨s, m.procs⟩
  | copyIn {p : ℕ} {uptr : BitVec 64} {len : ℕ} {data : List Byte} {s : Phys} : p ∈ m.procs →
      Accessible m.phys false p uptr len →
      (Mm.copyIn p uptr len).run m.phys = .ok (data, s) → Step img m (.copyIn p uptr len data) ⟨s, m.procs⟩
  | copyOut {p : ℕ} {uptr : BitVec 64} {data : List Byte} {s : Phys} : p ∈ m.procs →
      Accessible m.phys true p uptr data.length →
      (Mm.copyOut p uptr data).run m.phys = .ok ((), s) → Step img m (.copyOut p uptr data) ⟨s, m.procs⟩

variable {L : Layout} {img : Image L} {m m' : Machine} {p c q offset len : ℕ} {va uptr : BitVec 64} {perm w : Pte}
  {src data : List Byte} {b : Byte} {ok : Bool} {res : Option Byte} {r : ℤ} {s s' : Phys} {v v' : View} {act : Act}
  {hit : BitVec 64 → Option Byte} {g : BitVec 64 → Byte}

abbrev Memory := ℕ → BitVec 64 → Byte

def Act.apply (a : Memory) : Act → Memory
  | spawn c init => update a c init
  | mapPassive p va _ => update a p fun va' => if SamePage va' va then 0 else a p va'
  | loadData p va offset _ src =>
    update a p fun va' => if SamePage va' va then loaded offset src va' else a p va'
  | fork p c => update a c (a p)
  | load _ _ _ | copyIn _ _ _ _ => a
  | store p va b ok => if ok then update a p (update (a p) va b) else a
  | copyOut p uptr data => update a p fun va => (covers uptr.toNat data va).getD (a p va)

def Act.writer : Act → Option ℕ
  | mapPassive p _ _ | loadData p _ _ _ _ | store p _ _ _ | copyOut p _ _ => some p
  | spawn _ _ | fork _ _ | load _ _ _ | copyIn _ _ _ _ => none

def Act.mapper : Act → Option ℕ
  | mapPassive p _ _ | loadData p _ _ _ _ => some p
  | _ => none

def Visible (m : Machine) (p : ℕ) (va : BitVec 64) : Prop :=
  va.toNat < 2 ^ 38 ∧ has (look m.phys p va) pteU = true ∧ ¬ Shared (look m.phys p va)

def Act.Returns (m : Machine) (a : Memory) (m' : Machine) : Act → Prop
  | load p va res => (Usable false (look m.phys p va) → res ≠ none) ∧
      ∀ b, res = some b → ¬ Shared (look m.phys p va) → b = a p va
  | copyIn p uptr len data => data.length = len ∧ ∀ i, i < len →
      ¬ Shared (look m.phys p (uptr + BitVec.ofNat 64 i)) → data[i]? = some (a p (uptr + BitVec.ofNat 64 i))
  | store p va _ ok => Usable true (look m.phys p va) → ok = true
  | fork p c => c ∉ m.procs ∧ ∀ va, Visible m' c va ↔ Visible m p va
  | _ => True

structure Refined (L : Layout) (img : Image L) (m : Machine) (a : Memory) (v : View) : Prop where
  inner : Sealed L img m.phys v []
  roots : v.roots = m.procs
  agree (p : ℕ) (va : BitVec 64) : p ∈ m.procs → Visible m p va → content m.phys p va = a p va

structure Settled (L : Layout) (img : Image L) (m : Machine) (a : Memory) (act : Act) (m' : Machine) : Prop where
  refined : ∃ v, Refined L img m' (act.apply a) v
  returns : act.Returns m a m'
  stays (q : ℕ) (va : BitVec 64) : q ∈ m.procs → act.mapper ≠ some q → Visible m q va → Visible m' q va
  unseen (q : ℕ) (va : BitVec 64) : q ∈ m.procs → act.writer ≠ some q → Visible m q va →
    content m'.phys q va = content m.phys q va

lemma covers_singleton (va : BitVec 64) (b : Byte) (g : BitVec 64 → Byte) :
    (fun va' => (covers va.toNat [b] va').getD (g va')) = update g va b := by
  funext va'
  unfold covers
  by_cases he : va' = va
  · subst he
    rw [if_pos (Nat.le_refl _), Nat.sub_self, update_self]
    rfl
  · have hne : va'.toNat ≠ va.toNat := fun h' => he (BitVec.eq_of_toNat_eq h')
    rw [update_of_ne he]
    split
    · rw [getElem?_eq_none (by simp only [length_singleton]; omega), Option.getD_none]
    · rfl

lemma Visible.congr (h : Visible m p va) (hU : has (look m'.phys q va) pteU = has (look m.phys p va) pteU)
    (hS : has (look m'.phys q va) pteShared = has (look m.phys p va) pteShared) : Visible m' q va :=
  ⟨h.1, hU.trans h.2.1, by rw [Shared, hS]; exact h.2.2⟩

section Steps

variable {a : Memory} (h : Refined L img m a v)
include h

lemma Refined.stored (hp : p ∈ m.procs) (hs : Sealed L img s' v' [])
    (hr : v'.roots = v.roots) (hst : Stored v.roots p hit m.phys s') :
    Refined L img ⟨s', m.procs⟩ (update a p fun va => (hit va).getD (a p va)) v' := by
  refine ⟨hs, hr.trans h.roots, fun q va hq hvis => ?_⟩
  have hq' : q ∈ v.roots := h.roots ▸ hq
  have hold : Visible m q va := hvis.congr (hst.user q va hq').symm (hst.shared q va hq').symm
  rw [hst.content q va hq' hold.1 fun hs => hold.2.2 hs.1, h.agree q va hq hold]
  by_cases he : q = p
  · subst he
    rw [if_pos rfl, update_self]
  · rw [if_neg he, update_of_ne he]

lemma Refined.settle (hp : p ∈ m.procs) (hs : Sealed L img s' v' [])
    (hr : v'.roots = v.roots) (hst : Stored v.roots p hit m.phys s')
    (happ : act.apply a = update a p fun va => (hit va).getD (a p va))
    (hret : act.Returns m a ⟨s', m.procs⟩) (hw : act.writer = some p ∨ hit = fun _ => none) :
    Settled L img m a act ⟨s', m.procs⟩ := by
  refine ⟨⟨v', happ ▸ h.stored hp hs hr hst⟩, hret, fun q va hq _ hvis => ?_, fun q va hq hne hvis => ?_⟩
  · have hq' : q ∈ v.roots := h.roots ▸ hq
    exact hvis.congr (hst.user q va hq') (hst.shared q va hq')
  · rw [hst.content q va (h.roots.symm ▸ hq) hvis.1 fun hs => hvis.2.2 hs.1]
    rcases hw with hw | hw
    · have hqp : q ≠ p := fun he => hne (he ▸ hw)
      exact if_neg hqp
    · rw [hw, Option.getD_none, ite_self]

lemma Refined.mapped (hp : p ∈ m.procs) (hV : has (look m.phys p va) pteV = false)
    (hm : Mapping L m.phys v [] p va w s' v')
    (hg : ∀ va', SamePage va' va → content s' p va' = g va') : Refined L img ⟨s', m.procs⟩
      (update a p fun va' => if SamePage va' va then g va' else a p va') v' := by
  have hp' : p ∈ v.roots := h.roots ▸ hp
  refine ⟨?_, hm.roots.trans h.roots, fun q va' hq ⟨hlt, hU, hsh⟩ => ?_⟩
  · refine h.inner.of_fixed hm.walled hm.roots hm.ad fun r va' hr hfix => ?_
    rw [hm.look r va' hr, put, if_neg fun he => h.inner.fixed_page hp' (.inr hV) (hfix.page he.2)]
  · have hq' : q ∈ v.roots := h.roots ▸ hq
    by_cases he : q = p ∧ SamePage va' va
    · obtain ⟨rfl, hpage⟩ := he
      rw [hg va' hpage, update_self, if_pos hpage]
    · have hlook : look s' q va' = look m.phys q va' := by rw [hm.look q va' hq', put, if_neg he]
      rw [hlook] at hU hsh
      rw [hm.content q va' hq' he, h.agree q va' hq ⟨hlt, hU, hsh⟩]
      by_cases hqp : q = p
      · subst hqp
        rw [update_self, if_neg fun hpage => he ⟨rfl, hpage⟩]
      · rw [update_of_ne hqp]

lemma Refined.settle_mapped (hp : p ∈ m.procs) (hV : has (look m.phys p va) pteV = false)
    (hm : Mapping L m.phys v [] p va w s' v')
    (hg : ∀ va', SamePage va' va → content s' p va' = g va')
    (happ : act.apply a = update a p fun va' => if SamePage va' va then g va' else a p va')
    (hret : act.Returns m a ⟨s', m.procs⟩) (hw : act.writer = some p) (hmap : act.mapper = some p) :
    Settled L img m a act ⟨s', m.procs⟩ := by
  refine ⟨⟨v', happ ▸ h.mapped hp hV hm hg⟩, hret, fun q va' hq hne hvis => ?_, fun q va' hq hne _ => ?_⟩
  · have hqp : q ≠ p := fun he => hne (he ▸ hmap)
    have hlook : look s' q va' = look m.phys q va' := by
      rw [hm.look q va' (h.roots ▸ hq), put, if_neg fun he => hqp he.1]
    exact hvis.congr (congrArg (has · pteU) hlook) (congrArg (has · pteShared) hlook)
  · exact hm.content q va' (h.roots ▸ hq) fun he => hne (he.1 ▸ hw)

lemma Refined.spawn (hrun : (procInitupt img).run m.phys = .ok (c, s)) :
    Settled L img m a (.spawn c (content s c)) ⟨s, c :: m.procs⟩ := by
  obtain ⟨v', hst⟩ := wp_of_ok h.inner.procInitupt hrun
  obtain ⟨e, hsp⟩ := hst.spawned
  have hold : ∀ {q}, q ∈ m.procs → q ∈ v.roots ∧ q ≠ c := fun hq =>
    ⟨h.roots.symm ▸ hq, fun he => hsp.new (he ▸ h.roots.symm ▸ hq)⟩
  refine ⟨⟨v', hst.inner, hsp.roots.trans (by rw [h.roots]), fun q va hq hvis => ?_⟩, trivial,
    fun q va hq _ hvis => ?_, fun q va hq _ _ => hsp.content q va (hold hq).1⟩
  · rcases mem_cons.mp hq with rfl | hq
    · rw [Act.apply, update_self]
    · obtain ⟨hr, hne⟩ := hold hq
      have hvis' : Visible m q va := hvis.congr (by rw [hsp.look q va hr]) (by rw [hsp.look q va hr])
      rw [hsp.content q va hr, h.agree q va hq hvis', Act.apply, update_of_ne hne]
  · have hlook := hsp.look q va (hold hq).1
    exact hvis.congr (congrArg (has · pteU) hlook) (congrArg (has · pteShared) hlook)

section

variable (hp : p ∈ m.procs)
include hp

lemma Refined.fork (hrun : (procFork img p).run m.phys = .ok (c, s)) :
    Settled L img m a (.fork p c) ⟨s, c :: m.procs⟩ := by
  obtain ⟨v', hf⟩ := wp_of_ok (h.inner.procFork (h.roots.symm ▸ hp)) hrun
  have hold : ∀ {q}, q ∈ m.procs → q ∈ v.roots ∧ q ≠ c := fun hq =>
    ⟨h.roots.symm ▸ hq, fun he => hf.new (he ▸ h.roots.symm ▸ hq)⟩
  have hkid : ∀ va, Visible ⟨s, c :: m.procs⟩ c va → Visible m p va := fun va hvis =>
    hvis.congr (hf.child_user va).symm (hf.child_shared va hvis.2.1).symm
  refine ⟨⟨v', hf.inner, hf.roots.trans (by rw [h.roots]), fun q va hq hvis => ?_⟩,
    ⟨h.roots ▸ hf.new, fun va => ⟨hkid va, fun hvis => ?_⟩⟩, fun q va hq _ hvis => ?_,
    fun q va hq _ _ => hf.content q va (hold hq).1⟩
  · rcases mem_cons.mp hq with rfl | hq
    · rw [hf.child_content va hvis.2.1, h.agree p va hp (hkid va hvis), Act.apply, update_self]
    · obtain ⟨hr, hne⟩ := hold hq
      have hvis' : Visible m q va := hvis.congr (hf.user q va hr).symm (hf.shared q va hr).symm
      rw [hf.content q va hr, h.agree q va hq hvis', Act.apply, update_of_ne hne]
  · exact hvis.congr (hf.child_user va) (hf.child_shared va ((hf.child_user va).trans hvis.2.1))
  · exact hvis.congr (hf.user q va (hold hq).1) (hf.shared q va (hold hq).1)

lemma Refined.mapPassive (hperm : UserPerm perm) (hV : has (look m.phys p va) pteV = false)
    (hrun : (ptMap p va 0 perm).run m.phys = .ok (r, s)) :
    Settled L img m a (.mapPassive p va perm) ⟨s, m.procs⟩ := by
  have hp' : p ∈ v.roots := h.roots ▸ hp
  obtain ⟨-, v', hm⟩ := wp_of_ok (h.inner.mapPassive hp' hperm.lt hperm.valid hperm.cow) hrun
  refine h.settle_mapped hp hV hm (g := fun _ => 0) (fun va' hpage => ?_) rfl trivial rfl rfl
  unfold content
  rw [hm.look p va' hp', put, if_pos ⟨rfl, hpage⟩, target_of_not_V hperm.valid]

lemma Refined.loadData (hperm : UserPerm perm) (hV : has (look m.phys p va) pteV = false)
    (hrun : (loadDataMapper p va offset perm src).run m.phys = .ok (r, s)) :
    Settled L img m a (.loadData p va offset perm src) ⟨s, m.procs⟩ := by
  obtain ⟨-, v', f, hm, hg⟩ := wp_of_ok (h.inner.loadDataMapper (h.roots ▸ hp) hperm.lt hperm.cow) hrun
  exact h.settle_mapped hp hV hm hg rfl trivial rfl rfl

lemma Refined.load (hva : va.toNat < 2 ^ 38)
    (hrun : (userLoad p va).run m.phys = .ok (res, s)) : Settled L img m a (.load p va res) ⟨s, m.procs⟩ := by
  obtain ⟨v', hc, hb, hus⟩ := wp_of_ok (h.inner.userLoad (h.roots.symm ▸ hp)) hrun
  refine h.settle hp hc.inner hc.roots (hc.quiet.stored p) (update_eq_self p a).symm
    ⟨hus, fun b hres hsh => ?_⟩ (.inr rfl)
  obtain ⟨hb, hU⟩ := hb b hres
  rw [hb, h.agree p va hp ⟨hva, hU, hsh⟩]

lemma Refined.store (hva : va.toNat < 2 ^ 38)
    (hrun : (userStore p va b).run m.phys = .ok (ok, s)) : Settled L img m a (.store p va b ok) ⟨s, m.procs⟩ := by
  obtain ⟨hus, v', hs, hr, hst⟩ := wp_of_ok ((sealed_stable img _).userStore h.inner (h.roots.symm ▸ hp) hva) hrun
  refine h.settle hp hs hr hst ?_ hus (.inl rfl)
  cases ok with
  | true =>
    rw [if_pos rfl, covers_singleton]
    rfl
  | false => exact (update_eq_self p a).symm

lemma Refined.copyOut (ha : Accessible m.phys true p uptr data.length)
    (hrun : (copyOut p uptr data).run m.phys = .ok ((), s)) :
    Settled L img m a (.copyOut p uptr data) ⟨s, m.procs⟩ := by
  obtain ⟨v', hs, hr, hst⟩ := wp_of_ok (h.inner.copyOut (h.roots.symm ▸ hp) ha) hrun
  exact h.settle hp hs hr hst rfl trivial (.inl rfl)

lemma Refined.copyIn (ha : Accessible m.phys false p uptr len)
    (hrun : (copyIn p uptr len).run m.phys = .ok (data, s)) :
    Settled L img m a (.copyIn p uptr len data) ⟨s, m.procs⟩ := by
  obtain ⟨hd, v', hc⟩ := wp_of_ok (h.inner.copyIn (h.roots.symm ▸ hp) ha) hrun
  refine h.settle hp hc.inner hc.roots (hc.quiet.stored p) (update_eq_self p a).symm
    ⟨?_, fun i hi hsh => ?_⟩ (.inr rfl)
  · rw [hd, contents, length_map, length_range]
  · have hlt := ha.1
    have hadd : (uptr + BitVec.ofNat 64 i).toNat = uptr.toNat + i := toNat_add_ofNat (by omega)
    have hvis : Visible m p (uptr + BitVec.ofNat 64 i) := ⟨by omega, (ha.2 i hi).1, hsh⟩
    rw [hd, contents, getElem?_map, getElem?_range hi, Option.map_some, h.agree p _ hp hvis]

end

lemma Refined.step (hstep : act.Step img m m') : Settled L img m a act m' := by
  cases hstep with
  | spawn hrun => exact h.spawn hrun
  | mapPassive hp hperm hV hrun => exact h.mapPassive hp hperm hV hrun
  | loadData hp hperm hV _ hrun => exact h.loadData hp hperm hV hrun
  | fork hp hrun => exact h.fork hp hrun
  | load hp hva hrun => exact h.load hp hva hrun
  | store hp hva hrun => exact h.store hp hva hrun
  | copyIn hp ha hrun => exact h.copyIn hp ha hrun
  | copyOut hp ha hrun => exact h.copyOut hp ha hrun

lemma Refined.cow_readonly {pd : ℕ} (hpd : pd = m.phys.kernPd ∨ pd ∈ m.procs) (va : BitVec 64) :
    ¬ (has (look m.phys pd va) pteCow = true ∧ has (look m.phys pd va) pteW = true) := by
  rcases hpd with rfl | hpd
  · rw [h.inner.kern va]
    simp
  · exact (h.inner.iso.sober pd va (h.roots.symm ▸ hpd)).cow

end Steps

def memoryOf (acts : List Act) : Memory := acts.foldl Act.apply fun _ _ => 0

lemma Kernel.refined (h : Kernel L s v) (img : Image L) : Refined L img ⟨s, []⟩ (fun _ _ => 0) v :=
  ⟨h.sealed img, h.roots, fun _ _ hp => absurd hp not_mem_nil⟩

theorem processes_have_own_memory (b : Board) (img : Image b.layout) (mem : ℕ → ℕ → BitVec 64) :
    wp (boot b) (fun _ s => ∀ acts m, Run (fun m act m' => Act.Step img m act m') ⟨s, []⟩ acts m →
      (∀ p va, p ∈ m.procs → Visible m p va → content m.phys p va = memoryOf acts p va) ∧
      (∀ act m', Act.Step img m act m' → act.Returns m (memoryOf acts) m' ∧
        (∀ q va, q ∈ m.procs → act.mapper ≠ some q → Visible m q va → Visible m' q va) ∧
        ∀ q va, q ∈ m.procs → act.writer ≠ some q → Visible m q va →
          content m'.phys q va = content m.phys q va) ∧
      ∀ pd va, pd = m.phys.kernPd ∨ pd ∈ m.procs →
        ¬ (has (look m.phys pd va) pteCow = true ∧ has (look m.phys pd va) pteW = true))
      NotRefZero (powerOn b mem) := by
  refine wp_mono (wp_boot b mem) fun _ s ⟨v, hk⟩ acts m hrun => ?_
  obtain ⟨v', hr⟩ := hrun.folded (f := Act.apply) (R := fun m a => ∃ v, Refined b.layout img m a v)
    ⟨v, hk.refined img⟩ fun m act m' a ⟨v, hv⟩ hstep => (hv.step hstep).refined
  refine ⟨hr.agree, fun act m' hstep => ?_, fun pd va hpd => hr.cow_readonly hpd va⟩
  have hs := hr.step hstep
  exact ⟨hs.returns, hs.stays, hs.unseen⟩

end FarmOS.Mm

import FarmOS.Mm.TrapPages

/-! Which pages of two processes may be written once protections can change. Beside the machine the model
remembers, for every page of a process, whether it comes from a mapping made with `MAP_SHARED`. -/

namespace FarmOS.Mm

open FarmOS.Lib Function List

variable {ad flag : Bool} {old : Pte}

instance (va : BitVec 64) : Decidable (Fixed va) := inferInstanceAs (Decidable (_ ∨ _ ∨ _))

instance (w : Pte) : Decidable (Shared w) := inferInstanceAs (Decidable (_ = _))

structure Sharing where
  users : Users
  marks : ℕ → BitVec 64 → Bool

inductive Doing
  | spawn (brk mmapAddr : BitVec 64)
  | fork (p : ℕ)
  | call (p : ℕ) (c : Call)

def runWith {α β : Type} (c : M α) (s : Phys) (g : α → Phys → β) : Except Panic β :=
  match c.run s with
  | .ok (a, s') => .ok (g a s')
  | .error e => .error e

def Users.add (u : Users) (c : ℕ) (s : Phys) (brk mmapAddr : BitVec 64) : Users :=
  ⟨s, c :: u.procs, Function.update u.brk c brk, Function.update u.mmapAddr c mmapAddr⟩

def Call.marks (c : Call) (p : ℕ) (s s' : Phys) (marks : ℕ → BitVec 64 → Bool) (q : ℕ) (va : BitVec 64) : Bool :=
  match c with
  | .fault _ _ | .mprotect _ _ _ => marks q va
  | .mmap _ _ _ flags _ _ =>
    if q = p ∧ look s' p va ≠ look s p va then decide (flags &&& mapShared ≠ 0) else marks q va
  | .munmap _ _ | .brk _ => if q = p ∧ look s' p va ≠ look s p va then false else marks q va

namespace Doing

variable {L : Layout}

def exec (img : Image L) (x : Sharing) : Doing → Except Panic Sharing
  | spawn brk mmapAddr => runWith (procInitupt img) x.users.phys fun c s =>
      ⟨x.users.add c s brk mmapAddr, Function.update x.marks c fun _ => false⟩
  | fork p => runWith (procFork img p) x.users.phys fun c s =>
      ⟨x.users.add c s (x.users.brk p) (x.users.mmapAddr p),
        Function.update x.marks c fun va => x.marks p va && !decide (Fixed va)⟩
  | call p c => runWith (c.exec p (x.users.brk p) (x.users.mmapAddr p)) x.users.phys fun a s =>
      ⟨x.users.update p s a.1 a.2, c.marks p x.users.phys s x.marks⟩

def Allowed (x : Sharing) : Doing → Prop
  | spawn _ _ => True
  | fork p | call p _ => p ∈ x.users.procs

def Step (img : Image L) (x : Sharing) (d : Doing) (x' : Sharing) : Prop := d.Allowed x ∧ d.exec img x = .ok x'

end Doing

def Call.Careful (L : Layout) (u : Users) (p : ℕ) : Call → Prop
  | .mprotect addr len prot => ∀ va, Reached (· < mapEnd addr len) (pgRoundDown addr) va →
      ¬ Shared (look u.phys p va) ∧
      (prot &&& protWrite ≠ 0 → ∀ f, target (look u.phys p va) = some f → L.pageused ≤ f ∧
        ∀ q ∈ u.procs, ∀ va', target (look u.phys q va') = some f → q = p ∧ SamePage va' va)
  | _ => True

def Doing.Careful (L : Layout) (x : Sharing) : Doing → Prop
  | call p c => c.Careful L x.users p
  | _ => True

structure Walls (x : Sharing) : Prop where
  apart (p q : ℕ) (va va' : BitVec 64) (f : ℕ) : p ∈ x.users.procs → q ∈ x.users.procs → p ≠ q →
    target (look x.users.phys p va) = some f → target (look x.users.phys q va') = some f →
    ¬ (x.marks p va = true ∧ x.marks q va' = true) →
    has (look x.users.phys p va) pteW = false ∧ has (look x.users.phys q va') pteW = false
  marked (p : ℕ) (va : BitVec 64) : p ∈ x.users.procs → x.marks p va = true → Shared (look x.users.phys p va)
  unseen (p : ℕ) (va : BitVec 64) (b : Byte) (ok : Bool) (s' : Phys) : p ∈ x.users.procs → va.toNat < 2 ^ 38 →
    (userStore p va b).run x.users.phys = .ok (ok, s') → ∀ q va', q ∈ x.users.procs → q ≠ p →
    va'.toNat < 2 ^ 38 → ¬ x.marks q va' = true → content s' q va' = content x.users.phys q va'

variable {L : Layout} {img : Image L} {s s' s0 : Phys} {v v' : View} {pd p q f : ℕ} {procs : List ℕ}
  {va va' brk mmapAddr : BitVec 64} {w perm : Pte} {c : Call} {x x' : Sharing} {d : Doing}

section Edits

variable (h : Walled L s v []) (hpd : pd ∈ v.roots) (he : Edit L s v pd va w s' v')
include h hpd he

lemma Walled.edit (hf : Fresh L v.roots (look s) pd va w) : Walled L s' v' [] := by
  refine h.rewritten he.rewritten (h.iso.put hf) (fun r va' f hr ht => ?_) fun va' => h.put_kern hpd
  unfold put at ht
  split at ht
  · exact (he.page f ht).imp (fun hold => ⟨pd, hpd, va, hold⟩) fun hnew => hnew.2.2.2
  · exact .inl ⟨r, hr, va', ht⟩

lemma Walled.place (hq : w = mkPte s.ad (pageToPa q) perm) (hu : Unused L s q) (hperm : perm.toNat < 1024)
    (hcow : ¬ (has perm pteCow = true ∧ has perm pteW = true)) : Walled L s' v' [] := by
  subst hq
  exact h.edit hpd he (h.fresh_entry hu.1 hu.2.1 hu.2.2 hperm hcow)

lemma Walled.fill (hf : Fill L s perm w) (hperm : perm.toNat < 1024) (hV : has perm pteV = false)
    (hc : has perm pteCow = false) : Walled L s' v' [] := by
  rcases hf with rfl | ⟨q, hw, hu⟩
  · exact h.edit hpd he (fresh_of_invalid L v.roots (look s) pd va hV hc hperm)
  · exact h.place hpd he hw hu hperm fun hcw => by rw [hc] at hcw; exact absurd hcw.1 nofun

lemma Walled.clear (h0 : w = 0) : Walled L s' v' [] := by
  subst h0
  exact h.edit hpd he (fresh_of_invalid L v.roots (look s) pd va (by decide) (by decide) (by decide))

lemma Walled.reperm (hw : Reperm s.ad (look s pd va) perm w) (hperm : perm.toNat < 1024) (hV : has perm pteV = false)
    (hc : has perm pteCow = false) (hsh : ¬ Shared (look s pd va))
    (hown : has perm pteW = true → ∀ f, target (look s pd va) = some f → L.pageused ≤ f ∧
      ∀ q ∈ v.roots, ∀ va', target (look s q va') = some f → q = pd ∧ SamePage va' va) : Walled L s' v' [] := by
  refine h.edit hpd he ?_
  rcases hw with ⟨hv, rfl⟩ | ⟨-, -, rfl⟩
  · obtain ⟨f, hf⟩ := (h.iso.sober pd va hpd).ram hv
    obtain ⟨⟨-, hb⟩, hfe⟩ := (target_eq_some_iff _ _).mp hf
    have ht : target (mkPte s.ad (pteToPa (look s pd va)) perm) = some f := by
      rw [target_mkPte _ _ hperm, if_pos hb, hfe]
    have hW : has (mkPte s.ad (pteToPa (look s pd va)) perm) pteW = has perm pteW :=
      has_mkPte s.ad _ perm (k := 2) (by decide) (by decide)
    have hC : has (mkPte s.ad (pteToPa (look s pd va)) perm) pteCow = false :=
      (has_mkPte s.ad _ perm (k := 8) (by decide) (by decide)).trans hc
    refine ⟨⟨?_, fun _ => has_V_mkPte .., fun _ => ⟨f, ht⟩, fun g hg hlt => ?_, fun g hcow => ?_, fun hn => ?_⟩,
      fun r va' g hr hne hg hg' => ?_⟩
    · rw [hC]
      simp
    · obtain rfl := Option.some.inj (ht.symm.trans hg)
      rw [hW]
      by_contra hw
      have := (hown (by simpa using hw) f hf).1
      omega
    · rw [hC] at hcow
      cases hcow
    · rw [has_V_mkPte] at hn
      cases hn
    · obtain rfl := Option.some.inj (ht.symm.trans hg)
      rw [hW]
      refine ⟨by_contra fun hw => hne ((hown (by simpa using hw) f hf).2 r hr va' hg'), by_contra fun hw => ?_⟩
      rcases h.iso.alone r va' pd va f hr hpd hg' hf (by simpa using hw) with he | he
      · exact hne he
      · exact hsh he.2
  · exact fresh_of_invalid L v.roots (look s) pd va hV hc hperm

end Edits

lemma getPermByProt_bits (prot : BitVec 32) : has (getPermByProt prot) pteCow = false ∧
    has (getPermByProt prot) pteShared = false ∧
    has (getPermByProt prot) pteW = decide (prot &&& protWrite ≠ 0) := by
  unfold getPermByProt
  by_cases hw : prot &&& protWrite ≠ 0
  · rw [if_pos hw, decide_eq_true hw]
    split <;> split <;> decide
  · rw [if_neg hw, decide_eq_false hw]
    split <;> split <;> decide

lemma mmapPerm_bits (prot flags : BitVec 32) : has (mmapPerm prot flags) pteCow = false ∧
    has (mmapPerm prot flags) pteShared = decide (flags &&& mapShared ≠ 0) := by
  unfold mmapPerm getPermByProt
  by_cases hs : flags &&& mapShared ≠ 0
  · rw [if_pos hs, decide_eq_true hs]
    split <;> split <;> split <;> decide
  · rw [if_neg hs, decide_eq_false hs]
    split <;> split <;> split <;> decide

lemma Fill.shared (hf : Fill L s perm w) : Shared w ↔ has perm pteShared = true := by
  rcases hf with rfl | ⟨q, rfl, -⟩
  · exact Iff.rfl
  · rw [Shared, show has (mkPte s.ad (pageToPa q) perm) pteShared = has perm pteShared from
      has_mkPte s.ad _ perm (k := 9) (by decide) (by decide)]

lemma Reperm.shared (h : Reperm ad old perm w) : Shared w ↔ has perm pteShared = true := by
  rcases h with ⟨-, rfl⟩ | ⟨-, -, rfl⟩
  · rw [Shared, show has (mkPte ad (pteToPa old) perm) pteShared = has perm pteShared from
      has_mkPte ad _ perm (k := 9) (by decide) (by decide)]
  · exact Iff.rfl

lemma Reperm.target (h : Reperm ad old perm w) (hperm : perm.toNat < 1024)
    (ho : Sober L old) : target w = target old := by
  rcases h with ⟨hV, rfl⟩ | ⟨hV, -, rfl⟩
  · rw [← ho.entry hV, ho.target_entry hV ad hperm]
  · rw [target_of_not_V hV, target_perm hperm]

structure Refilled (L : Layout) (procs : List ℕ) (p : ℕ) (flag : Bool) (s0 s : Phys) (v : View) : Prop where
  walled : Walled L s v []
  roots : v.roots = procs
  entries (q : ℕ) (va : BitVec 64) : q ∈ procs → look s q va = look s0 q va ∨
    q = p ∧ (Shared (look s p va) ↔ flag = true)

lemma Refilled.edit (h : Refilled L procs p flag s0 s v) (hw : Walled L s' v' [])
    (he : Edit L s v p va w s' v') (hsh : Shared w ↔ flag = true) : Refilled L procs p flag s0 s' v' := by
  refine ⟨hw, he.rewritten.kept.roots.trans h.roots, fun q va' hq => ?_⟩
  rw [he.look h.walled.inv.shape (h.roots ▸ hq), put]
  split
  · next hput =>
    refine .inr ⟨hput.1, ?_⟩
    rw [he.look h.walled.inv.shape (h.roots ▸ hput.1 ▸ hq), put, if_pos ⟨rfl, hput.2⟩]
    exact hsh
  · next hput =>
    refine (h.entries q va' hq).imp_right fun hs => ⟨hs.1, ?_⟩
    rw [he.look h.walled.inv.shape (h.roots ▸ hs.1 ▸ hq), put, if_neg (hs.1 ▸ hput)]
    exact hs.2

structure Reprotected (L : Layout) (procs : List ℕ) (s0 s : Phys) (v : View) : Prop where
  walled : Walled L s v []
  roots : v.roots = procs
  target (q : ℕ) (va : BitVec 64) : q ∈ procs → target (look s q va) = Mm.target (look s0 q va)
  shared (q : ℕ) (va : BitVec 64) : q ∈ procs → (Shared (look s q va) ↔ Shared (look s0 q va))

lemma Reprotected.edit (h : Reprotected L procs s0 s v) (hp : p ∈ procs) (he : Edit L s v p va w s' v')
    {prot : BitVec 32}
    (hw : Reperm s.ad (look s p va) (getPermByProt prot) w) (hsh : ¬ Shared (look s0 p va))
    (hown : prot &&& protWrite ≠ 0 → ∀ f, Mm.target (look s0 p va) = some f → L.pageused ≤ f ∧
      ∀ q ∈ procs, ∀ va', Mm.target (look s0 q va') = some f → q = p ∧ SamePage va' va) :
    Reprotected L procs s0 s' v' := by
  have hs := h.walled.inv.shape
  have hroot : p ∈ v.roots := h.roots ▸ hp
  obtain ⟨hcow, hnsh, hW⟩ := getPermByProt_bits prot
  have hold : ¬ Shared (look s p va) := (h.shared p va hp).not.mpr hsh
  have hwalled : Walled L s' v' [] := by
    refine h.walled.reperm hroot he hw (getPermByProt_lt prot) (getPermByProt_V prot) hcow hold fun hwr f hf => ?_
    rw [hW, decide_eq_true_eq] at hwr
    obtain ⟨hu, hq⟩ := hown hwr f (h.target p va hp ▸ hf)
    exact ⟨hu, fun q hqr va' ht => hq q (h.roots ▸ hqr) va' (h.target q va' (h.roots ▸ hqr) ▸ ht)⟩
  refine ⟨hwalled, he.rewritten.kept.roots.trans h.roots, fun q va' hq => ?_, fun q va' hq => ?_⟩
  · rw [he.look hs (h.roots ▸ hq), ← h.target q va' hq, put]
    split
    · next hput =>
      obtain ⟨rfl, hpage⟩ := hput
      rw [hw.target (getPermByProt_lt prot) (h.walled.iso.sober q va hroot), hpage.look]
    · rfl
  · rw [he.look hs (h.roots ▸ hq), ← h.shared q va' hq, put]
    split
    · next hput =>
      obtain ⟨rfl, hpage⟩ := hput
      rw [hw.shared, hnsh, hpage.look]
      simpa using hold
    · rfl

structure Marked (L : Layout) (x : Sharing) (v : View) : Prop where
  walled : Walled L x.users.phys v []
  roots : v.roots = x.users.procs
  marks (q : ℕ) (va : BitVec 64) : q ∈ x.users.procs → (x.marks q va = true ↔ Shared (look x.users.phys q va))

lemma Refilled.marked {marks : ℕ → BitVec 64 → Bool} (hm : Marked L x v)
    (h : Refilled L x.users.procs p flag x.users.phys s' v')
    (hmarks : ∀ q va, marks q va = if q = p ∧ look s' p va ≠ look x.users.phys p va then flag else x.marks q va) :
    Marked L ⟨x.users.update p s' brk mmapAddr, marks⟩ v' := by
  refine ⟨h.walled, h.roots, fun q va hq => ?_⟩
  change marks q va = true ↔ Shared (look s' q va)
  rw [hmarks q va]
  split
  · next hne =>
    obtain ⟨rfl, hne⟩ := hne
    exact ((h.entries q va hq).resolve_left hne).2.symm
  · next hne =>
    have hlook : look s' q va = look x.users.phys q va := by
      rcases h.entries q va hq with he | ⟨rfl, -⟩
      · exact he
      · exact by_contra fun hn => hne ⟨rfl, hn⟩
    rw [hm.marks q va hq, hlook]

lemma Marked.call (h : Marked L x v) (hp : p ∈ x.users.procs) (hc : c.Careful L x.users p) :
    wp (c.exec p (x.users.brk p) (x.users.mmapAddr p)) (fun a s' => ∃ v',
      Marked L ⟨x.users.update p s' a.1 a.2, c.marks p x.users.phys s' x.marks⟩ v') NotRefZero x.users.phys := by
  have hroot : p ∈ v.roots := h.roots ▸ hp
  have hground : ∀ {s v}, Walled L s v [] → Grounded L s v := fun hw =>
    ⟨hw.inv, hw.dead, fun r va hr => (hw.iso.sober r va hr).ram⟩
  have hstart : ∀ flag, Refilled L x.users.procs p flag x.users.phys x.users.phys v := fun flag =>
    ⟨h.walled, h.roots, fun _ _ _ => .inl rfl⟩
  have hJ : ∀ flag s v, Refilled L x.users.procs p flag x.users.phys s v → Grounded L s v ∧ p ∈ v.roots :=
    fun flag s v hr => ⟨hground hr.walled, hr.roots ▸ hp⟩
  cases c with
  | fault violation stval =>
    refine wp_seq (h.walled.pageFault hroot) fun r s' ⟨v', hs, _⟩ => wp_pure.mpr ⟨v', hs.walled,
      hs.roots.trans h.roots, fun q va hq => ?_⟩
    change x.marks q va = true ↔ has (look s' q va) pteShared = true
    rw [hs.quiet.shared q va (h.roots ▸ hq)]
    exact h.marks q va hq
  | mmap start len prot flags file off =>
    obtain ⟨hcow, hsh⟩ := mmapPerm_bits prot flags
    refine wp_mono (wp_exec (hJ (decide (flags &&& mapShared ≠ 0))) (hstart _)
      fun s v va w s' v' hr hc he => ?_) fun a s' ⟨v', hr⟩ => ⟨v', hr.marked h fun _ _ => rfl⟩
    obtain ⟨-, -, -, hf, -⟩ := hc
    exact hr.edit (hr.walled.fill (hJ _ s v hr).2 he hf (mmapPerm_lt ..) (mmapPerm_V ..) hcow) he (hsh ▸ hf.shared)
  | munmap start len =>
    refine wp_mono (wp_exec (hJ false) (hstart _) fun s v va w s' v' hr hc he => ?_)
      fun a s' ⟨v', hr⟩ => ⟨v', hr.marked h fun _ _ => rfl⟩
    exact hr.edit (hr.walled.clear (hJ _ s v hr).2 he hc.1) he (hc.1 ▸ by decide)
  | mprotect addr len prot =>
    refine wp_mono (wp_exec (J := Reprotected L x.users.procs x.users.phys)
      (fun s v hr => ⟨hground hr.walled, hr.roots ▸ hp⟩)
      ⟨h.walled, h.roots, fun _ _ _ => rfl, fun _ _ _ => Iff.rfl⟩ fun s v va w s' v' hr hc' he => ?_)
      fun a s' ⟨v', hr⟩ => ⟨v', hr.walled, hr.roots, fun q va hq => ?_⟩
    · obtain ⟨hw, hreach⟩ := hc'
      obtain ⟨hsh, hown⟩ := hc va hreach
      exact hr.edit hp he hw hsh hown
    · exact (h.marks q va hq).trans (hr.shared q va hq).symm
  | brk addr =>
    refine wp_mono (wp_exec (hJ false) (hstart _) fun s v va w s' v' hr hc he => ?_)
      fun a s' ⟨v', hr⟩ => ⟨v', hr.marked h fun _ _ => rfl⟩
    obtain ⟨-, ⟨-, h0, -⟩ | ⟨-, hf, -⟩⟩ := hc
    · exact hr.edit (hr.walled.clear (hJ _ s v hr).2 he h0) he (h0 ▸ by decide)
    · exact hr.edit (hr.walled.fill (hJ _ s v hr).2 he hf (by decide) (by decide) (by decide)) he
        (hf.shared.trans (by decide))

lemma initialEntries_eq (img : Image L) (ad : Bool) (t : ℕ) (va : BitVec 64) :
    ¬ Fixed va ∧ initialEntries img ad t va = 0 ∨
      Fixed va ∧ has (initialEntries img ad t va) pteV = true ∧ ¬ Shared (initialEntries img ad t va) := by
  have hkern : ∀ {pa perm}, has perm pteShared = false →
      has (mkPte ad pa perm) pteV = true ∧ ¬ Shared (mkPte ad pa perm) := fun {pa perm} hp => by
    refine ⟨has_V_mkPte .., fun hs => ?_⟩
    have := (has_mkPte ad pa perm (k := 9) (by decide) (by decide)).symm.trans hs
    exact absurd (hp.symm.trans this) nofun
  unfold initialEntries overlay
  split
  · next hp => exact .inr ⟨.inr (.inr (samePage_symm hp)), hkern (by decide)⟩
  · next h1 =>
    split
    · next hp => exact .inr ⟨.inr (.inl (samePage_symm hp)), hkern (by decide)⟩
    · next h2 =>
      split
      · next hp => exact .inr ⟨.inl (samePage_symm hp), hkern (by decide)⟩
      · next h3 =>
        refine .inl ⟨?_, rfl⟩
        rintro (hp | hp | hp)
        · exact h3 (samePage_symm hp)
        · exact h2 (samePage_symm hp)
        · exact h1 (samePage_symm hp)

lemma not_shared_zero : ¬ Shared 0 := by decide

lemma Marked.spawn (h : Marked L x v) (img : Image L) : wp (procInitupt img) (fun c s' => ∃ v',
    Marked L ⟨x.users.add c s' brk mmapAddr, Function.update x.marks c fun _ => false⟩ v') NotRefZero x.users.phys := by
  refine wp_mono (h.walled.procInitupt img) fun c s' ⟨v', t, hsp⟩ => ⟨v', hsp.walled, ?_, fun q va hq => ?_⟩
  · exact hsp.roots.trans (by rw [h.roots]; rfl)
  · change Function.update x.marks c (fun _ => false) q va = true ↔ Shared (look s' q va)
    by_cases hqc : q = c
    · subst hqc
      rw [update_self, hsp.child va]
      refine ⟨nofun, fun hs => ?_⟩
      rcases initialEntries_eq img x.users.phys.ad t va with ⟨-, h0⟩ | ⟨-, -, hn⟩
      · exact absurd (h0 ▸ hs) not_shared_zero
      · exact absurd hs hn
    · have hq' := (mem_cons.mp hq).resolve_left hqc
      rw [update_of_ne hqc, hsp.look q va (h.roots ▸ hq')]
      exact h.marks q va hq'

lemma Marked.fork (h : Marked L x v) (img : Image L) (hp : p ∈ x.users.procs) :
    wp (procFork img p) (fun c s' => ∃ v', Marked L ⟨x.users.add c s' brk mmapAddr,
      Function.update x.marks c fun va => x.marks p va && !decide (Fixed va)⟩ v') NotRefZero x.users.phys := by
  have hroot : p ∈ v.roots := h.roots ▸ hp
  refine wp_mono (h.walled.procFork img hroot) fun c s' ⟨s1, v1, v', ⟨t, hsp⟩, hU, hw, hwalled⟩ => ⟨v', hwalled, ?_, ?_⟩
  · exact hw.kept.roots.trans (hsp.roots.trans (by rw [h.roots]; rfl))
  have hin := hsp.walled
  have hmem : ∀ {r}, r ∈ v.roots → r ∈ v1.roots := fun hr => hsp.roots ▸ mem_cons_of_mem c hr
  have hc : c ∈ v1.roots := hsp.roots ▸ mem_cons_self
  have hcases := hin.iso.forked_cases (hmem hroot) hU s1.ad
  have hlook : ∀ r va, r ∈ v1.roots → look s' r va = forked (look s1) s1.ad p c r va := fun r va hr =>
    hw.look r va (hin.inv.shape.root_of_mem hr)
  have hparent : ∀ va, has (look s1 p va) pteShared = true ↔ x.marks p va = true := fun va => by
    rw [hsp.look p va hroot]
    exact (h.marks p va hp).symm
  intro q va hq
  change Function.update x.marks c (fun va => x.marks p va && !decide (Fixed va)) q va = true ↔ Shared (look s' q va)
  by_cases hqc : q = c
  · subst hqc
    rw [update_self, hlook q va hc, Bool.and_eq_true, Bool.not_eq_true', decide_eq_false_iff_not]
    have hinit := initialEntries_eq img x.users.phys.ad t va
    rw [← hsp.child va] at hinit
    rcases hcases q va with ⟨h0, -, hcp⟩ | ⟨he, hn⟩
    · have hnf : ¬ Fixed va := fun hf => by
        rcases hinit with ⟨hn, -⟩ | ⟨-, hV, -⟩
        · exact hn hf
        · rw [h0] at hV
          exact absurd hV (by decide)
      rw [Shared, hcp.shared, hparent]
      exact and_iff_left hnf
    · rw [he]
      rcases hinit with ⟨hnf, h0⟩ | ⟨hf, -, hns⟩
      · have hz : look s1 p va = 0 := (hn (.inl rfl)).resolve_left (not_not.mpr h0)
        have hnm : ¬ x.marks p va = true := fun hm => by
          have := (hparent va).mpr hm
          rw [hz] at this
          exact absurd this (by decide)
        rw [h0]
        exact ⟨fun hm => absurd hm.1 hnm, fun hs => absurd hs not_shared_zero⟩
      · exact ⟨fun hm => absurd hf hm.2, fun hs => absurd hs hns⟩
  · have hq' := (mem_cons.mp hq).resolve_left hqc
    have hqr : q ∈ v.roots := h.roots ▸ hq'
    rw [update_of_ne hqc, h.marks q va hq', hlook q va (hmem hqr), ← hsp.look q va hqr]
    rcases hcases q va with ⟨-, hk, hcp⟩ | ⟨he, -⟩
    · obtain rfl := hk.resolve_left hqc
      rw [Shared, Shared, hcp.shared]
    · rw [he]

lemma ok_of_runWith {α β : Type} {c : M α} {g : α → Phys → β} {y : β} {Q : α → Phys → Prop} (hw : wp c Q NotRefZero s)
    (h : runWith c s g = .ok y) : ∃ a s', y = g a s' ∧ Q a s' := by
  unfold runWith at h
  split at h
  · next a s' hc => exact ⟨a, s', (Except.ok.inj h).symm, wp_of_ok hw hc⟩
  · cases h

lemma Marked.step (h : Marked L x v) (hstep : d.Step img x x') (hc : d.Careful L x) : ∃ v', Marked L x' v' := by
  obtain ⟨ha, hx⟩ := hstep
  cases d with
  | spawn brk mmapAddr =>
    obtain ⟨c, s, rfl, h'⟩ := ok_of_runWith (h.spawn img) hx
    exact h'
  | fork p =>
    obtain ⟨c, s, rfl, h'⟩ := ok_of_runWith (h.fork img ha) hx
    exact h'
  | call p c =>
    obtain ⟨a, s, rfl, h'⟩ := ok_of_runWith (h.call ha hc) hx
    exact h'

lemma Marked.walls (h : Marked L x v) : Walls x := by
  have hroot : ∀ {p}, p ∈ x.users.procs → p ∈ v.roots := fun hp => h.roots ▸ hp
  refine ⟨fun p q va va' f hp hq hne hf hf' hm => ⟨?_, ?_⟩, fun p va hp => (h.marks p va hp).mp,
    fun p va b ok s' hp hva hrun q va' hq hqp hva' hm => ?_⟩
  · by_contra hW
    rcases h.walled.iso.alone p va q va' f (hroot hp) (hroot hq) hf hf' (by simpa using hW) with he | he
    · exact hne he.1
    · exact hm ⟨(h.marks p va hp).mpr he.1, (h.marks q va' hq).mpr he.2⟩
  · by_contra hW
    rcases h.walled.iso.alone q va' p va f (hroot hq) (hroot hp) hf' hf (by simpa using hW) with he | he
    · exact hne he.1.symm
    · exact hm ⟨(h.marks p va hp).mpr he.2, (h.marks q va' hq).mpr he.1⟩
  · obtain ⟨-, v', -, -, hst⟩ := wp_of_ok ((walled_stable _ _).userStore h.walled (hroot hp) hva) hrun
    rw [hst.content q va' (hroot hq) hva' fun hs => (h.marks q va' hq).not.mp hm hs.1, if_neg hqp]

def Sharing.start (s : Phys) : Sharing := ⟨⟨s, [], fun _ => 0, fun _ => 0⟩, fun _ _ => false⟩

lemma Kernel.marked (h : Kernel L s v) (img : Image L) : Marked L (.start s) v :=
  ⟨(h.sealed img).toWalled, h.roots, fun _ _ hq => absurd hq not_mem_nil⟩

theorem careful_protections_keep_walls (b : Board) (img : Image b.layout) (mem : ℕ → ℕ → BitVec 64) :
    wp (boot b) (fun _ s => ∀ ds x,
      Run (fun x d x' => Doing.Step img x d x' ∧ d.Careful b.layout x) (.start s) ds x → Walls x)
      NotRefZero (powerOn b mem) := by
  refine wp_mono (wp_boot b mem) fun _ s ⟨v, hk⟩ ds x hrun => ?_
  obtain ⟨v', hv⟩ := hrun.invariant (P := fun x => ∃ v, Marked b.layout x v) ⟨v, hk.marked img⟩
    fun x d x' ⟨v, hv⟩ hstep => hv.step hstep.1 hstep.2
  exact hv.walls

instance (x : Sharing) : (d : Doing) → Decidable (d.Allowed x)
  | .spawn _ _ => inferInstanceAs (Decidable True)
  | .fork p | .call p _ => inferInstanceAs (Decidable (p ∈ x.users.procs))

def runDoings (img : Image L) (x : Sharing) (P : Sharing → Bool) : List Doing → Bool
  | [] => P x
  | d :: ds => decide (d.Allowed x) && match d.exec img x with
    | .ok x' => runDoings img x' P ds
    | .error _ => false

lemma run_of_runDoings {P : Sharing → Bool} {ds : List Doing} (h : runDoings img x P ds = true) :
    ∃ x', Run (Doing.Step img) x ds x' ∧ P x' = true := by
  induction ds generalizing x with
  | nil => exact ⟨x, .nil, h⟩
  | cons d ds ih =>
    rw [runDoings, Bool.and_eq_true, decide_eq_true_eq] at h
    obtain ⟨ha, h⟩ := h
    split at h
    · next x1 hx =>
      obtain ⟨x', hr, hP⟩ := ih h
      exact ⟨x', .cons ⟨ha, hx⟩ hr, hP⟩
    · cases h

def privateVa : BitVec 64 := 0x10000
def sharedVa : BitVec 64 := 0x11000

def readWrite : BitVec 32 := protRead ||| protWrite

def protectAfterFork : List Doing :=
  [.spawn 0 0, .call 4 (.mmap privateVa 4096 readWrite mapAnonymous none 0),
    .call 4 (.mmap sharedVa 4096 readWrite (mapAnonymous ||| mapShared) none 0), .fork 4,
    .call 12 (.mprotect privateVa 8192 readWrite)]

theorem mprotect_opens_walls : ∃ x, Run (Doing.Step smallImage) (.start smallMachine) protectAfterFork x ∧
    x.users.procs = [12, 4] ∧
    (target (look x.users.phys 12 privateVa) = some 8 ∧ target (look x.users.phys 4 privateVa) = some 8 ∧
      x.marks 12 privateVa = false ∧ x.marks 4 privateVa = false ∧
      has (look x.users.phys 12 privateVa) pteW = true) ∧
    (∃ s', (userStore 12 privateVa 0xaa).run x.users.phys = .ok (true, s') ∧
      content x.users.phys 4 privateVa = 0 ∧ content s' 4 privateVa = 0xaa) ∧
    x.marks 12 sharedVa = true ∧ ¬ Shared (look x.users.phys 12 sharedVa) := by
  have hrun : runDoings smallImage (.start smallMachine) (fun x =>
      x.users.procs == [12, 4] &&
      (target (look x.users.phys 12 privateVa) == some 8 && target (look x.users.phys 4 privateVa) == some 8 &&
        !x.marks 12 privateVa && !x.marks 4 privateVa && has (look x.users.phys 12 privateVa) pteW) &&
      returns (userStore 12 privateVa 0xaa) x.users.phys (fun ok s' =>
        ok && content x.users.phys 4 privateVa == 0 && content s' 4 privateVa == 0xaa) &&
      (x.marks 12 sharedVa && !decide (Shared (look x.users.phys 12 sharedVa)))) protectAfterFork = true := by
    decide +kernel
  obtain ⟨x, hr, h⟩ := run_of_runDoings hrun
  simp only [Bool.and_eq_true, Bool.not_eq_true', beq_iff_eq, decide_eq_false_iff_not] at h
  obtain ⟨⟨⟨hprocs, ⟨⟨⟨ht, ht'⟩, hm⟩, hm'⟩, hW⟩, hstore⟩, hmark, hsh⟩ := h
  obtain ⟨ok, s', hs, h⟩ := exists_of_returns hstore
  simp only [Bool.and_eq_true, beq_iff_eq] at h
  obtain ⟨⟨rfl, h0⟩, h1⟩ := h
  exact ⟨x, hr, hprocs, ⟨ht, ht', hm, hm', hW⟩, ⟨s', hs, h0, h1⟩, hmark, hsh⟩

end FarmOS.Mm

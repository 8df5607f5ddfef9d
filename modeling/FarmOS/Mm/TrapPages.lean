import FarmOS.Mm.Edit
import FarmOS.Mm.Separate

/-! The pages that a process shares with the trap code, against the calls of that process. -/

namespace FarmOS.Mm

open Lib

variable {L : Layout} {img : Image L} {s s' : Phys} {v v' : View} {p q : ℕ} {procs : List ℕ}
  {va va' brk mmapAddr : BitVec 64} {w perm : Pte} {c : Call} {u u' : Users} {e : BitVec 64 → Pte}

def Call.Spares (brk mmapAddr : BitVec 64) : Call → Prop
  | .fault _ _ => True
  | .mmap start len _ flags file off => flags &&& mapAnonymous = 0 → ∀ first newAddr,
      mmapStart mmapAddr (pgRoundUpVa start) (pgRoundUpVa len) = some (first, newAddr) →
      ∀ i, i < fileBytes file off (pgRoundUpVa len) → ¬ Fixed (first + BitVec.ofNat 64 i)
  | .munmap start len => ∀ va, Reached (· ≤ unmapEnd start len) (pgRoundUpVa start) va → ¬ Fixed va
  | .mprotect addr len prot => ∀ va, Reached (· < mapEnd addr len) (pgRoundDown addr) va → Fixed va →
      SamePage signalTrampolineVa va ∧ getPermByProt prot = pteR ||| pteX ||| pteU
  | .brk addr => addr ≠ 0 → addr < brk → ∀ va,
      Reached (· ≤ unmapEnd (addr + 1) brk) (pgRoundUpVa (addr + 1)) va → ¬ Fixed va

lemma mkPte_pteToPa (ad : Bool) (pa : BitVec 64) (hperm : perm.toNat < 1024) :
    mkPte ad (pteToPa (mkPte ad pa perm)) perm = mkPte ad pa perm := by
  have h : paToPte ((pa >>> 12) <<< 12) = paToPte pa := by
    apply BitVec.eq_of_toNat_eq
    simp only [paToPte, BitVec.toNat_shiftLeft, BitVec.toNat_ushiftRight, Nat.shiftLeft_eq,
      Nat.shiftRight_eq_div_pow]
    omega
  rw [pteToPa_mkPte ad pa hperm, mkPte, h]
  rfl

structure Guarded (L : Layout) (img : Image L) (p : ℕ) (e : BitVec 64 → Pte) (procs : List ℕ) (s : Phys) (v : View) :
    Prop where
  grounded : Grounded L s v
  roots : v.roots = procs
  signal : e signalTrampolineVa = signalEntry img s.ad
  fixed (va : BitVec 64) : Fixed va → look s p va = e va
  kept (va : BitVec 64) : Fixed va → has (e va) pteV = true ∧ has (e va) pteCow = false ∧ pteToPa (e va) ≠ 0

lemma Sealed.guarded (h : Sealed L img s v []) (hp : p ∈ v.roots) : Guarded L img p (look s p) v.roots s v := by
  refine ⟨⟨h.inv, h.dead, fun r va hr => (h.iso.sober r va hr).ram⟩, rfl, h.signal p hp, fun _ _ => rfl,
    fun va hf => ?_⟩
  have hV : has (look s p va) pteV = true := by
    by_contra hn
    exact h.fixed_page hp (.inr (by simpa using hn)) hf
  refine ⟨hV, by_contra fun hc => h.fixed_page hp (.inl (by simpa using hc)) hf, fun h0 => ?_⟩
  obtain ⟨f, ht⟩ := (h.iso.sober p va hp).ram hV
  have := ((target_eq_some_iff _ _).mp ht).1.2
  rw [h0] at this
  exact absurd this (by decide)

lemma Guarded.same (h : Guarded L img p e procs s v) (hs : c.Spares brk mmapAddr)
    (hc : c.Edits L brk mmapAddr s p va w) (hf : Fixed va) : w = e va := by
  obtain ⟨hV, hcow, hpa⟩ := h.kept va hf
  have hlook := h.fixed va hf
  cases c with
  | fault violation stval =>
    obtain ⟨-, q, -, ⟨hc, -⟩ | ⟨hp, -⟩⟩ := hc
    · rw [hlook] at hc
      exact absurd (hcow.symm.trans hc.2.2.2.2) nofun
    · rw [hlook] at hp
      exact absurd hV hp.2.1
  | mmap start len prot flags file off =>
    obtain ⟨first, newAddr, hstart, -, ⟨-, h0, -⟩ | ⟨ha, i, hi, rfl⟩⟩ := hc
    · exact absurd (hlook ▸ h0) hpa
    · exact absurd hf (hs ha first newAddr hstart i hi)
  | munmap start len => exact absurd hf (hs va hc.2)
  | mprotect addr len prot =>
    obtain ⟨hw, hr⟩ := hc
    obtain ⟨hpage, hperm⟩ := hs va hr hf
    have hsig : e va = signalEntry img s.ad := by
      rw [← hlook, ← hpage.look s p, h.fixed _ (.inr (.inl (samePage_refl _))), h.signal]
    rcases hw with ⟨-, rfl⟩ | ⟨hn, -⟩
    · rw [hlook, hsig, hperm, signalEntry, mkPte_pteToPa _ _ (by decide)]
    · rw [hlook] at hn
      exact absurd (hn.symm.trans hV) nofun
  | brk addr =>
    obtain ⟨h0, ⟨hlt, -, hr⟩ | ⟨-, -, hz, -⟩⟩ := hc
    · exact absurd hf (hs h0 hlt va hr)
    · exact absurd (hlook ▸ hz) hpa

lemma Guarded.edit (h : Guarded L img p e procs s v) (hp : p ∈ procs)
    (hs : q = p → c.Spares brk mmapAddr) (hc : c.Edits L brk mmapAddr s q va w) (he : Edit L s v q va w s' v') :
    Guarded L img p e procs s' v' := by
  have hk := he.rewritten.kept
  refine ⟨h.grounded.edit he, hk.roots.trans h.roots, hk.ad ▸ h.signal, fun va' hf => ?_, h.kept⟩
  rw [he.look h.grounded.inv.shape (h.roots.symm ▸ hp), put]
  split
  · next hput =>
    obtain ⟨rfl, hpage⟩ := hput
    rw [h.same (hs rfl) hc (hf.page hpage), ← h.fixed va (hf.page hpage), ← h.fixed va' hf, hpage.look]
  · exact h.fixed va' hf

lemma Guarded.step (h : Guarded L img p e u.procs u.phys v) (hp : p ∈ u.procs)
    (hs : q = p → c.Spares (u.brk p) (u.mmapAddr p)) (hstep : c.Step u q u') :
    u'.procs = u.procs ∧ ∃ v', Guarded L img p e u.procs u'.phys v' := by
  cases hstep with
  | done hq hrun =>
    refine ⟨rfl, wp_of_ok (wp_exec (J := Guarded L img p e u.procs) (fun s v hv => ⟨hv.grounded, hv.roots ▸ hq⟩) h
      fun s v va w s' v' hv hc he => ?_) hrun⟩
    exact hv.edit hp (fun hqp => hqp ▸ hs hqp) hc he

theorem trap_pages_kept (b : Board) (img : Image b.layout) (mem : ℕ → ℕ → BitVec 64) :
    wp (boot b) (fun _ s => ∀ acts m, Run (fun m act m' => Act.Step img m act m') ⟨s, []⟩ acts m →
      ∀ p s₁, (procInitupt img).run m.phys = .ok (p, s₁) → ∀ brk mmapAddr calls u,
      Run (fun (u : Users) (x : ℕ × Call) u' => x.2.Step u x.1 u' ∧ (x.1 = p → x.2.Spares (u.brk p) (u.mmapAddr p)))
        ⟨s₁, p :: m.procs, brk, mmapAddr⟩ calls u →
      (∀ va, Fixed va → look u.phys p va = look s₁ p va) ∧
        KernelPage (look u.phys p trampolineVa) ∧ KernelPage (look u.phys p trapframeVa))
      NotRefZero (powerOn b mem) := by
  refine wp_mono (wp_boot b mem) fun _ s ⟨v, hk⟩ acts m hrun p s₁ hinit brk mmapAddr calls u hcalls => ?_
  obtain ⟨v₀, hr⟩ := hrun.folded (f := Act.apply) (R := fun m a => ∃ v, Refined b.layout img m a v)
    ⟨v, hk.refined img⟩ fun m act m' a ⟨v, hv⟩ hstep => (hv.step hstep).refined
  obtain ⟨v₁, hst⟩ := wp_of_ok hr.inner.procInitupt hinit
  obtain ⟨e, hsp⟩ := hst.spawned
  have hroots : v₁.roots = p :: m.procs := hsp.roots.trans (by rw [hr.roots])
  have hp : p ∈ p :: m.procs := List.mem_cons_self
  have hg := hst.inner.guarded (hroots ▸ hp)
  rw [hroots] at hg
  obtain ⟨-, v', hv⟩ := hcalls.invariant (P := fun u => u.procs = p :: m.procs ∧
    ∃ v, Guarded b.layout img p (look s₁ p) (p :: m.procs) u.phys v) ⟨rfl, v₁, hg⟩
    fun u x u' ⟨hprocs, v, hv⟩ ⟨hstep, hs⟩ => by
      rw [← hprocs] at hv hp ⊢
      exact hv.step hp hs hstep
  have hup := hst.inner.upper p (hroots ▸ hp)
  refine ⟨hv.fixed, ?_, ?_⟩
  · rw [hv.fixed _ (.inl (samePage_refl _))]
    exact hup.1
  · rw [hv.fixed _ (.inr (.inr (samePage_refl _)))]
    exact hup.2

def smallLayout : Layout := ⟨32, 3, by decide, by decide⟩

def smallImage : Image smallLayout := ⟨membase + 0x1000, membase + 0x2000, by decide, by decide⟩

def smallMachine : Phys where
  mem _ _ := 0
  ref f := if f < 3 then 1 else 0
  pageFreeList := List.range' 4 28
  pageleft := 28
  kernPd := 3
  ident := []
  ad := false

theorem trapframe_reached : ∃ p s₁, (procInitupt smallImage).run smallMachine = .ok (p, s₁) ∧
    KernelPage (look s₁ p trapframeVa) ∧
    (∃ u, (Call.munmap trapframeVa 4096).Step ⟨s₁, [p], fun _ => 0, fun _ => 0⟩ p u ∧
      look u.phys p trapframeVa = 0) ∧
    ∃ u, (Call.mprotect trapframeVa 4096 (protRead ||| protWrite)).Step ⟨s₁, [p], fun _ => 0, fun _ => 0⟩ p u ∧
      has (look u.phys p trapframeVa) pteU = true := by
  have hrun : returns (procInitupt smallImage) smallMachine (fun p s =>
      (has (look s p trapframeVa) pteV && !has (look s p trapframeVa) pteCow && !has (look s p trapframeVa) pteU) &&
      returns ((Call.munmap trapframeVa 4096).exec p 0 0) s (fun _ s' => look s' p trapframeVa == 0) &&
      returns ((Call.mprotect trapframeVa 4096 (protRead ||| protWrite)).exec p 0 0) s
        (fun _ s' => has (look s' p trapframeVa) pteU)) = true := by decide +kernel
  obtain ⟨p, s₁, hinit, hrun⟩ := exists_of_returns hrun
  simp only [Bool.and_eq_true, Bool.not_eq_true'] at hrun
  obtain ⟨⟨⟨⟨hV, hC⟩, hU⟩, hunmap⟩, hprot⟩ := hrun
  obtain ⟨⟨_, _⟩, _, hunmap, hgone⟩ := exists_of_returns hunmap
  obtain ⟨⟨_, _⟩, _, hprot, huser⟩ := exists_of_returns hprot
  exact ⟨p, s₁, hinit, ⟨hV, hC, hU⟩, ⟨_, .done List.mem_cons_self hunmap, eq_of_beq hgone⟩,
    _, .done List.mem_cons_self hprot, huser⟩

end FarmOS.Mm

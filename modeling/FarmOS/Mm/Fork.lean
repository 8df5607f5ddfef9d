import FarmOS.Mm.Map

/-! What copying an address space does to the translation of every address. -/

namespace FarmOS.Mm

open Lib

variable {L : Layout} {s s' s1 : Phys} {v v' v1 : View} {fl : List ℕ} {f pd child r : ℕ}
  {va va' pa : BitVec 64} {w perm pte : Pte}

def Mapped (s : Phys) (v : View) (f : ℕ) : Prop := ∃ r ∈ v.roots, ∃ va, target (look s r va) = some f

def Pinned (s : Phys) (v : View) (f : ℕ) : Prop :=
  f ∈ v.held ∨ ∃ r, v.lev r = 1 ∧ ∃ va, ¬ Uncounted s r va ∧ target (look s r va) = some f

structure Rewritten (L : Layout) (s : Phys) (v : View) (fl : List ℕ) (g : ℕ → BitVec 64 → Pte)
    (s' : Phys) (v' : View) : Prop where
  inv : Inv L s' v' fl
  kept : Kept s v s' v'
  look (r : ℕ) (va : BitVec 64) : v.lev r = 1 → look s' r va = g r va
  frame (f : ℕ) : v.lev f = 0 → Pinned s v f → v'.lev f = 0 ∧ s'.mem f = s.mem f
  link (t i c : ℕ) : Link s v t i c → Link s' v' t i c
  heap (t : ℕ) : v'.lev t ≠ 0 → v.lev t ≠ 0 ∨ L.pageused ≤ t

def put (g : ℕ → BitVec 64 → Pte) (pd : ℕ) (va : BitVec 64) (w : Pte) (r : ℕ) (va' : BitVec 64) : Pte :=
  if r = pd ∧ SamePage va' va then w else g r va'

lemma samePage_refl (va : BitVec 64) : SamePage va va := ⟨rfl, rfl, rfl⟩

lemma toNat_ptePerm_lt (p : Pte) : (ptePerm p).toNat < 1024 := by
  rw [ptePerm, BitVec.toNat_and]
  exact Nat.lt_of_le_of_lt Nat.and_le_right (by decide)

lemma Mapped.pinned (h : Mapped s v f) (hs : Shape L s v) (hd : v.dead = ∅) : Pinned s v f := by
  obtain ⟨r, hr, va, ht⟩ := h
  exact .inr ⟨r, hs.root_of_mem hr, va, hs.user_counted hd hr, ht⟩

lemma Inv.pinned_ref (h : Inv L s v fl) (hd : v.dead = ∅) (hf : Pinned s v f) :
    f < L.npage ∧ 0 < (s.ref f).toNat := by
  rcases hf with hf | ⟨r, hr, va, hc, ht⟩
  · have hlt := h.shape.held_lt f hf
    refine ⟨hlt, h.refs_pos_ref hlt ?_⟩
    have := List.count_pos_iff.mpr hf
    rw [uses]
    omega
  · exact h.look_ref hd hr hc ht

section User

variable (h : Inv L s v fl) (hd : v.dead = ∅) (hpd : pd ∈ v.roots)
include h hd hpd

lemma Inv.user_ref (hf : target (look s pd va) = some f) : f < L.npage ∧ 0 < (s.ref f).toNat :=
  h.look_ref hd (h.shape.root_of_mem hpd) (h.shape.user_counted hd hpd) hf

lemma Inv.remap (hm : Mappable L s fl pa perm) (hfl : landed fl (entry s.ad pa perm) = fl) :
    wp (Mm.ptMap pd va pa perm) (fun r s' => r = 0 ∧
      ∃ v', Rewritten L s v fl (put (look s) pd va (entry s.ad pa perm)) s' v') NotRefZero s := by
  have hroot := h.shape.root_of_mem hpd
  refine wp_mono (h.ptMap hd hroot (h.shape.user_counted hd hpd) hm) fun r s' h' => ?_
  obtain ⟨hr, v', hw⟩ := h'
  refine ⟨hr, v', hfl ▸ hw.inv, hw.kept, fun r va' hr => ?_, fun f h0 hf => ?_,
    fun _ _ _ hl => hw.link hd hroot hl, fun _ ht => hw.heap ht⟩
  · exact hw.look hd hroot h.shape hr
  · exact hw.frame hd hroot h0 (.inr (h.pinned_ref hd hf).2)

lemma Inv.sharing (hV : has (look s pd va) pteV = true) (hp : perm.toNat < 1024) :
    Mappable L s fl (pteToPa (look s pd va)) perm ∧
      landed fl (entry s.ad (pteToPa (look s pd va)) perm) = fl := by
  have hsrc : membase ≤ pteToPa (look s pd va) → paToPage (pteToPa (look s pd va)) < L.npage ∧
      0 < (s.ref (paToPage (pteToPa (look s pd va)))).toNat := fun hm =>
    h.user_ref hd hpd (if_pos ⟨hV, hm⟩)
  refine ⟨⟨hp, fun hm => (hsrc hm).1, fun hm => .inr (hsrc hm).2⟩, landed_of_notMem fun f hf => ?_⟩
  unfold entry at hf
  split at hf
  · rw [target_perm hp] at hf
    cases hf
  · rw [target_mkPte _ _ hp] at hf
    split at hf
    · next hm =>
      obtain rfl := Option.some.inj hf
      exact h.not_flight (hsrc hm).2
    · cases hf

end User

lemma mappable_passive (L : Layout) (s : Phys) (fl : List ℕ) (hp : perm.toNat < 1024) :
    Mappable L s fl 0 perm ∧ landed fl (entry s.ad 0 perm) = fl := by
  refine ⟨⟨hp, fun hm => absurd hm (by decide), fun hm => absurd hm (by decide)⟩, ?_⟩
  refine landed_of_notMem fun f hf => ?_
  rw [show entry s.ad 0 perm = perm from if_pos rfl, target_perm hp] at hf
  cases hf

namespace Rewritten

variable {g g' : ℕ → BitVec 64 → Pte}

lemma refl (h : Inv L s v fl) : Rewritten L s v fl (Mm.look s) s v :=
  ⟨h, .refl s v, fun _ _ _ => rfl, fun _ h0 _ => ⟨h0, rfl⟩, fun _ _ _ hl => hl, fun _ ht => .inl ht⟩

lemma congr (h : Rewritten L s v fl g s' v') (hg : ∀ r va, v.lev r = 1 → g r va = g' r va) :
    Rewritten L s v fl g' s' v' :=
  ⟨h.inv, h.kept, fun r va hr => (h.look r va hr).trans (hg r va hr), h.frame, h.link, h.heap⟩

lemma root (h : Rewritten L s v fl g s' v') (hs : Shape L s v) : v'.lev r = 1 ↔ v.lev r = 1 :=
  h.kept.root hs h.inv.shape

lemma trans (h : Rewritten L s v fl g s1 v1) (h' : Rewritten L s1 v1 fl g' s' v') (hs : Shape L s v)
    (hm : ∀ f, Pinned s v f → Pinned s1 v1 f) : Rewritten L s v fl g' s' v' where
  inv := h'.inv
  kept := h.kept.trans h'.kept
  look r va hr := h'.look r va ((h.root hs).mpr hr)
  frame f h0 hf := by
    obtain ⟨h1, h2⟩ := h.frame f h0 hf
    obtain ⟨h3, h4⟩ := h'.frame f h1 (hm f hf)
    exact ⟨h3, h4.trans h2⟩
  link t i c hl := h'.link t i c (h.link t i c hl)
  heap t ht := (h'.heap t ht).elim (h.heap t) .inr

section

variable (h : Rewritten L s v fl g s' v') (hs : Shape L s v) (hd : v.dead = ∅)
include h hs hd

lemma slot (hr : v.lev r = 1) {x : ℕ × ℕ} (hx : Mm.slot s r va = some x) : Mm.slot s' r va = some x := by
  obtain ⟨he, t2, h1, h2⟩ := (hs.slot_iff hd hr).mp hx
  exact (h.inv.shape.slot_iff (h.kept.dead.trans hd) ((h.root hs).mpr hr)).mpr
    ⟨he, t2, h.link _ _ _ h1, h.link _ _ _ h2⟩

lemma counted (hr : v.lev r = 1)
    (hc : ¬ Uncounted s r va) (ht : target (Mm.look s r va) = some f) : ¬ Uncounted s' r va := by
  rintro ⟨x, hx, hi⟩
  cases hy : Mm.slot s r va with
  | none =>
    unfold Mm.look at ht
    rw [hy] at ht
    cases ht.symm.trans target_zero
  | some y =>
    obtain rfl := Option.some.inj (hx.symm.trans (h.slot hs hd hr hy))
    exact hc ⟨x, hy, h.kept.ident ▸ hi⟩

lemma pinned (hf : Pinned s v f)
    (hg : ∀ r va, v.lev r = 1 → ¬ Uncounted s r va → target (Mm.look s r va) = some f → target (g r va) = some f) :
    Pinned s' v' f := by
  rcases hf with hf | ⟨r, hr, va, hc, ht⟩
  · exact .inl (h.kept.held.symm ▸ hf)
  · refine .inr ⟨r, (h.root hs).mpr hr, va, h.counted hs hd hr hc ht, ?_⟩
    rw [h.look r va hr]
    exact hg r va hr hc ht

end

lemma pinned_put (h : Rewritten L s v fl (put (Mm.look s) pd va w) s' v') (hs : Shape L s v) (hd : v.dead = ∅)
    (ht : target (Mm.look s pd va) = none ∨ target w = target (Mm.look s pd va)) (hf : Pinned s v f) :
    Pinned s' v' f := by
  refine h.pinned hs hd hf fun r va' _ _ htgt => ?_
  unfold put
  split
  · next he =>
    obtain ⟨rfl, hp⟩ := he
    rw [hp.look] at htgt
    rcases ht with ht | ht
    · rw [ht] at htgt
      cases htgt
    · rw [ht, htgt]
  · exact htgt

end Rewritten

def cowPerm (perm : Pte) : Pte := (perm &&& ~~~pteW) ||| pteCow

def Private (perm : Pte) : Prop := has perm pteW ∧ has perm pteU ∧ ¬ has perm pteShared

instance (perm : Pte) : Decidable (Private perm) := inferInstanceAs (Decidable (_ ∧ _ ∧ _))

def childEntry (ad : Bool) (pte : Pte) : Pte :=
  if ptePassive (ptePerm pte) then ptePerm pte
  else if Private (ptePerm pte) then entry ad (pteToPa pte) (cowPerm (ptePerm pte))
  else entry ad (pteToPa pte) (ptePerm pte)

def parentEntry (ad : Bool) (pte : Pte) : Pte :=
  if ptePassive (ptePerm pte) then pte
  else if Private (ptePerm pte) then entry ad (pteToPa pte) (cowPerm (ptePerm pte))
  else pte

def dup (s : Phys) (pd child : ℕ) (va : BitVec 64) : ℕ → BitVec 64 → Pte :=
  if look s child va = 0 then
    put (put (look s) child va (childEntry s.ad (look s pd va))) pd va (parentEntry s.ad (look s pd va))
  else look s

lemma toNat_cowPerm_lt (h : perm.toNat < 1024) : (cowPerm perm).toNat < 1024 := by
  rw [cowPerm, BitVec.toNat_or, BitVec.toNat_and]
  exact Nat.or_lt_two_pow (n := 10) (Nat.lt_of_le_of_lt Nat.and_le_left h) (by decide)

lemma has_ptePerm (p : Pte) {k : ℕ} (hk : k < 10) : has (ptePerm p) (1#64 <<< k) = has p (1#64 <<< k) := by
  rw [has_one_shiftLeft _ (by omega), has_one_shiftLeft _ (by omega), ptePerm, BitVec.getLsbD_and]
  have : ∀ k < 10, (0x3ff : Pte).getLsbD k = true := by decide
  rw [this k hk, Bool.and_true]

lemma has_V_of_not_passive (h : ¬ ptePassive (ptePerm pte) = true) (hU : has (ptePerm pte) pteU = true) :
    has pte pteV = true := by
  rw [ptePassive, hU, Bool.and_true, Bool.not_eq_true', Bool.not_eq_false] at h
  exact (has_ptePerm pte (k := 0) (by decide)).symm.trans h

lemma put_parent_unchanged (hne : pd ≠ child) :
    put (put (look s) child va w) pd va (look s pd va) = put (look s) child va w := by
  funext r va'
  unfold put
  split
  · next he =>
    obtain ⟨rfl, hp⟩ := he
    rw [if_neg fun he => hne he.1, hp.look]
  · rfl

section Dup

variable (h : Inv L s v fl) (hd : v.dead = ∅) (hpd : pd ∈ v.roots) (hch : child ∈ v.roots)
include h hd hpd hch

lemma Inv.dupShare (hV : has (look s pd va) pteV = true) (hp : perm.toNat < 1024) :
    wp (Mm.ptMap child va (pteToPa (look s pd va)) perm) (fun r s' => r = 0 ∧
      ∃ v', Rewritten L s v fl (put (look s) child va (entry s.ad (pteToPa (look s pd va)) perm)) s' v')
      NotRefZero s := by
  obtain ⟨hm, hfl⟩ := h.sharing hd hpd hV hp
  exact h.remap hd hch hm hfl

lemma Inv.dupCow (hne : pd ≠ child) (h0 : look s child va = 0) (hV : has (look s pd va) pteV = true)
    (hp : perm.toNat < 1024) :
    wp (Mm.ptMap child va (pteToPa (look s pd va)) perm) (fun r s1 => r = 0 ∧
      wp (Mm.ptMap pd va (pteToPa (look s pd va)) perm) (fun r s' => r = 0 ∧ ∃ v', Rewritten L s v fl
        (put (put (look s) child va (entry s.ad (pteToPa (look s pd va)) perm)) pd va
          (entry s.ad (pteToPa (look s pd va)) perm)) s' v') NotRefZero s1) NotRefZero s := by
  refine wp_mono (h.dupShare hd hpd hch hV hp) fun r s1 h1 => ⟨h1.1, ?_⟩
  obtain ⟨-, v1, hr1⟩ := h1
  have hs := h.shape
  have hlook : look s1 pd va = look s pd va :=
    (hr1.look pd va (hs.root_of_mem hpd)).trans (if_neg fun he => hne he.1)
  have hpd1 : pd ∈ v1.roots := hr1.kept.roots.symm ▸ hpd
  have hd1 := hr1.kept.dead.trans hd
  have hV1 : has (look s1 pd va) pteV = true := hlook.symm ▸ hV
  obtain ⟨hm, hfl⟩ := hr1.inv.sharing hd1 hpd1 hV1 hp
  rw [hlook] at hm hfl
  refine wp_mono (hr1.inv.remap hd1 hpd1 hm hfl) fun r s2 h2 => ⟨h2.1, ?_⟩
  obtain ⟨-, v2, hr2⟩ := h2
  refine ⟨v2, (hr1.trans hr2 hs fun f => hr1.pinned_put hs hd (.inl ?_)).congr fun r va' hr => ?_⟩
  · rw [h0]
    exact target_zero
  · simp only [put, hr1.kept.ad]
    rw [hr1.look r va' hr]
    rfl

end Dup

lemma Inv.duppage (h : Inv L s v fl) (hd : v.dead = ∅) (hpd : pd ∈ v.roots) (hch : child ∈ v.roots)
    (hne : pd ≠ child) :
    wp (duppage pd child va) (fun r s' => r = 0 ∧ (look s child va = 0 → has (look s pd va) pteU = true) ∧
      ∃ v', Rewritten L s v fl (dup s pd child va) s' v') NotRefZero s := by
  have hperm : ∀ {b}, has (ptePerm (look s pd va)) pteU = b → has (look s pd va) pteU = b := fun hb =>
    (has_ptePerm _ (k := 4) (by decide)).symm.trans hb
  simp only [Mm.duppage, wp_bind, wp_ptLookup, wp_ite, wp_pure, dup]
  refine ⟨fun h0 => ?_, fun h0 => ?_⟩
  · rw [if_pos h0]
    refine ⟨fun hp => ?_, fun hp => ⟨fun hW => ?_, fun hW => ⟨fun hU => ?_, fun _ => wp_throw.mpr (by rintro ⟨⟩)⟩⟩⟩
    · obtain ⟨hm, hfl⟩ := mappable_passive L s fl (toNat_ptePerm_lt (look s pd va))
      rw [show parentEntry s.ad (look s pd va) = look s pd va from if_pos hp, put_parent_unchanged hne,
        show childEntry s.ad (look s pd va) = entry s.ad 0 (ptePerm (look s pd va)) from
          (if_pos hp).trans (if_pos rfl).symm]
      have hU : has (ptePerm (look s pd va)) pteU = true := by
        rw [ptePassive, Bool.and_eq_true] at hp
        exact hp.2
      exact wp_mono (h.remap hd hch hm hfl) fun r s' h' => ⟨h'.1, fun _ => hperm hU, h'.2⟩
    · have hV := has_V_of_not_passive hp hW.2.1
      have hcow := toNat_cowPerm_lt (toNat_ptePerm_lt (look s pd va))
      rw [show parentEntry s.ad (look s pd va) = _ from (if_neg hp).trans (if_pos hW),
        show childEntry s.ad (look s pd va) = _ from (if_neg hp).trans (if_pos hW)]
      refine wp_mono (h.dupCow hd hpd hch hne h0 hV hcow) fun r s1 h1 => ⟨fun hr => absurd h1.1 hr, fun _ => ?_⟩
      exact wp_mono h1.2 fun r s' h2 => ⟨if_neg fun hr => hr h2.1, fun _ => hperm hW.2.1, h2.2⟩
    · have hV := has_V_of_not_passive hp hU
      rw [show parentEntry s.ad (look s pd va) = look s pd va from (if_neg hp).trans (if_neg hW),
        put_parent_unchanged hne, show childEntry s.ad (look s pd va) = _ from (if_neg hp).trans (if_neg hW)]
      exact wp_mono (h.dupShare hd hpd hch hV (toNat_ptePerm_lt _)) fun r s' h' =>
        ⟨h'.1, fun _ => hperm hU, h'.2⟩
  · rw [if_neg h0]
    exact ⟨trivial, fun h0' => absurd h0' h0, v, .refl h⟩

end FarmOS.Mm

import FarmOS.Mm.Isolation

/-! The walk of fork over the parent's page table copies every mapped page exactly once. -/

namespace FarmOS.Mm

open Lib

variable {L : Layout} {s s' s0 : Phys} {v v' v0 : View} {fl : List ℕ} {pd child r i j k n m pt1 pt2 f : ℕ}
  {va va' : BitVec 64} {p : Pte} {tr : ℕ → BitVec 64 → Pte} {ad : Bool}

def vpn (va : BitVec 64) : ℕ := (ptx va 1 * 512 + ptx va 2) * 512 + ptx va 3

lemma samePage_iff : SamePage va va' ↔ vpn va = vpn va' := by
  have h1 := ptx_lt va 1
  have h2 := ptx_lt va 2
  have h3 := ptx_lt va 3
  have h4 := ptx_lt va' 1
  have h5 := ptx_lt va' 2
  have h6 := ptx_lt va' 3
  unfold SamePage vpn
  omega

lemma vpn_lt (va : BitVec 64) : vpn va < 512 * 512 * 512 := by
  have h1 := ptx_lt va 1
  have h2 := ptx_lt va 2
  have h3 := ptx_lt va 3
  unfold vpn
  omega

lemma vpn_eq (h : va.toNat < 2 ^ 39) : vpn va = va.toNat / 4096 := by
  rw [vpn, ptx_eq, ptx_eq, ptx_eq]
  change (va.toNat / 1073741824 % 512 * 512 + va.toNat / 2097152 % 512) * 512 + va.toNat / 4096 % 512 = _
  omega

def partly (tr : ℕ → BitVec 64 → Pte) (ad : Bool) (pd child n r : ℕ) (va : BitVec 64) : Pte :=
  if vpn va < n then forked tr ad pd child r va else tr r va

lemma target_entry_pa {perm : Pte} (hV : has p pteV = true) (ad : Bool) (hp : perm.toNat < 1024) :
    target (entry ad (pteToPa p) perm) = target p := by
  unfold entry target
  rw [hV]
  split
  · next h0 =>
    rw [h0]
    exact target_perm hp
  · exact (target_mkPte ad (pteToPa p) hp).trans (by simp)

section Copied

variable (hU : has p pteU = true)
include hU

lemma target_childEntry (ad : Bool) : target (childEntry ad p) = target p := by
  unfold childEntry
  by_cases h : ptePassive (ptePerm p) = true
  · rw [if_pos h, target_perm (toNat_ptePerm_lt p), target_of_not_V ((passive_iff hU).mp h)]
  · have hV := valid_of_not_passive hU h
    rw [if_neg h]
    split
    · exact target_entry_pa hV ad (toNat_cowPerm_lt (toNat_ptePerm_lt p))
    · exact target_entry_pa hV ad (toNat_ptePerm_lt p)

lemma target_parentEntry (ad : Bool) : target (parentEntry ad p) = target p := by
  unfold parentEntry
  by_cases h : ptePassive (ptePerm p) = true
  · rw [if_pos h]
  · rw [if_neg h]
    split
    · exact target_entry_pa (valid_of_not_passive hU h) ad (toNat_cowPerm_lt (toNat_ptePerm_lt p))
    · rfl

end Copied

structure Dupped (L : Layout) (s0 : Phys) (v0 : View) (fl : List ℕ) (pd child n : ℕ) (s : Phys)
    (v : View) : Prop where
  tr : Rewritten L s0 v0 fl (partly (look s0) s0.ad pd child n) s v
  user (va : BitVec 64) : vpn va < n → look s0 child va = 0 → look s0 pd va ≠ 0 →
    has (look s0 pd va) pteU = true

namespace Dupped

lemma start (h : Inv L s v fl) : Dupped L s v fl pd child 0 s v :=
  ⟨(Rewritten.refl h).congr fun _ _ _ => (if_neg (Nat.not_lt_zero _)).symm, fun _ hn => absurd hn (Nat.not_lt_zero _)⟩

section

variable (h : Dupped L s0 v0 fl pd child n s v)
include h

lemma skip (hnm : n ≤ m)
    (hz : ∀ va, n ≤ vpn va → vpn va < m → look s0 pd va = 0) : Dupped L s0 v0 fl pd child m s v where
  tr := by
    refine h.tr.congr fun r va _ => ?_
    unfold partly
    by_cases h1 : vpn va < n
    · rw [if_pos h1, if_pos (by omega)]
    · rw [if_neg h1]
      by_cases h2 : vpn va < m
      · rw [if_pos h2, forked, if_neg fun hc => hc.2 (hz va (by omega) h2)]
      · rw [if_neg h2]
  user va hm h0 hne := by
    by_cases h1 : vpn va < n
    · exact h.user va h1 h0 hne
    · exact absurd (hz va (by omega) hm) hne

lemma look_later (hr : v0.lev r = 1) (hn : n ≤ vpn va) : look s r va = look s0 r va :=
  (h.tr.look r va hr).trans (if_neg (by omega))

lemma pinned (hs : Shape L s0 v0) (hd : v0.dead = ∅) (hf : Pinned s0 v0 f) : Pinned s v f := by
  refine h.tr.pinned hs hd hf fun r va _ _ ht => ?_
  unfold partly
  by_cases hn : vpn va < n
  · rw [if_pos hn, forked]
    by_cases hc : look s0 child va = 0 ∧ look s0 pd va ≠ 0
    · rw [if_pos hc]
      by_cases hrc : r = child
      · rw [hrc, hc.1] at ht
        cases ht.symm.trans target_zero
      · rw [if_neg hrc]
        by_cases hrp : r = pd
        · rw [if_pos hrp, target_parentEntry (h.user va hn hc.1 hc.2), ← hrp]
          exact ht
        · rwa [if_neg hrp]
    · rwa [if_neg hc]
  · rwa [if_neg hn]

lemma dup_eq (hpd : v0.lev pd = 1) (hch : v0.lev child = 1)
    (hne : pd ≠ child) (hn : vpn va = n) (h0 : look s0 pd va ≠ 0) (hr : v0.lev r = 1) :
    dup s pd child va r va' = partly (look s0) s0.ad pd child (n + 1) r va' := by
  have had := h.tr.kept.ad
  have hlater : ∀ q, v0.lev q = 1 → look s q va = look s0 q va := fun q hq =>
    h.look_later hq (by omega)
  unfold dup partly
  rw [hlater child hch, hlater pd hpd, had]
  by_cases hp : SamePage va' va
  · have hv : vpn va' = n := (samePage_iff.mp hp).trans hn
    rw [if_pos (show vpn va' < n + 1 by omega), forked, hp.look s0 child, hp.look s0 pd, hp.look s0 r]
    by_cases hc : look s0 child va = 0
    · rw [if_pos hc, if_pos ⟨hc, h0⟩, put, put]
      by_cases hrp : r = pd
      · have hrc : r ≠ child := fun he => hne (hrp.symm.trans he)
        rw [if_pos ⟨hrp, hp⟩, if_neg hrc, if_pos hrp]
      · rw [if_neg fun he => hrp he.1]
        by_cases hrc : r = child
        · rw [if_pos ⟨hrc, hp⟩, if_pos hrc]
        · rw [if_neg fun he => hrc he.1, if_neg hrc, if_neg hrp, hp.look s r, hlater r hr]
    · rw [if_neg hc, if_neg fun he => hc he.1, hp.look s r, hlater r hr]
  · have hv : vpn va' ≠ n := fun he => hp (samePage_iff.mpr (he.trans hn.symm))
    have hlook : look s r va' = if vpn va' < n + 1 then forked (look s0) s0.ad pd child r va'
        else look s0 r va' := by
      rw [h.tr.look r va' hr, partly]
      by_cases hlt : vpn va' < n
      · rw [if_pos hlt, if_pos (by omega)]
      · rw [if_neg hlt, if_neg (by omega)]
    rw [← hlook]
    split
    · rw [put, put, if_neg fun he => hp he.2, if_neg fun he => hp he.2]
    · rfl

end

end Dupped

section Walk

variable (hs0 : Inv L s0 v0 fl) (hd : v0.dead = ∅) (hpd : pd ∈ v0.roots) (hch : child ∈ v0.roots) (hne : pd ≠ child)
include hs0 hd hpd hch hne

lemma Dupped.page (h : Dupped L s0 v0 fl pd child n s v) (hn : vpn va = n) (h0 : look s pd va ≠ 0) :
    wp (duppage pd child va) (fun r s' => r = 0 ∧ ∃ v', Dupped L s0 v0 fl pd child (n + 1) s' v' ∧
      ∀ t i c, Link s v t i c → Link s' v' t i c) NotRefZero s := by
  have hs := hs0.shape
  have hk := h.tr.kept
  have hlpd := hs.root_of_mem hpd
  have hlch := hs.root_of_mem hch
  have hpd0 : look s pd va = look s0 pd va := h.look_later hlpd (by omega)
  have hch0 : look s child va = look s0 child va := h.look_later hlch (by omega)
  refine wp_mono (h.tr.inv.duppage (hk.dead.trans hd) (hk.roots.symm ▸ hpd) (hk.roots.symm ▸ hch) hne)
    fun r s' h' => ?_
  obtain ⟨hr, hU, v', hrw⟩ := h'
  refine ⟨hr, v', ⟨?_, fun va' hlt hc hp => ?_⟩, hrw.link⟩
  · refine (h.tr.trans hrw hs fun f hf => h.pinned hs hd hf).congr fun r va' hr => ?_
    exact h.dup_eq hlpd hlch hne hn (hpd0 ▸ h0) hr
  · by_cases hv : vpn va' = n
    · have hp' := samePage_iff.mpr (hv.trans hn.symm)
      rw [hp'.look s0 pd, ← hpd0]
      rw [hp'.look s0 child, ← hch0] at hc
      exact hU hc
    · exact h.user va' (by omega) hc hp

lemma Dupped.leaf (h : Dupped L s0 v0 fl pd child ((i * 512 + j) * 512 + k) s v) (h1 : Link s v pd i pt1)
    (h2 : Link s v pt1 j pt2) (hk : k < 512) :
    wp (walkLeaf (duppage pd child) i j pt2 k) (fun r s' => r = 0 ∧
      ∃ v', Dupped L s0 v0 fl pd child ((i * 512 + j) * 512 + (k + 1)) s' v' ∧ Link s' v' pd i pt1 ∧
        Link s' v' pt1 j pt2) NotRefZero s := by
  have hvpn : vpn (walkVa i j k) = (i * 512 + j) * 512 + k := by
    obtain ⟨hi, hj, hk⟩ := ptx_walkVa h1.index h2.index hk
    rw [vpn, hi, hj, hk]
  have hlook : look s pd (walkVa i j k) = s.mem pt2 k := by
    unfold look
    rw [h.tr.inv.shape.slot_of_links h1 h2 hk]
  simp only [walkLeaf, load, wp_bind, wp_get, wp_pure, wp_ite]
  refine ⟨fun h0 => ?_, fun h0 => ⟨trivial, v, ?_, h1, h2⟩⟩
  · refine wp_mono (h.page hs0 hd hpd hch hne hvpn (hlook ▸ h0)) fun r s' h' => ?_
    obtain ⟨hr, v', hdup, hlink⟩ := h'
    exact ⟨hr, v', by rwa [← Nat.add_assoc], hlink _ _ _ h1, hlink _ _ _ h2⟩
  · refine h.skip (by omega) fun va hge hlt => ?_
    have hp : SamePage va (walkVa i j k) := samePage_iff.mpr (by omega)
    have hz : look s pd va = 0 := by
      rw [hp.look, hlook]
      simpa using h0
    rw [← h.look_later (hs0.shape.root_of_mem hpd) hge, hz]

lemma Dupped.middle (h : Dupped L s0 v0 fl pd child ((i * 512 + j) * 512) s v) (h1 : Link s v pd i pt1)
    (hj : j < 512) :
    wp (walkPt2 (duppage pd child) (fun _ => pure 0) i pt1 j) (fun r s' => r = 0 ∧
      ∃ v', Dupped L s0 v0 fl pd child ((i * 512 + (j + 1)) * 512) s' v' ∧ Link s' v' pd i pt1)
      NotRefZero s := by
  have hs := h.tr.inv.shape
  have hdead := h.tr.kept.dead.trans hd
  have hlev : v.lev pt1 = 2 := by
    have hl := (hs.link _ _ _ h1).1
    have hroot := hs.root_of_mem (h.tr.kept.roots.symm ▸ hpd)
    omega
  refine hs.wp_walk (walkLeaf (duppage pd child) i j) (fun _ => pure 0) (.inr hlev) hj (by simp [hdead])
    (fun hV => ⟨rfl, v, h.skip (by omega) fun va hge hlt => ?_, h1⟩) fun c h2 =>
      ⟨fun k s' => ∃ v', Dupped L s0 v0 fl pd child ((i * 512 + j) * 512 + k) s' v' ∧
      Link s' v' pd i pt1 ∧ Link s' v' pt1 j c, ⟨v, by rwa [Nat.add_zero], h1, h2⟩, ?_, ?_⟩
  · rw [← h.look_later (hs0.shape.root_of_mem hpd) hge]
    have hx : ptx va 1 = i ∧ ptx va 2 = j := by
      have h1 := ptx_lt va 2
      have h2 := ptx_lt va 3
      unfold vpn at hge hlt
      omega
    have hn1 : next s va 1 pd = some pt1 :=
      (hs.next_link h1.level (by simp [hdead])).mpr (by rw [hx.1]; exact h1)
    have hn2 : next s va 2 pt1 = none := if_neg (by rw [hx.2]; exact hV)
    unfold look slot
    rw [hn1]
    simp only
    rw [hn2]
  · rintro k s' hk ⟨v', hdup, hl1, hl2⟩
    exact hdup.leaf hs0 hd hpd hch hne hl1 hl2 hk
  · rintro s' ⟨v', hdup, hl1, -⟩
    rw [wp_pure, show (i * 512 + (j + 1)) * 512 = (i * 512 + j) * 512 + 512 by omega]
    exact ⟨rfl, v', hdup, hl1⟩

lemma Dupped.upper (h : Dupped L s0 v0 fl pd child (i * 512 * 512) s v) (hi : i < 512) :
    wp (walkPt1 (duppage pd child) (fun _ => pure 0) pd i) (fun r s' => r = 0 ∧
      ∃ v', Dupped L s0 v0 fl pd child ((i + 1) * 512 * 512) s' v') NotRefZero s := by
  have hs := h.tr.inv.shape
  have hdead := h.tr.kept.dead.trans hd
  have hroot := hs.root_of_mem (h.tr.kept.roots.symm ▸ hpd)
  refine hs.wp_walk (walkPt2 (duppage pd child) (fun _ => pure 0) i) (fun _ => pure 0) (.inl hroot) hi (by simp [hdead])
    (fun hV => ⟨rfl, v, h.skip (by omega) fun va hge hlt => ?_⟩) fun c h1 =>
      ⟨fun j s' => ∃ v', Dupped L s0 v0 fl pd child ((i * 512 + j) * 512) s' v' ∧ Link s' v' pd i c,
      ⟨v, by rwa [Nat.add_zero], h1⟩, ?_, ?_⟩
  · rw [← h.look_later (hs0.shape.root_of_mem hpd) hge]
    have hx : ptx va 1 = i := by
      have h1 := ptx_lt va 2
      have h2 := ptx_lt va 3
      unfold vpn at hge hlt
      omega
    have hn1 : next s va 1 pd = none := if_neg (by rw [hx]; exact hV)
    unfold look slot
    rw [hn1]
  · rintro j s' hj ⟨v', hdup, hl1⟩
    exact hdup.middle hs0 hd hpd hch hne hl1 hj
  · rintro s' ⟨v', hdup, -⟩
    rw [wp_pure, show (i + 1) * 512 * 512 = (i * 512 + 512) * 512 by omega]
    exact ⟨rfl, v', hdup⟩

lemma Inv.forkWalk : wp (Mm.forkPages pd child) (fun _ s' =>
    (∀ va, look s0 child va = 0 → look s0 pd va ≠ 0 → has (look s0 pd va) pteU = true) ∧
      ∃ v', Rewritten L s0 v0 fl (forked (look s0) s0.ad pd child) s' v') NotRefZero s0 := by
  simp only [Mm.forkPages, pdWalk, wp_bind]
  refine wp_mono (wp_loop_zero (I := fun i s' => ∃ v', Dupped L s0 v0 fl pd child (i * 512 * 512) s' v') pageIndexMax
    ⟨v0, by rw [Nat.zero_mul]; exact .start hs0⟩ fun i s' hi h' => ?_) fun r s' h' => ?_
  · obtain ⟨v', hdup⟩ := h'
    exact hdup.upper hs0 hd hpd hch hne hi
  · obtain ⟨rfl, v', hdup⟩ := h'
    rw [unwrapThen, if_neg (by simp), wp_pure]
    refine ⟨fun va => hdup.user va (vpn_lt va), v', hdup.tr.congr fun r va _ => ?_⟩
    exact if_pos (vpn_lt va)

end Walk

end FarmOS.Mm

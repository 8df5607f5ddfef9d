import FarmOS.Mm.Teardown

/-! The walk that gives back all tables of an address space, from the leaves to the root. -/

namespace FarmOS.Mm

open Lib

variable {L : Layout} {s s' s0 s1 : Phys} {v v' v0 : View} {fl : List ℕ} {t i j c n f pd pt1 pt2 : ℕ}
  {x : ℕ × ℕ} {E : Panic → Prop}

structure Cleared (s : Phys) (v : View) (t i : ℕ) : Prop where
  done (i' c : ℕ) : i' < i → ¬ Link s v t i' c
  todo (i' : ℕ) : i ≤ i' → (t, i') ∉ v.dead

structure Razing (L : Layout) (E : Panic → Prop) (fl : List ℕ) (pd : ℕ) (s0 : Phys) (v0 : View) (s : Phys)
    (v : View) (i : ℕ) : Prop where
  inv : Inv L s v fl
  soft : Soft E s v
  root : pd ∈ v.roots
  roots : v.roots = v0.roots
  held : v.held = v0.held
  own : v.own = v0.own
  lev (t : ℕ) : v.lev t ≠ 0 → v.lev t = v0.lev t
  mem (t : ℕ) : ¬ (v0.lev t = 3 ∧ v0.own t = pd) → s.mem t = s0.mem t
  key (x : ℕ × ℕ) (f : ℕ) : key s v x = some f → key s0 v0 x = some f
  kernPd : s.kernPd = s0.kernPd
  ident : s.ident = s0.ident
  upper : Cleared s v pd i

structure Lower (L : Layout) (E : Panic → Prop) (fl : List ℕ) (pd : ℕ) (s0 : Phys) (v0 : View) (i pt1 : ℕ)
    (s : Phys) (v : View) (j : ℕ) : Prop extends Razing L E fl pd s0 v0 s v i where
  link : Link s v pd i pt1
  lower : Cleared s v pt1 j
  dead (x : ℕ × ℕ) : x ∈ v.dead → x.1 = pd ∨ x.1 = pt1 ∨ v.lev x.1 = 0

structure Upper (L : Layout) (E : Panic → Prop) (fl : List ℕ) (pd : ℕ) (s0 : Phys) (v0 : View) (s : Phys)
    (v : View) (i : ℕ) : Prop extends Razing L E fl pd s0 v0 s v i where
  dead (x : ℕ × ℕ) : x ∈ v.dead → x.1 = pd ∨ v.lev x.1 = 0

lemma Cleared.congr (h : Cleared s v t i) (hl : ∀ i' c, Link s' v' t i' c → Link s v t i' c)
    (hd : ∀ i', i ≤ i' → (t, i') ∈ v'.dead → (t, i') ∈ v.dead) : Cleared s' v' t i :=
  ⟨fun i' c hi hlink => h.done i' c hi (hl i' c hlink), fun i' hi hm => h.todo i' hi (hd i' hi hm)⟩

lemma Cleared.step_unset (h : Cleared s v t i) (hV : ¬ has (s.mem t i) pteV = true) : Cleared s v t (i + 1) := by
  refine ⟨fun i' c hi hl => ?_, fun i' hi => h.todo i' (by omega)⟩
  by_cases he : i' = i
  · have := hl.tgt
    rw [he, target_of_not_V (by simpa using hV)] at this
    cases this
  · exact h.done i' c (by omega) hl

lemma Spent.cleared (h : Spent s v t i c) (hs : Shape L s v) (hc : Cleared s v t i) :
    Cleared s (v.release t i c) t (i + 1) := by
  refine ⟨fun i' n hi hl => ?_, fun i' hi hm => ?_⟩
  · obtain ⟨hold, hn⟩ := (h.linkIff hs).mp hl
    by_cases he : i' = i
    · rw [he] at hold
      exact hn (Option.some.inj (hold.tgt.symm.trans h.link.tgt))
    · exact hc.done i' n (by omega) hold
  · rcases hm with he | hm
    · have := (Prod.mk.inj he).2
      omega
    · exact hc.todo i' (by omega) hm

lemma Cleared.of_agrees (h : Cleared s v t i) (ha : Agrees v s s') : Cleared s' v t i :=
  h.congr (fun _ _ hl => ha.link.mp hl) fun _ _ hm => hm

lemma Spent.lev_zero (t i c : ℕ) (h : v.lev n = 0) : (v.release t i c).lev n = 0 := by
  by_cases hn : n = c
  · rw [hn]
    exact Spent.lev_self v t i c
  · rw [Spent.lev_ne v hn, h]

section

variable (h : Razing L E fl pd s0 v0 s v i)
include h

lemma Razing.owned (hl : Link s v pd i pt1) :
    v.lev pt1 = 2 ∧ v.own pt1 = pd ∧ pd ≠ s.kernPd := by
  have hs := h.inv.shape
  have hr := hs.root_of_mem h.root
  obtain ⟨h1, h2⟩ := hs.link _ _ _ hl
  refine ⟨by omega, by rw [h2, hs.own_root pd hr], fun he => hs.kern_root (he ▸ h.root)⟩

lemma Razing.swept (hlev : v.lev pt2 = 3) (hown : v.own pt2 = pd)
    (hsw : Swept s v pt2 s1) (hinv : Inv L s1 v fl) : Razing L E fl pd s0 v0 s1 v i where
  inv := hinv
  soft x hi hx := h.soft x hi (hsw.key x 0 hx)
  __ := h
  mem t ht := by
    have hne : t ≠ pt2 := by
      rintro rfl
      exact ht ⟨(h.lev t (by omega)).symm.trans hlev, h.own ▸ hown⟩
    rw [hsw.mem t hne, h.mem t ht]
  key x f hk := h.key x f (hsw.key x f hk)
  kernPd := hsw.kernPd.trans h.kernPd
  ident := hsw.ident.trans h.ident
  upper := h.upper.congr (fun _ _ hl => (hsw.link _ _ _).mp hl) fun _ _ hm => hm

lemma Razing.release (hinv : Inv L s' (v.release t j c) fl)
    (hsame : SameMaps s s') (hcl : Cleared s (v.release t j c) pd n) :
    Razing L E fl pd s0 v0 s' (v.release t j c) n where
  inv := hinv
  soft x hi hx := h.soft x hi (Spent.key_old ((hsame.agrees _).key ▸ hx))
  __ := h
  lev t ht := by
    obtain ⟨-, he⟩ := Spent.lev_pos ht
    rw [← he]
    exact h.lev t (he ▸ ht)
  mem t ht := by
    rw [hsame.mem]
    exact h.mem t ht
  key x f hk := h.key x f (Spent.key_old ((hsame.agrees _).key ▸ hk))
  kernPd := hsame.kernPd.trans h.kernPd
  ident := hsame.ident.trans h.ident
  upper := hcl.of_agrees (hsame.agrees _)

end

lemma Lower.stepLink (h : Lower L E fl pd s0 v0 i pt1 s v j) (hl : Link s v pt1 j pt2)
    (hsw : Swept s v pt2 s1) (hinv : Inv L s1 v fl) (hz : ∀ k < 512, s1.mem pt2 k = 0) :
    wp (kvmUnmapper pt2) (fun r s' => r = 0 ∧ ∃ v', Lower L E fl pd s0 v0 i pt1 s' v' (j + 1)) E s1 := by
  obtain ⟨hlev, hown, hk⟩ := h.toRazing.owned h.link
  have hs := hinv.shape
  have hl' := (hsw.link _ _ _).mpr hl
  obtain ⟨h1, h2⟩ := h.inv.shape.link _ _ _ hl
  have hraz := h.toRazing.swept (by omega) (h2.trans hown) hsw hinv
  have hspent : Spent s1 v pt1 j pt2 := by
    refine ⟨hl', fun k hk => ?_, ?_⟩
    · unfold Mm.key
      rw [hz k hk]
      simp
    · rw [h2, hown, hsw.kernPd]
      exact hk
  refine wp_mono (hinv.freeTable hspent) fun r s2 h' => ?_
  obtain ⟨hr, hinv2, hsame⟩ := h'
  have ha := hsame.agrees (v.release pt1 j pt2)
  have hroot := h.inv.shape.root_of_mem h.root
  have hpd : pd ≠ pt1 := by
    rintro rfl
    omega
  have hlow : Cleared s1 v pt1 j := h.lower.congr (fun _ _ hl => (hsw.link _ _ _).mp hl) fun _ _ hm => hm
  have hupper : Cleared s1 (v.release pt1 j pt2) pd i := by
    refine hraz.upper.congr (fun i' c' hl => ((hspent.linkIff hs).mp hl).1) fun i' _ hm => ?_
    rcases hm with he | hm
    · exact absurd (Prod.mk.inj he).1 hpd
    · exact hm
  refine ⟨hr, v.release pt1 j pt2, hraz.release hinv2 hsame hupper, ?_, ?_,
    fun x hx => ?_⟩
  · refine ha.link.mpr ((hspent.linkIff hs).mpr ⟨(hsw.link _ _ _).mpr h.link, ?_⟩)
    rintro rfl
    omega
  · exact (hspent.cleared hs hlow).of_agrees ha
  · rcases hx with rfl | hx
    · exact .inr (.inl rfl)
    · exact (h.dead x hx).imp_right (Or.imp_right (Spent.lev_zero pt1 j pt2))

lemma Lower.step (h : Lower L E fl pd s0 v0 i pt1 s v j) (hj : j < 512) :
    wp (walkPt2 (vmUnmapper pd) kvmUnmapper i pt1 j)
      (fun r s' => r = 0 ∧ ∃ v', Lower L E fl pd s0 v0 i pt1 s' v' (j + 1)) E s := by
  have hlev := (h.toRazing.owned h.link).1
  simp only [walkPt2, load, wp_bind, wp_get, wp_pure, wp_ite]
  refine ⟨fun hV => ?_, fun hV => ⟨trivial, v, h.toRazing, h.link, h.lower.step_unset hV, h.dead⟩⟩
  obtain ⟨c, hc⟩ := h.inv.shape.link_some pt1 j (.inr hlev) hj (h.lower.todo j (Nat.le_refl j)) hV
  have hl : Link s v pt1 j c := ⟨.inr hlev, hj, h.lower.todo j (Nat.le_refl j), hc⟩
  rw [((target_eq_some_iff _ _).mp hc).2]
  refine wp_mono (h.inv.clearTable h.soft h.root h.link hl) fun r s1 h1 => ?_
  obtain ⟨rfl, hinv, hsw, hz⟩ := h1
  rw [unwrapThen, if_neg (by simp)]
  exact h.stepLink hl hsw hinv hz

lemma Lower.empty (h : Lower L E fl pd s0 v0 i pt1 s v 512) (hj : j < 512) : Mm.key s v (pt1, j) = none := by
  cases hk : Mm.key s v (pt1, j) with
  | none => rfl
  | some c =>
    unfold Mm.key at hk
    split at hk
    · next hc =>
      exact absurd ⟨.inr (h.toRazing.owned h.link).1, hj, hc.2.1, hk⟩ (h.lower.done j c hj)
    · cases hk

lemma Lower.finish (h : Lower L E fl pd s0 v0 i pt1 s v 512) :
    wp (kvmUnmapper pt1) (fun r s' => r = 0 ∧ ∃ v', Upper L E fl pd s0 v0 s' v' (i + 1)) E s := by
  obtain ⟨hlev, hown, hk⟩ := h.toRazing.owned h.link
  have hspent : Spent s v pd i pt1 := ⟨h.link, fun j hj => h.empty hj, hown.symm ▸ hk⟩
  refine wp_mono (h.inv.freeTable hspent) fun r s2 h' => ?_
  obtain ⟨hr, hinv2, hsame⟩ := h'
  refine ⟨hr, v.release pd i pt1, h.toRazing.release hinv2 hsame (hspent.cleared h.inv.shape h.upper), fun x hx => ?_⟩
  rcases hx with rfl | hx
  · exact .inl rfl
  · rcases h.dead x hx with h0 | h0 | h0
    · exact .inl h0
    · exact .inr (by rw [h0]; exact Spent.lev_self v pd i pt1)
    · exact .inr (Spent.lev_zero pd i pt1 h0)

lemma Upper.step (h : Upper L E fl pd s0 v0 s v i) (hi : i < 512) : wp (walkPt1 (vmUnmapper pd) kvmUnmapper pd i)
      (fun r s' => r = 0 ∧ ∃ v', Upper L E fl pd s0 v0 s' v' (i + 1)) E s := by
  have hroot := h.inv.shape.root_of_mem h.root
  refine h.inv.shape.wp_walk (walkPt2 (vmUnmapper pd) kvmUnmapper i) kvmUnmapper (.inl hroot) hi
    (h.upper.todo i (Nat.le_refl i))
    (fun hV => ⟨rfl, v, { h.toRazing with upper := h.upper.step_unset hV }, h.dead⟩) fun c hl =>
    ⟨fun j s' => ∃ v', Lower L E fl pd s0 v0 i c s' v' j, ⟨v, h.toRazing, hl,
      ⟨fun j _ hj => absurd hj (Nat.not_lt_zero j),
      fun j _ hm => ?_⟩, fun x hx => (h.dead x hx).imp_right .inr⟩, ?_, ?_⟩
  · have hlev := (h.toRazing.owned hl).1
    rcases h.dead _ hm with h0 | h0
    · simp only at h0
      rw [h0] at hlev
      omega
    · simp only at h0
      omega
  · rintro j s' hj ⟨v', hlow⟩
    exact hlow.step hj
  · rintro s' ⟨v', hlow⟩
    exact hlow.finish

lemma Upper.bare (h : Upper L E fl pd s0 v0 s v 512) : Bare s v pd :=
  ⟨h.root, fun i c hl => h.upper.done i c hl.index hl, h.dead⟩

structure Razed (L : Layout) (s : Phys) (v : View) (fl : List ℕ) (pd : ℕ) (s' : Phys) (v' : View) : Prop where
  inv : Inv L s' v' fl
  dead : v'.dead = ∅
  roots : v'.roots = v.roots.erase pd
  held : v'.held = v.held.erase pd
  lev (t : ℕ) : v'.lev t ≠ 0 → v.lev t ≠ 0
  mem (t : ℕ) : ¬ (v.lev t = 3 ∧ v.own t = pd) → s'.mem t = s.mem t
  key (x : ℕ × ℕ) (f : ℕ) : key s' v' x = some f → key s v x = some f
  kernPd : s'.kernPd = s.kernPd
  ident : s'.ident = s.ident

lemma Inv.recycleUpt (h : Inv L s v fl) (hE : Soft E s v) (hd : v.dead = ∅) (hpd : pd ∈ v.roots) :
    wp (recycleUpt pd) (fun r s' => r = 0 ∧ ∃ v', Razed L s v fl pd s' v') E s := by
  have hstart : Upper L E fl pd s v s v 0 :=
    { inv := h, soft := hE, root := hpd, roots := rfl, held := rfl, own := rfl, lev := fun _ _ => rfl
      mem := fun _ _ => rfl, key := fun _ _ hk => hk, kernPd := rfl, ident := rfl
      upper := ⟨fun i _ hi => absurd hi (Nat.not_lt_zero i), fun _ _ => by simp [hd]⟩
      dead := fun x hx => by simp [hd] at hx }
  simp only [Mm.recycleUpt, pdWalk, wp_bind]
  refine wp_mono (wp_loop_zero (I := fun i s' => ∃ v', Upper L E fl pd s v s' v' i) pageIndexMax ⟨v, hstart⟩
    fun i s' hi h' => ?_) fun r s1 h1 => ?_
  · obtain ⟨v', hup⟩ := h'
    exact hup.step hi
  · obtain ⟨rfl, v', hup⟩ := h1
    rw [unwrapThen, if_neg (by simp)]
    refine wp_mono (hup.inv.freeRoot hup.bare) fun r s2 ⟨hr, hinv, hsame⟩ => ⟨hr, v'.fell pd, ?_⟩
    exact
      { inv := hinv
        dead := rfl
        roots := by rw [View.fell, hup.roots]
        held := by rw [View.fell, hup.held]
        lev := fun t ht => by
          obtain ⟨-, he⟩ := Bare.lev_pos ht
          rw [← he] at ht
          rwa [hup.lev t ht] at ht
        mem := fun t ht => by rw [hsame.mem]; exact hup.mem t ht
        key := fun x f hk => hup.key x f (hup.bare.key_old ((hsame.agrees _).key ▸ hk))
        kernPd := hsame.kernPd.trans hup.kernPd
        ident := hsame.ident.trans hup.ident }

end FarmOS.Mm

import FarmOS.Fat.Content

/-! A chain of clusters that grows behind its first clusters, as `file_extend` lets it grow. -/

namespace FarmOS.Fat

open Lib Function List View Nat

structure Linked (f : Super) (v : View) (a : ℕ) (l : List ℕ) : Prop extends Row f l where
  chain : l ≠ [] → Chain v.fat Ended a l
  nil : l = [] → a = 0

structure Grown (v : View) (l : List ℕ) (n : ℕ) (v' : View) (l' : List ℕ) : Prop where
  take : l'.take n = l.take n
  le : n ≤ l'.length
  fresh {c : ℕ} : c ∈ l'.drop n → v.fat c = 0 ∧ v'.fat c ≠ 0 ∧ v'.data c = fun _ => 0
  kept {c : ℕ} : v.fat c ≠ 0 → v'.fat c ≠ 0
  fat {c : ℕ} : v.fat c ≠ 0 → c ∉ l → v'.fat c = v.fat c
  data {c : ℕ} : v.fat c ≠ 0 → v'.data c = v.data c

section Alloc

variable {v : View} {p c x : ℕ}

lemma fat_alloc_self : (v.alloc p c).fat c = fat32Eof := by
  rw [alloc, fat_zero, fat_setFat, update_self]

lemma fat_alloc_prev (hp : p ≠ 0) (hne : p ≠ c) : (v.alloc p c).fat p = c := by
  rw [alloc, fat_zero, fat_setFat, update_of_ne hne, if_neg hp, fat_setFat,
    update_self]

lemma fat_alloc_of_ne (hp : x ≠ p ∨ p = 0) (hc : x ≠ c) : (v.alloc p c).fat x = v.fat x := by
  rw [alloc, fat_zero, fat_setFat, update_of_ne hc]
  split_ifs with h
  · rfl
  · rw [fat_setFat, update_of_ne (hp.resolve_right h)]

lemma data_alloc_self : (v.alloc p c).data c = fun _ => 0 := by
  rw [alloc, data_zero, update_self]

lemma data_alloc_of_ne (hc : x ≠ c) : (v.alloc p c).data x = v.data x := by
  rw [alloc, data_zero, update_of_ne hc, data_setFat]
  split_ifs
  · rfl
  · rw [data_setFat]

end Alloc

lemma ended_fat32Eof : Ended fat32Eof := rfl

lemma Consistent.not_ended {f : Super} {c : ℕ} (hf : Consistent f) (hc : f.Valid c) : ¬ Ended c := by
  rw [Ended, hf.notEndCluster hc]
  exact Bool.noConfusion

namespace Linked

variable {f : Super} {v : View} {a : ℕ} {l : List ℕ} {n p c : ℕ}

lemma fat_ne_zero (h : Linked f v a l) (hf : Consistent f) (hc : c ∈ l) : v.fat c ≠ 0 := fun h0 => by
  obtain hm | he := (h.chain (ne_nil_of_mem hc)).next_mem hc
  · have hv := hf.valid_iff.mp (h.valid _ hm)
    omega
  · rw [h0] at he
    exact Bool.noConfusion he

lemma congr {v' : View} (h : Linked f v a l) (hv : ∀ c ∈ l, v'.fat c = v.fat c) : Linked f v' a l where
  __ := h
  chain hl := (h.chain hl).congr hv

lemma start (hf : Consistent f) (hc : f.Valid c) (h0 : v.fat c = 0) :
    Linked f (v.alloc 0 c) c [c] ∧ Grown v [] 0 (v.alloc 0 c) [c] := by
  refine ⟨⟨⟨fun x hx => ?_, nodup_singleton c⟩, fun _ => ⟨rfl, hf.not_ended hc, ?_⟩, fun h => absurd h nofun⟩, ?_⟩
  · rwa [mem_singleton.mp hx]
  · rw [fat_alloc_self]
    exact ended_fat32Eof
  · have hne {x : ℕ} (hx : v.fat x ≠ 0) : x ≠ c := fun h => hx (h ▸ h0)
    refine ⟨rfl, zero_le _, fun {x} hx => ?_, fun {x} hx => ?_, fun hx _ => ?_, fun hx => ?_⟩
    · obtain rfl := mem_singleton.mp hx
      rw [fat_alloc_self]
      exact ⟨h0, by decide, data_alloc_self⟩
    · rwa [fat_alloc_of_ne (.inr rfl) (hne hx)]
    · exact fat_alloc_of_ne (.inr rfl) (hne hx)
    · exact data_alloc_of_ne (hne hx)

lemma grow (h : Linked f v a l) (hf : Consistent f) (hn : l[n]? = some p) (hc : f.Valid c) (h0 : v.fat c = 0) :
    Linked f (v.alloc p c) a (l.take (n + 1) ++ [c]) ∧ Grown v l (n + 1) (v.alloc p c) (l.take (n + 1) ++ [c]) := by
  have hpl : p ∈ l := mem_of_getElem? hn
  obtain ⟨hlt, rfl⟩ := List.getElem?_eq_some_iff.mp hn
  have hp0 : l[n] ≠ 0 := fun h0 => by
    have := hf.valid_iff.mp (h.valid _ hpl)
    omega
  have hc0 : c ≠ 0 := fun h0 => by
    have := hf.valid_iff.mp hc
    omega
  have hcl : c ∉ l := fun hm => h.fat_ne_zero hf hm h0
  have hne {x : ℕ} (hx : v.fat x ≠ 0) : x ≠ c := fun h => hx (h ▸ h0)
  have hpc : l[n] ≠ c := hne (h.fat_ne_zero hf hpl)
  have hlen : (l.take (n + 1)).length = n + 1 := by
    rw [length_take]
    omega
  have hdrop : (l.take (n + 1) ++ [c]).drop (n + 1) = [c] := drop_left' hlen
  refine ⟨⟨⟨fun x hx => ?_, ?_⟩, fun _ => ?_, fun hnil => absurd hnil (by simp)⟩, ?_⟩
  · obtain hx | hx := mem_append.mp hx
    · exact h.valid x (mem_of_mem_take hx)
    · rwa [mem_singleton.mp hx]
  · refine nodup_append.mpr ⟨h.nodup.sublist (take_sublist _ _), nodup_singleton c, ?_⟩
    rintro x hx y hy rfl
    exact hcl (mem_singleton.mp hy ▸ mem_of_mem_take hx)
  · refine (h.chain (ne_nil_of_mem hpl)).splice hlt (fun x hx => ?_) ?_
    · refine fat_alloc_of_ne (.inl fun he => ?_) fun he => hcl (he ▸ mem_of_mem_take hx)
      obtain ⟨j, hj, rfl⟩ := getElem_of_mem hx
      rw [getElem_take] at he
      rw [length_take] at hj
      have := h.nodup.getElem_inj_iff.mp he
      omega
    · rw [fat_alloc_prev hp0 hpc]
      exact ⟨rfl, hf.not_ended hc, by rw [fat_alloc_self]; exact ended_fat32Eof⟩
  · refine ⟨take_left' hlen, by rw [length_append, hlen]; omega, fun {x} hx => ?_, fun {x} hx => ?_,
      fun hx hxl => ?_, fun hx => ?_⟩
    · rw [hdrop] at hx
      obtain rfl := mem_singleton.mp hx
      rw [fat_alloc_self]
      exact ⟨h0, by decide, data_alloc_self⟩
    · by_cases hxp : x = l[n]
      · rwa [hxp, fat_alloc_prev hp0 hpc]
      · rwa [fat_alloc_of_ne (.inl hxp) (hne hx)]
    · exact fat_alloc_of_ne (.inl fun he => hxl (he ▸ hpl)) (hne hx)
    · exact data_alloc_of_ne (hne hx)

end Linked

namespace Grown

variable {f : Super} {v v1 v' : View} {l l1 l' : List ℕ} {n : ℕ}

lemma trans (h : Grown v l n v1 l1) (h' : Grown v1 l1 l1.length v' l') : Grown v l n v' l' := by
  have ht : l'.take l1.length = l1 := h'.take.trans (take_length)
  have hd : l'.drop n = l1.drop n ++ l'.drop l1.length := by
    have hcat : l' = l1 ++ l'.drop l1.length := by
      conv_lhs => rw [← take_append_drop l1.length l', ht]
    conv_lhs => rw [hcat, drop_append_of_le_length h.le]
  refine ⟨?_, le_trans h.le h'.le, fun {c} hc => ?_, fun hc => h'.kept (h.kept hc), fun {c} hc hl => ?_,
    fun hc => ?_⟩
  · rw [← h.take, ← ht, take_take, min_eq_left h.le]
  · rw [hd, mem_append] at hc
    obtain hc | hc := hc
    · obtain ⟨h0, hn, hz⟩ := h.fresh hc
      exact ⟨h0, h'.kept hn, (h'.data hn).trans hz⟩
    · obtain ⟨h0, hn, hz⟩ := h'.fresh hc
      exact ⟨by_contra fun hne => h.kept hne h0, hn, hz⟩
  · have hc1 : c ∉ l1 := fun hm => by
      rw [← take_append_drop n l1, h.take, mem_append] at hm
      obtain hm | hm := hm
      · exact hl (mem_of_mem_take hm)
      · exact hc (h.fresh hm).1
    exact (h'.fat (h.kept hc) hc1).trans (h.fat hc hl)
  · exact (h'.data (h.kept hc)).trans (h.data hc)

lemma content_eq (h : Grown v l n v' l') (hl : ∀ c ∈ l, v.fat c ≠ 0) :
    content f v' l' = fun o => if o / f.clusSize < n then content f v l o else 0 := by
  funext o
  split_ifs with ho
  · have he : l'[o / f.clusSize]? = l[o / f.clusSize]? := by
      rw [← List.getElem?_take_of_lt ho, h.take, List.getElem?_take_of_lt ho]
    rw [content, content, he]
    cases hi : l[o / f.clusSize]? with
    | none => rfl
    | some c => exact congrFun (h.data (hl c (mem_of_getElem? hi))) _
  · rw [content]
    cases hi : l'[o / f.clusSize]? with
    | none => rfl
    | some c =>
      have hm : c ∈ l'.drop n := by
        rw [show o / f.clusSize = n + (o / f.clusSize - n) by omega, ← List.getElem?_drop] at hi
        exact mem_of_getElem? hi
      exact congrFun (h.fresh hm).2.2 _

end Grown

def Full (p : Panic) : Prop := p = .volumeFull ∨ p = .noPage

def Fails (f : Super) (newSize : ℕ) (p : Panic) : Prop := Full p ∨ p = .outOfTable ∧ tableSize < cls f newSize

section Extend

variable {f : Super} {s : State} {v : View} {a file newSize k i clus : ℕ} {l : List ℕ} {E : Panic → Prop}

lemma Mirrors.snoc {p p' : Pointer} {c n : ℕ} (hm : Mirrors p l n) (hn : n ≤ l.length)
    (hp : p'.entry = update p.entry n c) : Mirrors p' (l.take n ++ [c]) (n + 1) := by
  have hlen : (l.take n).length = n := by
    rw [length_take]
    omega
  intro j hj
  rw [hp]
  by_cases hjn : j = n
  · subst hjn
    rw [update_self, List.getElem?_append_right (by omega), hlen, Nat.sub_self]
    rfl
  · rw [update_of_ne hjn, List.getElem?_append_left (by omega), List.getElem?_take_of_lt (by omega)]
    exact hm j (by omega)

inductive Extends (f : Super) (v : View) (l : List ℕ) (n newSize : ℕ) : View → List ℕ → Prop
  | enough : newSize ≤ n * f.clusSize → Extends f v l n newSize v l
  | grown {v' l'} : n * f.clusSize < newSize → Grown v l n v' l' → l'.length = cls f newSize →
      Extends f v l n newSize v' l'

lemma Extends.trans {v1 v' : View} {l1 l' : List ℕ} {n : ℕ} (hf : Consistent f) (hlt : n * f.clusSize < newSize)
    (hlen : l1.length = n + 1) (h : Grown v l n v1 l1) (h' : Extends f v1 l1 (n + 1) newSize v' l') :
    Extends f v l n newSize v' l' := by
  cases h' with
  | enough hle =>
    refine .grown hlt h (hlen.trans ?_)
    exact le_antisymm ((lt_cls hf).mpr hlt) ((cls_le hf).mpr hle)
  | grown _ hg hl =>
    rw [← hlen] at hg
    exact .grown hlt (h.trans hg) hl

lemma wp_extendLoop {Q : Unit → State → Prop} (hf : Consistent f) (hv : Shows f s.disk v) (hl : Linked f v a l)
    (hi : l[i]? = some clus) (hm : Mirrors (s.dirents file).pointer l (i + 1)) (hN : newSize + f.clusSize ≤ 2 ^ 32)
    (hlt : i * f.clusSize < newSize) (ht : i < tableSize) (hk : i + k = tableSize)
    (hQ : ∀ v' l' p d' n, cls f newSize ≤ tableSize → Shows f d' v' → Linked f v' a l' →
      Extends f v l (i + 1) newSize v' l' → Mirrors p l' (cls f newSize) → p.valid = (s.dirents file).pointer.valid →
      Q () (s.filed file d' ((s.dirents file).setPointer p) n))
    (hE : ∀ p, Fails f newSize p → E p) : wp (extendLoop f file newSize k i clus) Q E s := by
  have hcs := hf.clusSize_lt
  induction k generalizing s v l i clus with
  | zero => omega
  | succ k ih =>
    obtain ⟨hil, -⟩ := List.getElem?_eq_some_iff.mp hi
    have hmul : (i + 1) * f.clusSize = i * f.clusSize + f.clusSize := succ_mul ..
    rw [extendLoop, wp_ite, wp_pure, u32, mod_eq_of_lt (by omega)]
    refine ⟨fun hgo => ?_, fun hstop => ?_⟩
    · have hclus : f.Valid clus := hl.valid _ (mem_of_getElem? hi)
      have hin : i + 1 < cls f newSize := (lt_cls hf).mpr hgo
      rw [wp_bind]
      refine wp_clusterAlloc hf hv (.inr hclus) (fun c d1 hc h0 _ h1 => ?_) (hE _ (.inl (.inl rfl)))
      obtain ⟨hl1, hg1⟩ := hl.grow hf hi hc h0
      have hlen1 : (l.take (i + 1) ++ [c]).length = i + 1 + 1 := by
        rw [length_append, length_take, length_singleton]
        omega
      have hi1 : (l.take (i + 1) ++ [c])[i + 1]? = some c := by
        rw [List.getElem?_append_right (by rw [length_take]; omega), length_take,
          show i + 1 - min (i + 1) l.length = 0 by omega]
        rfl
      rw [wp_bind]
      refine wp_filepntSetval (fun ht1 p n hp hpv => ?_) (hE _ (.inl (.inr rfl)))
        fun hover => hE _ (.inr ⟨rfl, lt_of_le_of_lt hover hin⟩)
      rw [filed_onDisk, dirents_onDisk, disk_onDisk]
      refine ih h1 hl1 hi1 ?_ hgo ht1 (by omega) fun v' l' p' d' n' hN' h' hl' he hm' hv' => ?_
      · rw [dirents_filed_self]
        exact hm.snoc hil hp
      · rw [filed_filed, dirents_filed_self]
        rw [dirents_filed_self] at hv'
        exact hQ v' l' p' d' n' hN' h' hl' (.trans hf hgo hlen1 hg1 he) hm' (hv'.trans hpv)
    · have hstop := not_lt.mp hstop
      have hcls : cls f newSize ≤ i + 1 := (cls_le hf).mpr hstop
      have hq := hQ v l (s.dirents file).pointer s.disk s.pages (le_trans hcls ht) hv hl (.enough hstop)
        (fun j hj => hm j (lt_of_lt_of_le hj hcls)) rfl
      rwa [Dirent.setPointer, ← onDisk_eq_filed] at hq

end Extend

end FarmOS.Fat

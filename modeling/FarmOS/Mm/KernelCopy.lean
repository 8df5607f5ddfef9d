import FarmOS.Mm.Live

/-! The kernel's copies against the loads of the user. -/

namespace FarmOS.Mm

open Lib List

def Seen (procs : List ℕ) (s : Phys) : Prop := ∀ q ∈ procs, ∀ va,
  (has (look s q va) pteV = false → content s q va = 0) ∧
  (Usable false (look s q va) → wp (userLoad q va) (fun r _ => r = some (content s q va)) OutOfMemory s)

structure CopiedIn (procs : List ℕ) (s : Phys) (pd : ℕ) (uptr : BitVec 64) (len : ℕ) (data : List Byte) (s' : Phys) :
    Prop where
  seen : Seen procs s'
  bytes : data = contents s pd uptr len
  same (q : ℕ) (va : BitVec 64) : q ∈ procs → content s' q va = content s q va
  usable (write : Bool) (q : ℕ) (va : BitVec 64) : q ∈ procs → Usable write (look s q va) → Usable write (look s' q va)

def ReachedTwice (s : Phys) (pd : ℕ) (uptr : BitVec 64) (n r : ℕ) (va : BitVec 64) : Prop :=
  Shared (look s r va) ∧ ∃ i, i < n ∧ Kin s r va pd (uptr + BitVec.ofNat 64 i) ∧
    ¬ (r = pd ∧ SamePage va (uptr + BitVec.ofNat 64 i))

def Inside (uptr : BitVec 64) (n : ℕ) (va : BitVec 64) : Prop := uptr.toNat ≤ va.toNat ∧ va.toNat < uptr.toNat + n

structure CopiedOut (procs : List ℕ) (s : Phys) (pd : ℕ) (uptr : BitVec 64) (data : List Byte) (s' : Phys) : Prop where
  seen : Seen procs s'
  bytes (i : ℕ) : i < data.length → ¬ ReachedTwice s pd uptr data.length pd (uptr + BitVec.ofNat 64 i) →
    data[i]? = some (content s' pd (uptr + BitVec.ofNat 64 i))
  same (q : ℕ) (va : BitVec 64) : q ∈ procs → va.toNat < 2 ^ 38 → ¬ (q = pd ∧ Inside uptr data.length va) →
    ¬ ReachedTwice s pd uptr data.length q va → content s' q va = content s q va
  usable (write : Bool) (q : ℕ) (va : BitVec 64) : q ∈ procs → Usable write (look s q va) → Usable write (look s' q va)
  back : Accessible s false pd uptr data.length →
    (∀ i, i < data.length → ¬ ReachedTwice s pd uptr data.length pd (uptr + BitVec.ofNat 64 i)) →
    wp (copyIn pd uptr data.length) (fun d _ => d = data) OutOfMemory s'

variable {L : Layout} {s s' : Phys} {v : View} {fl : List ℕ} {pd r len : ℕ} {va uptr : BitVec 64} {data : List Byte}

lemma covers_eq_none (h : ¬ Inside uptr data.length va) : covers uptr.toNat data va = none := by
  rw [Inside] at h
  unfold covers
  split
  · exact getElem?_eq_none (by omega)
  · rfl

lemma reachedTwice_of_aliased (h : Shared (look s r va) ∧ Aliased s pd (covers uptr.toNat data) r va) :
    ReachedTwice s pd uptr data.length r va := by
  obtain ⟨hsh, va', hit, hlt, hk, hne⟩ := h
  have hin : Inside uptr data.length va' := by_contra fun hn => hit (covers_eq_none hn)
  obtain ⟨hle, hend⟩ := hin
  obtain ⟨i, hi⟩ : ∃ i, va'.toNat = uptr.toNat + i := ⟨va'.toNat - uptr.toNat, by omega⟩
  have hva : va' = uptr + BitVec.ofNat 64 i := by
    apply BitVec.eq_of_toNat_eq
    rw [toNat_add_ofNat (by omega), hi]
  exact ⟨hsh, i, by omega, hva ▸ hk, hva ▸ hne⟩

lemma Stored.bytes {roots : List ℕ} (h : Stored roots pd (covers uptr.toNat data) s s') (hpd : pd ∈ roots)
    (hb : uptr.toNat + data.length ≤ 2 ^ 38) {i : ℕ} (hi : i < data.length)
    (hn : ¬ ReachedTwice s pd uptr data.length pd (uptr + BitVec.ofNat 64 i)) :
    data[i]? = some (Mm.content s' pd (uptr + BitVec.ofNat 64 i)) := by
  have hlt : (uptr + BitVec.ofNat 64 i).toNat < 2 ^ 38 := by
    rw [toNat_add_ofNat (by omega)]
    omega
  rw [h.content pd _ hpd hlt fun ha => hn (reachedTwice_of_aliased ha), if_pos rfl, covers, toNat_add_ofNat (by omega),
    if_pos (by omega), Nat.add_sub_cancel_left, getElem?_eq_getElem hi]
  rfl

section Copies

variable (h : Walled L s v fl) (hu : 0 < L.pageused)
include h hu

lemma Walled.seen : Seen v.roots s := fun q hq va =>
  ⟨fun hV => by rw [content, target_of_not_V hV], h.load_content hu hq⟩

lemma Walled.copyIn (hpd : pd ∈ v.roots) (ha : Accessible s false pd uptr len) :
    wp (copyIn pd uptr len) (fun d s' => CopiedIn v.roots s pd uptr len d s') OutOfMemory s := by
  refine wp_mono ((walled_stable L fl).copyIn hu h hpd ha) fun d s' ⟨⟨hq, hd⟩, v', hw, hr⟩ => ?_
  exact ⟨hr ▸ hw.seen hu, hd, hq.content, hq.usable⟩

lemma Walled.copyOut (hpd : pd ∈ v.roots) (ha : Accessible s true pd uptr data.length) :
    wp (copyOut pd uptr data) (fun _ s' => CopiedOut v.roots s pd uptr data s') OutOfMemory s := by
  refine wp_mono ((walled_stable L fl).copyOut hu h hpd ha) fun _ s' ⟨hst, v', hw, hr⟩ => ?_
  refine ⟨hr ▸ hw.seen hu, fun i hi hn => hst.bytes hpd ha.1 hi hn, fun q va hq hva hout hn => ?_, hst.usable,
    fun hread hn => ?_⟩
  · rw [hst.content q va hq hva fun hal => hn (reachedTwice_of_aliased hal)]
    split
    · next hqp => rw [covers_eq_none fun hin => hout ⟨hqp, hin⟩, Option.getD_none]
    · rfl
  · have hread' : Accessible s' false pd uptr data.length :=
      ⟨hread.1, fun i hi => hst.usable false pd _ hpd (hread.2 i hi)⟩
    refine wp_mono (hw.copyIn hu (hr.symm ▸ hpd) hread') fun d _ hd => ?_
    rw [hd.bytes]
    apply ext_getElem?
    intro i
    by_cases hi : i < data.length
    · rw [hst.bytes hpd ha.1 hi (hn i hi), contents, getElem?_map, getElem?_range hi, Option.map_some]
    · rw [getElem?_eq_none (by rw [contents, length_map, length_range]; omega),
        getElem?_eq_none (by omega)]

end Copies

theorem kernel_copies_match_loads (b : Board) (img : Image b.layout) (mem : ℕ → ℕ → BitVec 64) :
    wp (boot b) (fun _ s => ∀ ls x,
      Run (fun x l x' => Life.Step img x l x' ∧ l.Careful b.layout x) (.start s) ls x →
      Seen x.users.procs x.users.phys ∧ ∀ pd ∈ x.users.procs, ∀ uptr : BitVec 64,
        (∀ len, Accessible x.users.phys false pd uptr len → wp (copyIn pd uptr len)
          (fun data s' => CopiedIn x.users.procs x.users.phys pd uptr len data s') OutOfMemory x.users.phys) ∧
        ∀ data, Accessible x.users.phys true pd uptr data.length → wp (copyOut pd uptr data)
          (fun _ s' => CopiedOut x.users.procs x.users.phys pd uptr data s') OutOfMemory x.users.phys)
      NotRefZero (powerOn b mem) := by
  refine wp_mono (wp_boot_live b img mem) fun _ s h ls x hrun => ?_
  obtain ⟨v, hv⟩ := h ls x hrun
  rw [← hv.roots]
  exact ⟨hv.walled.seen img.used_pos, fun pd hpd uptr =>
    ⟨fun _ ha => hv.walled.copyIn img.used_pos hpd ha, fun _ ha => hv.walled.copyOut img.used_pos hpd ha⟩⟩

theorem copyOut_through_mprotect : ∃ x, Run (Doing.Step smallImage) (.start smallMachine) protectAfterFork x ∧
    x.users.procs = [12, 4] ∧ Accessible x.users.phys true 12 privateVa 1 ∧
    ¬ Shared (look x.users.phys 12 privateVa) ∧ ¬ Shared (look x.users.phys 4 privateVa) ∧
    ∃ s', (copyOut 12 privateVa [0xaa]).run x.users.phys = .ok ((), s') ∧
      content x.users.phys 4 privateVa = 0 ∧ content s' 4 privateVa = 0xaa := by
  have hrun : runDoings smallImage (.start smallMachine) (fun x =>
      x.users.procs == [12, 4] && has (look x.users.phys 12 privateVa) pteU &&
      has (look x.users.phys 12 privateVa) pteW && !decide (Shared (look x.users.phys 12 privateVa)) &&
      !decide (Shared (look x.users.phys 4 privateVa)) &&
      returns (copyOut 12 privateVa [0xaa]) x.users.phys (fun _ s' =>
        content x.users.phys 4 privateVa == 0 && content s' 4 privateVa == 0xaa)) protectAfterFork = true := by
    decide +kernel
  obtain ⟨x, hr, h⟩ := run_of_runDoings hrun
  simp only [Bool.and_eq_true, Bool.not_eq_true', beq_iff_eq, decide_eq_false_iff_not] at h
  obtain ⟨⟨⟨⟨⟨hprocs, hU⟩, hW⟩, hns⟩, hns'⟩, hcopy⟩ := h
  obtain ⟨_, s', hc, h⟩ := exists_of_returns hcopy
  simp only [Bool.and_eq_true, beq_iff_eq] at h
  refine ⟨x, hr, hprocs, ⟨by decide, fun i hi => ?_⟩, hns, hns', s', hc, h.1, h.2⟩
  obtain rfl : i = 0 := by omega
  rw [BitVec.add_zero]
  exact ⟨hU, .inl hW⟩

end FarmOS.Mm

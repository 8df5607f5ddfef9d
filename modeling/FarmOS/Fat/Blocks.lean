import FarmOS.Fat.Mount
import FarmOS.Fs.BufTransparent

/-! `kern/fs/cluster.c` over the block cache of `kern/fs/buf.c`: the tables and the clusters of a volume as its reads
return them. -/

namespace FarmOS.Fat.Blocks

open Lib Fs.Buf Function List Nat

variable {n : ℕ}

def bytes (b : Block) (i : ℕ) : Byte := if h : i < bufSize then (b ⟨i, h⟩).toBitVec else 0

def block (m : ℕ → Byte) : Block := fun i => ⟨m i⟩

def device (m : UInt64 → Block) : Fat.Disk := fun sec =>
  if sec < 2 ^ 64 then bytes (m (UInt64.ofNat sec)) else fun _ => 0

inductive Halt
  | noBuffer | badCluster | outOfCluster | volumeFull
deriving DecidableEq

abbrev C (n : ℕ) := Prog (Cache n) Halt

section Code

variable (dev : UInt32) (f : Super)

def getBlock (sec : ℕ) (isRead : Bool) : C n (Ptr n) := fun s =>
  match bufRead s dev (UInt64.ofNat sec) isRead with
  | some r => .ok r
  | none => .error .noBuffer

def load (buf : Ptr n) (off len : ℕ) : C n (List Byte) := do
  let s ← get
  pure (slice (bytes (s.at buf).data) off len)

def store (buf : Ptr n) (off : ℕ) (src : List Byte) : C n Unit :=
  modify fun s => Fs.Buf.store s buf (block (blit (bytes (s.at buf).data) off src))

def release (buf : Ptr n) : C n Unit := modify fun s => bufRelease s buf

def readLoop : ℕ → ℕ → ℕ → ℕ → C n (List Byte)
  | 0, _, _, _ => pure []
  | fuel + 1, secno, secoff, left =>
    if left = 0 then pure []
    else do
      let len := min (f.bytesPerSec.toNat - secoff) left
      let buf ← getBlock dev secno true
      let part ← load buf secoff len
      release buf
      let rest ← readLoop fuel (secno + 1) 0 (left - len)
      pure (part ++ rest)

def clusterRead (cluster offset len : ℕ) : C n (List Byte) :=
  if f.clusSize < offset + len then throw .outOfCluster
  else readLoop dev f len ((f.clusterSec (BitVec.ofNat 64 cluster)).toNat + offset / f.bytesPerSec.toNat)
    (offset % f.bytesPerSec.toNat) len

def writeLoop : ℕ → ℕ → ℕ → List Byte → C n Unit
  | 0, _, _, _ => pure ()
  | fuel + 1, secno, secoff, src =>
    if src = [] then pure ()
    else do
      let len := min (f.bytesPerSec.toNat - secoff) src.length
      let buf ← getBlock dev secno true
      store buf secoff (src.take len)
      release buf
      writeLoop fuel (secno + 1) 0 (src.drop len)

def clusterWrite (cluster offset : ℕ) (src : List Byte) : C n Unit :=
  if f.clusSize < offset + src.length then throw .outOfCluster
  else writeLoop dev f src.length ((f.clusterSec (BitVec.ofNat 64 cluster)).toNat + offset / f.bytesPerSec.toNat)
    (offset % f.bytesPerSec.toNat) src

def fatWriteLoop (cluster content : ℕ) : ℕ → ℕ → C n Unit
  | 0, _ => pure ()
  | k + 1, fatno => do
    let buf ← getBlock dev (f.clusterFatSec (BitVec.ofNat 64 cluster) (BitVec.ofNat 8 fatno)).toNat true
    store buf ((f.clusterFatSecIndex (BitVec.ofNat 64 cluster)).toNat * 4) (leBytes 4 content)
    release buf
    fatWriteLoop cluster content k (fatno + 1)

def fatWrite (cluster content : ℕ) : C n Unit :=
  if f.Valid cluster then fatWriteLoop dev f cluster content f.fatCnt.toNat 0 else throw .badCluster

def fatRead (cluster : ℕ) : C n ℕ :=
  if f.Valid cluster then do
    let buf ← getBlock dev (f.clusterFatSec (BitVec.ofNat 64 cluster) 0).toNat true
    let content ← load buf ((f.clusterFatSecIndex (BitVec.ofNat 64 cluster)).toNat * 4) 4
    release buf
    pure (leNat content)
  else throw .badCluster

def zeroLoop : ℕ → ℕ → ℕ → C n Unit
  | 0, _, _ => pure ()
  | fuel + 1, secno, left =>
    if left = 0 then pure ()
    else do
      let buf ← getBlock dev secno false
      store buf 0 (replicate f.bytesPerSec.toNat 0)
      release buf
      zeroLoop fuel (secno + 1) (left - f.bytesPerSec.toNat)

def clusterZero (cluster : ℕ) : C n Unit :=
  zeroLoop dev f f.clusSize (f.clusterSec (BitVec.ofNat 64 cluster)).toNat f.clusSize

def allocFrom (prev : ℕ) : ℕ → ℕ → C n ℕ
  | 0, _ => throw .volumeFull
  | k + 1, cluster => do
    let content ← fatRead dev f cluster
    if content = 0 then
      if prev ≠ 0 then
        fatWrite dev f prev cluster
      fatWrite dev f cluster fat32Eof
      clusterZero dev f cluster
      pure cluster
    else allocFrom prev k (cluster + 1)

def clusterAlloc (prev : ℕ) : C n ℕ :=
  let cluster := if prev = 0 then 2 else prev + 1
  allocFrom dev f prev ((f.dataClusCnt + 2).toNat - cluster) cluster

end Code

section Device

variable {m : UInt64 → Block} {sec off : ℕ} {src : List Byte}

lemma device_eq (h : sec < 2 ^ 64) : device m sec = bytes (m (UInt64.ofNat sec)) := if_pos h

lemma bytes_block (p : ℕ → Byte) (hp : ∀ i, bufSize ≤ i → p i = 0) : bytes (block p) = p := by
  funext i
  unfold bytes
  split
  · rfl
  · next h => exact (hp i (not_lt.mp h)).symm

lemma ofNat_inj {a b : ℕ} (ha : a < 2 ^ 64) (hb : b < 2 ^ 64) (h : UInt64.ofNat a = UInt64.ofNat b) : a = b := by
  have h' := congrArg UInt64.toNat h
  rwa [UInt64.toNat_ofNat_of_lt' ha, UInt64.toNat_ofNat_of_lt' hb] at h'

lemma device_update (h : sec < 2 ^ 64) (hl : off + src.length ≤ bufSize) :
    device (update m (UInt64.ofNat sec) (block (blit (bytes (m (UInt64.ofNat sec))) off src))) =
      update (device m) sec (blit (device m sec) off src) := by
  funext i
  by_cases hi : i = sec
  · subst hi
    rw [device_eq h, device_eq h, update_self, update_self, bytes_block]
    intro j hj
    rw [blit_of_ge _ _ _ (by omega), bytes, dif_neg (not_lt.mpr hj)]
  · rw [update_of_ne hi]
    unfold device
    split
    · next hlt => rw [update_of_ne fun hc => hi (ofNat_inj hlt h hc)]
    · rfl

lemma block_zeros (b : Block) : block (blit (bytes b) 0 (replicate bufSize 0)) = fun _ => 0 := by
  funext i
  have hi : (i : ℕ) < (replicate bufSize (0 : Byte)).length := by
    rw [length_replicate]
    exact i.isLt
  rw [block, blit, dif_pos ⟨Nat.zero_le _, hi⟩, getElem_replicate]
  rfl

lemma device_clear (h : sec < 2 ^ 64) : device (update m (UInt64.ofNat sec) fun _ => 0) =
    update (device m) sec fun _ => 0 := by
  funext i
  by_cases hi : i = sec
  · subst hi
    rw [device_eq h, update_self, update_self]
    funext j
    rw [bytes]
    split <;> rfl
  · rw [update_of_ne hi]
    unfold device
    split
    · next hlt => rw [update_of_ne fun hc => hi (ofNat_inj hlt h hc)]
    · rfl

end Device

def Caches (dev : UInt32) (held : List (Ref n)) (d : Fat.Disk) (s : Cache n) : Prop :=
  ∃ m, Inv ⟨s, held⟩ m ∧ device (m dev) = d

def Spare (n : ℕ) (held : List (Ref n)) : Prop := held.length < n ∧ held.length < 65535

lemma exists_free {s : Cache n} {held : List (Ref n)} {m : Fs.Buf.Disk} (h : Inv ⟨s, held⟩ m) (hlt : held.length < n)
    (g : UInt64) : ∃ i, (s.at ⟨g, i⟩).refcnt = 0 := by
  by_contra hno
  rw [not_exists] at hno
  have hall : ∀ i : Fin n, i ∈ held.map (·.ptr.index) := fun i => by
    have hpos : 0 < held.countP (·.ptr = ⟨g, i⟩) := by
      rw [← h.count ⟨g, i⟩]
      exact Nat.pos_of_ne_zero fun h0 => hno i (UInt16.toNat_inj.mp h0)
    obtain ⟨r, hr, hp⟩ := countP_pos_iff.mp hpos
    exact mem_map.mpr ⟨r, hr, by rw [of_decide_eq_true hp]⟩
  have hcard : Fintype.card (Fin n) ≤ (held.map (·.ptr.index)).length := by
    rw [← Finset.card_univ]
    exact (Finset.card_le_card fun i _ => mem_toFinset.mpr (hall i)).trans (toFinset_card_le _)
  rw [Fintype.card_fin, length_map] at hcard
  omega

section Visits

variable {α : Type} {dev : UInt32} {held : List (Ref n)} {d : Fat.Disk} {s : Cache n} {sec off len : ℕ}
  {src : List Byte}
  {Q : α → Cache n → Prop} {E : Halt → Prop}

lemma wp_getBlock {Q : Ptr n → Cache n → Prop} {m : Fs.Buf.Disk} {isRead : Bool} (h : Inv ⟨s, held⟩ m)
    (hs : Spare n held) (hQ : ∀ p s', bufRead s dev (UInt64.ofNat sec) isRead = some (p, s') → Q p s') :
    wp (getBlock dev sec isRead) Q E s := by
  obtain ⟨i, hi⟩ := exists_free h hs.1 (groupOf (UInt64.ofNat sec))
  have hsome := bufRead_isSome s dev (UInt64.ofNat sec) isRead ((h.order _).mem_iff.mpr (mem_finRange i)) hi
  obtain ⟨⟨p, s'⟩, hr⟩ := Option.isSome_iff_exists.mp hsome
  have hrun : (getBlock dev sec isRead).run s = .ok (p, s') := by
    simp only [getBlock, StateT.run, hr]
  exact (wp_ok hrun).mpr (hQ p s' hr)

lemma wp_visit {k : List Byte → C n α} (h : Caches dev held d s) (hs : Spare n held) (hsec : sec < 2 ^ 64)
    (hk : ∀ s', Caches dev held d s' → wp (k (slice (d sec) off len)) Q E s') :
    wp (do
      let buf ← getBlock dev sec true
      let part ← load buf off len
      release buf
      k part) Q E s := by
  obtain ⟨m, hinv, rfl⟩ := h
  refine wp_bind.mpr (wp_getBlock hinv hs fun p s' hr => ?_)
  obtain ⟨hinv', hd⟩ := hinv.get hs.2 hr
  simp only [load, release, wp_bind, wp_get, wp_pure, wp_modify, hd]
  rw [← device_eq hsec]
  exact hk _ ⟨m, hinv'.release (show _ = [] ++ _ :: held from rfl), rfl⟩

lemma wp_edit {k : C n α} (h : Caches dev held d s) (hs : Spare n held) (hsec : sec < 2 ^ 64)
    (hl : off + src.length ≤ bufSize)
    (hk : ∀ s', Caches dev held (update d sec (blit (d sec) off src)) s' → wp k Q E s') :
    wp (do
      let buf ← getBlock dev sec true
      store buf off src
      release buf
      k) Q E s := by
  obtain ⟨m, hinv, rfl⟩ := h
  refine wp_bind.mpr (wp_getBlock hinv hs fun p s' hr => ?_)
  obtain ⟨hinv', hd⟩ := hinv.get hs.2 hr
  simp only [store, release, wp_bind, wp_modify, hd]
  refine hk _ ⟨_, (hinv'.change _ mem_cons_self).release (show _ = [] ++ _ :: held from rfl), ?_⟩
  rw [← device_update hsec hl, update_self]

lemma wp_clear {k : C n α} (h : Caches dev held d s) (hs : Spare n held) (hsec : sec < 2 ^ 64)
    (hk : ∀ s', Caches dev held (update d sec fun _ => 0) s' → wp k Q E s') :
    wp (do
      let buf ← getBlock dev sec false
      store buf 0 (replicate bufSize 0)
      release buf
      k) Q E s := by
  obtain ⟨m, hinv, rfl⟩ := h
  refine wp_bind.mpr (wp_getBlock hinv hs fun p s' hr => ?_)
  simp only [store, release, wp_bind, wp_modify, block_zeros]
  refine hk _ ⟨_, (hinv.put _ hs.2 hr).release (show _ = [] ++ _ :: held from rfl), ?_⟩
  rw [update_self]
  exact device_clear hsec

end Visits

section Loops

variable {dev : UInt32} {f : Super} {held : List (Ref n)} {d : Fat.Disk} {s : Cache n}
  {fuel secno secoff left c x k : ℕ}
  {src : List Byte}

lemma bytesPerSec_eq (hf : Laid f) : f.bytesPerSec.toNat = bufSize := by
  rw [hf.bytesPerSec]
  rfl

lemma wp_readLoop (hf : Laid f) (h : Caches dev held d s) (hs : Spare n held) (hsec : secno + fuel ≤ 2 ^ 64) :
    wp (readLoop dev f fuel secno secoff left) (fun bs s' => bs = readSecs d fuel secno secoff left ∧
      Caches dev held d s') (fun _ => False) s := by
  induction fuel generalizing secno secoff left s with
  | zero => exact wp_pure.mpr ⟨rfl, h⟩
  | succ fuel ih =>
    rw [readLoop, readSecs, bytesPerSec_eq hf]
    split
    · exact wp_pure.mpr ⟨rfl, h⟩
    · refine wp_visit h hs (by omega) fun s' h' => wp_bind.mpr ?_
      exact wp_mono (ih h' (by omega)) fun rest s'' h' => wp_pure.mpr ⟨by rw [h'.1], h'.2⟩

lemma wp_writeLoop (hf : Laid f) (h : Caches dev held d s) (hs : Spare n held) (hsec : secno + fuel ≤ 2 ^ 64)
    (hoff : secoff ≤ bufSize) : wp (writeLoop dev f fuel secno secoff src)
      (fun _ s' => Caches dev held (writeSecs fuel d secno secoff src) s') (fun _ => False) s := by
  induction fuel generalizing secno secoff src s d with
  | zero => exact wp_pure.mpr h
  | succ fuel ih =>
    rw [writeLoop, writeSecs, bytesPerSec_eq hf]
    split
    · exact wp_pure.mpr h
    · refine wp_edit h hs (by omega) ?_ fun s' h' => ih h' (by omega) (Nat.zero_le _)
      rw [length_take]
      omega

lemma wp_fatWriteLoop (hf : Laid f) (hc : f.Valid c) (h : Caches dev held (fatLoop f d c x k) s) (hs : Spare n held) :
    wp (fatWriteLoop dev f c x fuel k) (fun _ s' => Caches dev held (fatLoop f d c x (k + fuel)) s')
      (fun _ => False) s := by
  induction fuel generalizing k s with
  | zero => exact wp_pure.mpr h
  | succ fuel ih =>
    rw [fatWriteLoop]
    refine wp_edit h hs (BitVec.isLt _) ?_ fun s' h' => ?_
    · have hi := hf.index_lt hc
      rw [length_leBytes, bufSize]
      omega
    · rw [show k + (fuel + 1) = k + 1 + fuel by omega]
      refine ih ?_
      rwa [fatLoop, range_succ, foldl_append, foldl_cons, foldl_nil]

lemma zeroSecs_succ (k : ℕ) : zeroSecs d secno (k + 1) = zeroSecs (update d secno fun _ => 0) (secno + 1) k := by
  rw [zeroSecs, zeroSecs, range_succ_eq_map, foldl_cons, foldl_map, add_zero]
  congr 1
  funext d i
  rw [add_succ, succ_add]

lemma wp_zeroLoop (hf : Laid f) (h : Caches dev held d s) (hs : Spare n held) (hsec : secno + k ≤ 2 ^ 64)
    (hleft : left = k * bufSize) (hfuel : k ≤ fuel) : wp (zeroLoop dev f fuel secno left)
      (fun _ s' => Caches dev held (zeroSecs d secno k) s') (fun _ => False) s := by
  induction k generalizing fuel secno left s d with
  | zero =>
    rw [hleft, zero_mul]
    cases fuel <;> exact wp_pure.mpr h
  | succ k ih =>
    obtain ⟨fuel, rfl⟩ : ∃ m, fuel = m + 1 := ⟨fuel - 1, by omega⟩
    rw [succ_mul] at hleft
    rw [zeroLoop, bytesPerSec_eq hf, if_neg (by rw [hleft, bufSize]; omega), zeroSecs_succ]
    exact wp_clear h hs (by omega) fun s' h' => ih h' (by omega) (by omega) (by omega)

end Loops

structure Reads (dev : UInt32) (f : Super) (fat : ℕ → ℕ → ℕ) (data : ℕ → ℕ → Byte) (s : Cache n) : Prop where
  fatRead {c : ℕ} : f.Valid c → wp (fatRead dev f c) (fun x _ => x = fat 0 c) (fun _ => False) s
  copies {c k : ℕ} : f.Valid c → k < f.fatCnt.toNat →
    f.fatEntry (device (s.content dev)) (BitVec.ofNat 8 k) c = fat k c
  clusterRead {c off len : ℕ} : f.Valid c → off + len ≤ f.clusSize →
    wp (clusterRead dev f c off len) (fun bs _ => bs = slice (data c) off len) (fun _ => False) s

def Holds (dev : UInt32) (f : Super) (held : List (Ref n)) (fat : ℕ → ℕ → ℕ) (data : ℕ → ℕ → Byte)
    (s : Cache n) : Prop :=
  ∃ d, Caches dev held d s ∧ Stands f fat data d

section Frame

variable {dev : UInt32} {f : Super} {held : List (Ref n)} {fat : ℕ → ℕ → ℕ} {data : ℕ → ℕ → Byte} {s : Cache n}
  {c x off len : ℕ} {src : List Byte}

lemma clusterSec_lt (off : ℕ) (hf : Laid f) (hc : f.Valid c) (ho : off ≤ f.clusSize) :
    (f.clusterSec (BitVec.ofNat 64 c)).toNat + off / bufSize + f.clusSize ≤ 2 ^ 64 := by
  have h32 := f.bytesPerClus.isLt
  have hsize : f.clusSize < 2 ^ 32 := h32
  have ht := f.totSec.isLt
  have hd := hf.data
  have hv := hf.valid_iff.mp hc
  have hm : (c - 2) * f.secPerClus.toNat ≤ f.dataClusCnt.toNat * f.secPerClus.toNat :=
    mul_le_mul_right _ (by omega)
  have hdiv := div_le_self off bufSize
  rw [hf.clusterSec (hf.inRange hc), hf.toNat_ofNat hc]
  omega

variable (hf : Laid f) (hs : Spare n held) (h : Holds dev f held fat data s)
include hf hs h

lemma Holds.fatRead (hc : f.Valid c) : wp (fatRead dev f c) (fun y s' => y = fat 0 c ∧ Holds dev f held fat data s')
    (fun _ => False) s := by
  obtain ⟨d, hd, ht⟩ := h
  rw [Blocks.fatRead, if_pos hc]
  refine wp_visit hd hs (BitVec.isLt _) fun s' h' => wp_pure.mpr ⟨?_, d, h', ht⟩
  exact (hf.fatEntry_eq (k := 0) hc hf.fatCnt).trans (ht.fat hc hf.fatCnt)

lemma Holds.reads : Reads dev f fat data s := by
  refine ⟨fun hc => wp_mono (h.fatRead hf hs hc) fun _ _ hr => hr.1, fun {c k} hc hk => ?_, fun {c off len} hc hn => ?_⟩
  · obtain ⟨d, ⟨m, hinv, rfl⟩, ht⟩ := h
    rw [hinv.content]
    exact (hf.fatEntry_eq hc hk).trans (ht.fat hc hk)
  · obtain ⟨d, hd, ht⟩ := h
    rw [clusterRead, if_neg (not_lt.mpr hn), bytesPerSec_eq hf]
    have hlt := clusterSec_lt off hf hc (by omega)
    refine wp_mono (wp_readLoop hf hd hs (by omega)) fun bs _ hbs => hbs.1.trans ?_
    rw [readSecs_eq (le_refl _) (mod_lt _ (by decide)), Shows.sec_add off hf hc]
    refine map_congr_left fun j hj => ?_
    rw [add_assoc]
    exact ht.data hc (by have := mem_range.mp hj; omega)

lemma Holds.fatWrite (hc : f.Valid c) (hx : x < 2 ^ 32) : wp (fatWrite dev f c x) (fun _ s' =>
    Holds dev f held (fun k => update (fat k) c x) data s') (fun _ => False) s := by
  obtain ⟨d, hd, ht⟩ := h
  rw [Blocks.fatWrite, if_pos hc]
  refine wp_mono (wp_fatWriteLoop (d := d) (k := 0) hf hc hd hs) fun _ s' h' => ?_
  rw [zero_add] at h'
  exact ⟨_, h', ht.fatLoop hf hc hx⟩

lemma Holds.clusterWrite (hc : f.Valid c) (hn : off + src.length ≤ f.clusSize) :
    wp (clusterWrite dev f c off src) (fun _ s' =>
      Holds dev f held fat (update data c (blit (data c) off src)) s') (fun _ => False) s := by
  obtain ⟨d, hd, ht⟩ := h
  rw [Blocks.clusterWrite, if_neg (not_lt.mpr hn), bytesPerSec_eq hf]
  have hlt := clusterSec_lt off hf hc (by omega)
  have hmod := mod_lt off (show 0 < bufSize by decide)
  refine wp_mono (wp_writeLoop hf hd hs (by omega) (le_of_lt hmod)) fun _ s' h' => ⟨_, h', ht.blit hf hc ?_ hn⟩
  rw [flat_writeSecs (le_refl _) hmod, Shows.sec_add off hf hc]

lemma Holds.clusterZero (hc : f.Valid c) : wp (clusterZero dev f c) (fun _ s' =>
    Holds dev f held fat (update data c fun _ => 0) s') (fun _ => False) s := by
  obtain ⟨d, hd, ht⟩ := h
  have hlt := clusterSec_lt 0 hf hc (Nat.zero_le _)
  have hle : f.secPerClus.toNat ≤ f.secPerClus.toNat * bufSize := Nat.le_mul_of_pos_right _ (by decide)
  have hsize := hf.clusSize
  rw [Nat.zero_div] at hlt
  exact wp_mono (wp_zeroLoop hf hd hs (by omega) hsize (by omega)) fun _ s' h' => ⟨_, h', ht.zeroSecs hf hc⟩

lemma Holds.finish (hc : f.Valid c) : wp (do
    Blocks.fatWrite dev f c fat32Eof
    Blocks.clusterZero dev f c
    pure c) (fun a s' => a = c ∧ Holds dev f held (fun k => update (fat k) c fat32Eof)
      (update data c fun _ => 0) s') (fun _ => False) s := by
  refine wp_seq (h.fatWrite hf hs hc (by decide)) fun _ s1 h1 => wp_bind.mpr ?_
  exact wp_mono (h1.clusterZero hf hs hc) fun _ s2 h2 => wp_pure.mpr ⟨rfl, h2⟩

lemma Holds.allocFrom {prev k : ℕ} (hp : prev = 0 ∨ f.Valid prev) (hlt : prev < c) (hc : 2 ≤ c)
    (hk : c + k = f.dataClusCnt.toNat + 2) : wp (allocFrom dev f prev k c)
    (fun a s' => f.Valid a ∧ c ≤ a ∧ fat 0 a = 0 ∧
      Holds dev f held (fun k => update (if prev = 0 then fat k else update (fat k) prev a) a fat32Eof)
        (update data a fun _ => 0) s')
      (fun e => e = .volumeFull ∧ ∀ a, c ≤ a → f.Valid a → fat 0 a ≠ 0) s := by
  induction k generalizing c s with
  | zero =>
    refine wp_throw.mpr ⟨rfl, fun a hle ha => ?_⟩
    have := hf.valid_iff.mp ha
    omega
  | succ k ih =>
    have hcv : f.Valid c := hf.valid_iff.mpr (by omega)
    have hc32 : c < 2 ^ 32 := by
      have := hf.dataClusCnt_lt
      omega
    rw [Blocks.allocFrom]
    refine wp_seq (wp_mono_error (h.fatRead hf hs hcv) nofun) fun y s1 ⟨hy, h1⟩ => ?_
    rw [hy]
    by_cases h0 : fat 0 c = 0
    · rw [if_pos h0]
      by_cases hprev : prev = 0
      · rw [if_neg (not_not.mpr hprev)]
        refine wp_mono (wp_mono_error (h1.finish hf hs hcv) nofun) fun a s3 ⟨ha, h3⟩ => ?_
        subst ha
        exact ⟨hcv, le_refl _, h0, by simpa only [if_pos hprev] using h3⟩
      · rw [if_pos hprev]
        refine wp_seq (wp_mono_error (h1.fatWrite hf hs (hp.resolve_left hprev) hc32) nofun)
          fun _ s2 h2 => ?_
        refine wp_mono (wp_mono_error (h2.finish hf hs hcv) nofun) fun a s3 ⟨ha, h3⟩ => ?_
        subst ha
        exact ⟨hcv, le_refl _, h0, by simpa only [if_neg hprev] using h3⟩
    · rw [if_neg h0]
      refine wp_mono (wp_mono_error (ih h1 (by omega) (by omega) (by omega)) fun e ⟨he, hfull⟩ =>
        ⟨he, fun a hle ha => ?_⟩)
        fun a s3 ⟨hv, hle, h0', h3⟩ => ⟨hv, by omega, h0', h3⟩
      rcases eq_or_lt_of_le hle with rfl | hlt'
      · exact h0
      · exact hfull a hlt' ha

def linked (prev c : ℕ) (fat : ℕ → ℕ → ℕ) (k : ℕ) : ℕ → ℕ :=
  update (if prev = 0 then fat k else update (fat k) prev c) c fat32Eof

lemma Holds.clusterAlloc {prev : ℕ} (hp : prev = 0 ∨ f.Valid prev) : wp (clusterAlloc dev f prev) (fun a s' =>
    f.Valid a ∧ prev < a ∧ fat 0 a = 0 ∧ Holds dev f held (linked prev a fat) (update data a fun _ => 0) s')
    (fun e => e = .volumeFull ∧ ∀ a, prev < a → f.Valid a → fat 0 a ≠ 0) s := by
  have hlt := hf.dataClusCnt_lt
  have h2 : (f.dataClusCnt + 2).toNat = f.dataClusCnt.toNat + 2 := by
    rw [BitVec.toNat_add, show (2 : BitVec 32).toNat = 2 from rfl, mod_eq_of_lt hlt]
  rw [Blocks.clusterAlloc, h2]
  rcases hp with rfl | hp
  · rw [if_pos rfl]
    refine wp_mono (wp_mono_error (h.allocFrom hf hs (.inl rfl) (by decide) (le_refl 2) (by omega))
      fun e ⟨he, hfull⟩ => ⟨he, fun a _ ha => hfull a (hf.valid_iff.mp ha).1 ha⟩)
      fun a s' ⟨ha, hle, h0, h'⟩ => ⟨ha, by omega, h0, h'⟩
  · have hv := hf.valid_iff.mp hp
    rw [if_neg (by omega)]
    exact wp_mono (wp_mono_error (h.allocFrom hf hs (.inr hp) (lt_succ_self prev) (by omega) (by omega))
      fun e ⟨he, hfull⟩ => ⟨he, fun a hlt ha => hfull a hlt ha⟩) fun a s' ⟨ha, hle, h0, h'⟩ => ⟨ha, hle, h0, h'⟩

end Frame

lemma exists_holds {f : Super} {disk : Fs.Buf.Disk} {mem : UInt64 → Fin n → Block} {es : List Event} {w : World n}
    (hrun : Run Step ⟨bufInit n disk mem, []⟩ es w) (dev : UInt32) :
    ∃ fat data, Holds dev f w.held fat data w.cache := by
  obtain ⟨m, -, hinv⟩ := hrun.simulate (init_inv disk mem) fun _ _ _ _ ha hs => Step.simulates ha hs
  exact ⟨fun k c => leNat (slice (flat (device (m dev))) (fatPos f k c) 4),
    fun c o => flat (device (m dev)) (dataPos f c + o), _, ⟨m, hinv, rfl⟩, fun _ _ => rfl, fun _ _ => rfl⟩

theorem fat_and_clusters_apart {f : Super} {disk : Fs.Buf.Disk} {mem : UInt64 → Fin n → Block} {es : List Event}
    {w : World n} (hf : Laid f) (hrun : Run Step ⟨bufInit n disk mem, []⟩ es w) (hs : Spare n w.held) (dev : UInt32) :
    ∃ fat data, Reads dev f fat data w.cache ∧
      (∀ c x, f.Valid c → x < 2 ^ 32 → wp (fatWrite dev f c x) (fun _ s =>
        Reads dev f (fun k => update (fat k) c x) data s) (fun _ => False) w.cache) ∧
      ∀ c off src, f.Valid c → off + src.length ≤ f.clusSize → wp (clusterWrite dev f c off src) (fun _ s =>
        Reads dev f fat (update data c (blit (data c) off src)) s) (fun _ => False) w.cache := by
  obtain ⟨fat, data, h⟩ := exists_holds (f := f) hrun dev
  exact ⟨fat, data, h.reads hf hs, fun c x hc hx => wp_mono (h.fatWrite hf hs hc hx) fun _ _ h' => h'.reads hf hs,
    fun c off src hc hn => wp_mono (h.clusterWrite hf hs hc hn) fun _ _ h' => h'.reads hf hs⟩

theorem clusterAlloc_takes_free {f : Super} {disk : Fs.Buf.Disk} {mem : UInt64 → Fin n → Block} {es : List Event}
    {w : World n} (hf : Laid f) (hrun : Run Step ⟨bufInit n disk mem, []⟩ es w) (hs : Spare n w.held) (dev : UInt32) :
    ∃ fat data, Reads dev f fat data w.cache ∧ ∀ prev, prev = 0 ∨ f.Valid prev →
      (wp (clusterAlloc dev f prev) (fun c s => f.Valid c ∧ fat 0 c = 0 ∧
          Reads dev f (linked prev c fat) (update data c fun _ => 0) s)
        (fun e => e = .volumeFull ∧ ∀ c, f.Valid c → fat 0 c ≠ 0) w.cache ↔
      prev = 0 ∨ (∃ c, f.Valid c ∧ prev < c ∧ fat 0 c = 0) ∨ ∀ c, f.Valid c → fat 0 c ≠ 0) := by
  obtain ⟨fat, data, h⟩ := exists_holds (f := f) hrun dev
  refine ⟨fat, data, h.reads hf hs, fun prev hp => ⟨fun hw => ?_, fun hfree => ?_⟩⟩
  · cases hc : (Blocks.clusterAlloc dev f prev).run w.cache with
    | ok a =>
      obtain ⟨ha, hlt, h0, -⟩ := wp_of_ok (h.clusterAlloc hf hs hp) hc
      exact .inr (.inl ⟨_, ha, hlt, h0⟩)
    | error e => exact .inr (.inr (wp_of_error hw hc).2)
  · refine wp_mono (wp_mono_error (h.clusterAlloc hf hs hp) fun e ⟨he, hfull⟩ => ⟨he, fun c hc => ?_⟩)
      fun c s ⟨hc, _, h0, h'⟩ => ⟨hc, h0, h'.reads hf hs⟩
    rcases hfree with rfl | ⟨c', hc', hlt, h0⟩ | hnone
    · have hc2 : 2 ≤ c := hc.1
      exact hfull c (by omega) hc
    · exact absurd h0 (hfull c' hlt hc')
    · exact hnone c hc

section Small

lemma laid_smallSuper : Laid smallSuper := ⟨placed_smallSuper, by decide, by decide⟩

def zeros : Cache 1 := bufInit 1 (fun _ _ _ => 0) fun _ _ _ => 9

lemma spare_nil : Spare 1 [] := ⟨by decide, by decide⟩

theorem fat_and_clusters_apart_zeros : ∃ fat data, Reads 0 smallSuper fat data zeros ∧
    wp (fatWrite 0 smallSuper 2 7) (fun _ s => Reads 0 smallSuper (fun k => update (fat k) 2 7) data s)
      (fun _ => False) zeros := by
  obtain ⟨fat, data, hr, hw, -⟩ := fat_and_clusters_apart (w := ⟨zeros, []⟩) laid_smallSuper .nil spare_nil 0
  exact ⟨fat, data, hr, hw 2 7 (by decide) (by decide)⟩

theorem clusterAlloc_takes_free_zeros : ∃ fat data, Reads 0 smallSuper fat data zeros ∧
    wp (clusterAlloc 0 smallSuper 0) (fun c s => smallSuper.Valid c ∧ fat 0 c = 0 ∧
      Reads 0 smallSuper (linked 0 c fat) (update data c fun _ => 0) s)
      (fun e => e = .volumeFull ∧ ∀ c, smallSuper.Valid c → fat 0 c ≠ 0) zeros := by
  obtain ⟨fat, data, hr, hw⟩ := clusterAlloc_takes_free (w := ⟨zeros, []⟩) laid_smallSuper .nil spare_nil 0
  exact ⟨fat, data, hr, (hw 0 (.inl rfl)).mpr (.inl rfl)⟩

lemma flat_zeros (a : ℕ) : flat (device fun _ _ => 0) a = 0 := by
  rw [flat, device]
  split
  · rw [bytes]
    split <;> rfl
  · rfl

lemma holds_zeros : Holds 0 smallSuper [] (fun _ _ => 0) (fun _ _ => 0) zeros := by
  refine ⟨_, ⟨_, init_inv _ _, rfl⟩, fun {c k} _ _ => ?_, fun {c o} _ _ => flat_zeros _⟩
  have hz : slice (flat (device fun _ _ => 0)) (fatPos smallSuper k c) 4 = slice (fun _ => 0)
    (fatPos smallSuper k c) 4 :=
    slice_congr _ _ _ fun j _ => flat_zeros _
  rw [hz]
  rfl

def lastCluster : ℕ := smallSuper.dataClusCnt.toNat + 1

theorem clusterAlloc_misses_free : ∃ (s : Cache 1) (fat : ℕ → ℕ → ℕ) (data : ℕ → ℕ → Byte),
    Reads 0 smallSuper fat data s ∧ smallSuper.Valid 2 ∧ fat 0 2 = 0 ∧ smallSuper.Valid lastCluster ∧
      notEndCluster (fat 0 lastCluster) = false ∧ (clusterAlloc 0 smallSuper lastCluster).run s =
        .error .volumeFull := by
  have hlast : smallSuper.Valid lastCluster := by decide
  obtain ⟨_, s, -, h⟩ := wp_total (holds_zeros.fatWrite laid_smallSuper spare_nil hlast (x := fat32Eof) (by decide))
  refine ⟨s, _, _, h.reads laid_smallSuper spare_nil, by decide, ?_, hlast, ?_, rfl⟩
  · rw [update_of_ne (by decide)]
  · rw [update_self]
    decide

end Small

end FarmOS.Fat.Blocks

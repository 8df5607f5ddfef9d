import FarmOS.Net.UdpRecords

/-! The bytes in the buffers of the messages: each datagram stays in its own page until it is received. -/

namespace FarmOS.Net.Udp

open Lib Function List

def Phase.parcel : Phase → Option ℕ
  | .filled _ m => some m
  | _ => none

def Phase.request : Phase → Option Request
  | .seeking r _ | .sending r _ | .holding r _ _ => some r
  | _ => none

lemma hand_of_parcel {ph : Phase} {m : ℕ} (h : ph.parcel = some m) : ph.hand = some m := by
  cases ph <;> simp_all [Phase.parcel, Phase.hand]

variable {T : Type*}

def State.Stored (s : State T) (m : ℕ) : Prop := (∃ i, m ∈ s.queue i) ∨ ∃ t, (s.phase t).parcel = some m

structure Kept (mem : ℕ → UInt8) (r : Message) (d : Datagram) : Prop where
  length : r.length = BitVec.ofNat 64 d.data.length
  fits : d.data.length ≤ pageSize
  bytes : slice mem (pageSize * r.bufferAddr) d.data.length = d.data

structure Content (s : State T) : Prop where
  live (m : ℕ) : m < messageCount → m ∉ s.free → (s.message m).bufferAddr ∈ s.pages
  apart (m n : ℕ) : m < messageCount → n < messageCount → m ∉ s.free → n ∉ s.free →
    (s.message m).bufferAddr = (s.message n).bufferAddr → m = n
  stored (m : ℕ) : s.Stored m → Kept s.mem (s.message m) (s.tag m)
  requests (t : T) (r : Request) : (s.phase t).request = some r → r.data.length ≤ pageSize
  receipts (id : ℕ) (r : Receipt) : r ∈ s.taken id → r.bytes = r.datagram.data.take r.len

lemma content_init (mem : ℕ → UInt8) : Content (State.init mem : State T) := by
  have hf (m : ℕ) (hm : m < messageCount) : m ∈ range messageCount := mem_range.mpr hm
  constructor
  · intro m hm hn
    exact absurd (hf m hm) hn
  · intro m n hm _ hn
    exact absurd (hf m hm) hn
  · rintro m (⟨i, hi⟩ | ⟨t, ht⟩)
    · cases hi
    · cases ht
  · nofun
  · nofun

variable {s s' : State T} {t : T} {i m n : ℕ} {loc : ℕ → Place T}

lemma Kept.received (h : Kept s.mem (s.message m) (s.tag m)) (len : ℕ) :
    s.received m len = (s.tag m).data.take len := by
  have hlen : (s.message m).length.toNat = (s.tag m).data.length := by
    rw [h.length, BitVec.toNat_ofNat, Nat.mod_eq_of_lt]
    exact Nat.lt_of_le_of_lt h.fits (by decide)
  rw [State.received, hlen, ← take_slice, h.bytes]

lemma Kept.blit {mem : ℕ → UInt8} {r : Message} {d : Datagram} (h : Kept mem r d) {page : ℕ} {data : List UInt8}
    (hne : r.bufferAddr ≠ page) (hd : data.length ≤ pageSize) : Kept (blit mem (pageSize * page) data) r d := by
  refine ⟨h.length, h.fits, (slice_congr _ _ _ fun j hj => ?_).trans h.bytes⟩
  have hj' := Nat.lt_of_lt_of_le hj h.fits
  rcases Nat.lt_or_gt_of_ne hne with hlt | hlt
  · have := Nat.mul_le_mul_left pageSize hlt
    rw [Nat.succ_eq_add_one, Nat.mul_add] at this
    exact blit_of_lt _ _ _ (by omega)
  · have := Nat.mul_le_mul_left pageSize hlt
    rw [Nat.succ_eq_add_one, Nat.mul_add] at this
    exact blit_of_ge _ _ _ (by omega)

lemma Pooled.stored_lt (h : Pooled s loc) (hm : s.Stored m) : m < messageCount := by
  rcases hm with ⟨i, hi⟩ | ⟨t, ht⟩
  · exact ((Pool.queue_iff h i m).mp hi).1
  · exact ((Pool.hand_iff h t m).mp (hand_of_parcel ht)).1

lemma Pooled.stored_not_free (h : Pooled s loc) (hm : s.Stored m) : m ∉ s.free := by
  rcases hm with ⟨i, hi⟩ | ⟨t, ht⟩
  · exact Pool.not_free_of_queue h hi
  · exact Pool.not_free_of_hand h (hand_of_parcel ht)

lemma Pooled.not_stored_of_hand (h : Pooled s loc) (ht : s.hand t = some m) (hp : (s.phase t).parcel = none) :
    ¬ s.Stored m := by
  rintro (⟨i, hi⟩ | ⟨u, hu⟩)
  · exact Pool.not_queue_of_hand h ht hi
  · obtain rfl := Pool.hand_inj h ht (hand_of_parcel hu)
    rw [hp] at hu
    cases hu

namespace Content

section

variable (h : Content s)
include h

lemma keep (hm : s'.message = s.message) (hf : s'.free = s.free) (hmem : s'.mem = s.mem)
    (hp : s'.pages = s.pages) (ht : s'.tag = s.tag) (hk : s'.taken = s.taken) (hst : ∀ m, s'.Stored m → s.Stored m)
    (hr : ∀ t r, (s'.phase t).request = some r → r.data.length ≤ pageSize) : Content s' := by
  constructor
  · rw [hm, hf, hp]
    exact h.live
  · rw [hm, hf]
    exact h.apart
  · intro m hs
    rw [hm, hmem, ht]
    exact h.stored m (hst m hs)
  · exact hr
  · rw [hk]
    exact h.receipts

lemma sockets (hm : s'.message = s.message) (hf : s'.free = s.free) (hmem : s'.mem = s.mem)
    (hp : s'.pages = s.pages) (ht : s'.tag = s.tag) (hk : s'.taken = s.taken) (hph : s'.phase = s.phase)
    (hq : ∀ i m, m ∈ s'.queue i → s.Stored m) : Content s' := by
  refine h.keep hm hf hmem hp ht hk ?_ ?_
  · rintro m (⟨i, hi⟩ | ⟨t, hpar⟩)
    · exact hq i m hi
    · exact .inr ⟨t, hph ▸ hpar⟩
  · rw [hph]
    exact h.requests

lemma alloc {page : ℕ} {rest : List ℕ} (hl : Pooled s loc) (hf : s.free = m :: rest)
    (hpage : page ∉ s.pages) : Content (s.alloc m rest page) := by
  have hother {n : ℕ} (hn : n ∉ rest) (hne : n ≠ m) : n ∉ s.free := by simp [hf, hn, hne]
  obtain ⟨hlive, hapart, hstored, hreq, hrec⟩ := h
  refine ⟨?_, ?_, fun n hn => ?_, hreq, hrec⟩
  · simp only [State.alloc]
    grind
  · simp only [State.alloc]
    grind
  · have hne : n ≠ m := by
      rintro rfl
      exact hl.stored_not_free hn (by simp [hf])
    simp only [State.alloc, update_of_ne hne]
    exact hstored n hn

lemma fill {r : Request} {g : Target} (hl : Pooled s loc) (hp : s.phase t = .holding r g m) :
    Content (s.fill r g m) ∧ Kept (s.fill r g m).mem ((s.fill r g m).message m) ((s.fill r g m).tag m) := by
  have hhand : s.hand t = some m := Pooled.hand_eq hp
  have hm := ((Pool.hand_iff hl t m).mp hhand).1
  have hmf : m ∉ s.free := Pool.not_free_of_hand hl hhand
  have hns : ¬ s.Stored m := hl.not_stored_of_hand hhand (by rw [hp]; rfl)
  have hr : (r.data.take 65535).length ≤ pageSize := by
    have := h.requests t r (by rw [hp]; rfl)
    rw [length_take]
    omega
  have hbuf (n : ℕ) : ((s.fill r g m).message n).bufferAddr = (s.message n).bufferAddr := by
    by_cases hn : n = m
    · subst hn
      simp [State.fill]
    · simp [State.fill, hn]
  refine ⟨⟨fun n hn hf => ?_, fun n k hn hk hfn hfk he => ?_, fun n hn => ?_, h.requests, h.receipts⟩, ?_⟩
  · rw [hbuf]
    exact h.live n hn hf
  · rw [hbuf, hbuf] at he
    exact h.apart n k hn hk hfn hfk he
  · have hn' : s.Stored n := hn
    have hne : n ≠ m := fun he => hns (he ▸ hn')
    have hpage : (s.message n).bufferAddr ≠ (s.message m).bufferAddr := fun he =>
      hne (h.apart n m (hl.stored_lt hn') hm (hl.stored_not_free hn') hmf he)
    simp only [State.fill, update_of_ne hne]
    exact (h.stored n hn').blit hpage hr
  · simp only [State.fill, update_self]
    exact ⟨rfl, hr, slice_blit ..⟩

lemma receive {a : Ask} (hm : m ∈ (s.sockets a.l).messages) : Content (s.receive a m) := by
  have hst : s.Stored m := .inl ⟨a.l, hm⟩
  have hq : ∀ n, (s.receive a m).Stored n → s.Stored n := by
    rintro n (⟨i, hi⟩ | hn)
    · have hqueue : (s.receive a m).queue = update s.queue a.l (s.queue a.l |>.erase m) := queue_setQueue ..
      rw [hqueue] at hi
      by_cases hil : i = a.l
      · rw [hil, update_self] at hi
        exact .inl ⟨a.l, mem_of_mem_erase hi⟩
      · rw [update_of_ne hil] at hi
        exact .inl ⟨i, hi⟩
    · exact .inr hn
  refine ⟨h.live, h.apart, fun n hn => h.stored n (hq n hn), h.requests, fun id r hr => ?_⟩
  simp only [State.receive] at hr
  by_cases hid : id = s.born a.l
  · rw [hid, update_self, mem_append, mem_singleton] at hr
    rcases hr with hr | rfl
    · exact h.receipts _ r hr
    · exact (h.stored m hst).received a.len
  · rw [update_of_ne hid] at hr
    exact h.receipts id r hr

lemma messageFree (hl : Pooled s loc) (ht : s.hand t = some m) (hp : (s.phase t).parcel = none) :
    Content (s.messageFree m) := by
  have hm := ((Pool.hand_iff hl t m).mp ht).1
  have hmf : m ∉ s.free := Pool.not_free_of_hand hl ht
  have hns := hl.not_stored_of_hand ht hp
  have hbuf {n : ℕ} (hn : n ∉ s.free ++ [m]) : n ≠ m ∧ n ∉ s.free := by simp_all
  obtain ⟨hlive, hapart, hstored, hreq, hrec⟩ := h
  refine ⟨fun n hn hf => ?_, fun n k hn hk hfn hfk he => ?_, fun n hn => ?_, hreq, hrec⟩
  · obtain ⟨hne, hnf⟩ := hbuf hf
    simp only [State.messageFree, update_of_ne hne]
    exact (mem_erase_of_ne fun he => hne (hapart n m hn hm hnf hmf he)).mpr (hlive n hn hnf)
  · obtain ⟨hne, hnf⟩ := hbuf hfn
    obtain ⟨hne', hkf⟩ := hbuf hfk
    simp only [State.messageFree, update_of_ne hne, update_of_ne hne'] at he
    exact hapart n k hn hk hnf hkf he
  · have hne : n ≠ m := fun he => hns (he ▸ hn)
    simp only [State.messageFree, update_of_ne hne]
    exact hstored n hn

end

variable [DecidableEq T]

lemma setPhase (h : Content s) {ph : Phase} (hp : ∀ n, ph.parcel = some n → Kept s.mem (s.message n) (s.tag n))
    (hr : ∀ r, ph.request = some r → r.data.length ≤ pageSize) : Content (s.setPhase t ph) := by
  have hstored := (forall_update_iff s.phase (a := t) fun _ p => ∀ n, p.parcel = some n →
    Kept s.mem (s.message n) (s.tag n)).mpr ⟨hp, fun u _ n hu => h.stored n (.inr ⟨u, hu⟩)⟩
  have hrequests := (forall_update_iff s.phase (a := t) fun _ p => ∀ r, p.request = some r →
    r.data.length ≤ pageSize).mpr ⟨hr, fun u _ => h.requests u⟩
  refine { h with stored := ?_, requests := hrequests }
  rintro n (hq | ⟨u, hu⟩)
  · exact h.stored n (.inl hq)
  · exact hstored u n hu

lemma stay (h : Content s) {old ph : Phase} (hp : s.phase t = old) (hpar : ph.parcel = none)
    (hreq : ph.request = none ∨ ph.request = old.request) : Content (s.setPhase t ph) := by
  refine h.setPhase (fun n hn => ?_) fun r hr => ?_
  · rw [hpar] at hn
    cases hn
  · rcases hreq with he | he
    · rw [he] at hr
      cases hr
    · exact h.requests t r (by rw [hp, ← he, hr])

lemma effect (h : Content s) (hl : Pooled s loc) (hs : Slots s) (he : Effect s s') : Content s' := by
  cases he with
  | call hp hd =>
    refine h.setPhase nofun ?_
    rintro r ⟨⟩
    exact hd
  | pass hp | found hp => exact h.stay hp rfl (.inr rfl)
  | quit hp | fail hp | ask hp | doze hp => exact h.stay hp rfl (.inl rfl)
  | alloc hp hf hpage => exact (h.alloc hl hf hpage).stay hp rfl (.inr rfl)
  | @fill t r g m hp =>
    obtain ⟨hc, hk⟩ := h.fill hl hp
    refine hc.setPhase ?_ nofun
    rintro n ⟨⟩
    exact hk
  | @insert t g m hp =>
    have hst : s.Stored m := .inr ⟨t, by rw [hp]; rfl⟩
    have hc : Content (s.insert g.slot m) := by
      refine h.keep rfl rfl rfl rfl rfl rfl ?_ fun u r hu => h.requests u r
        (of_wakeup Phase.request (fun _ => rfl) .. ▸ hu)
      rintro n (⟨i, hi⟩ | ⟨u, hu⟩)
      · rw [queue_insert] at hi
        by_cases hig : i = g.slot
        · rw [hig, update_self, mem_append, mem_singleton] at hi
          rcases hi with hi | rfl
          · exact .inl ⟨_, hi⟩
          · exact hst
        · rw [update_of_ne hig] at hi
          exact .inl ⟨i, hi⟩
      · exact .inr ⟨u, of_wakeup Phase.parcel (fun _ => rfl) .. ▸ hu⟩
    exact hc.stay (State.phase_insert hp) rfl (.inl rfl)
  | receive hp hq => exact (h.receive (by simp [hq])).stay hp rfl (.inl rfl)
  | free hp => exact (h.messageFree hl (Pooled.hand_eq hp) (by rw [hp]; rfl)).stay hp rfl (.inl rfl)
  | drained hp => exact (h.messageFree hl (Pooled.hand_eq hp) (by rw [hp]; rfl)).stay hp rfl (.inl rfl)
  | @map t i hp =>
    have hc : Content (s.setMapped i true) := h.sockets rfl rfl rfl rfl rfl rfl rfl fun i _ hi => .inl ⟨i, hi⟩
    exact hc.stay hp rfl (.inl rfl)
  | @unmap t i hp =>
    have hc : Content (s.setMapped i false) := h.sockets rfl rfl rfl rfl rfl rfl rfl fun i _ hi => .inl ⟨i, hi⟩
    exact hc.stay hp rfl (.inl rfl)
  | @create t i k hp hh hu hm =>
    have hused := (hs.owned t i (by rw [hp]; rfl)).2
    have hq : (s.create i k).queue = s.queue := queue_setSocket_same (hm.trans (hs.stale i hused hh).symm)
    have hc : Content (s.create i k) := h.sockets rfl rfl rfl rfl rfl rfl rfl fun i _ hi => .inl ⟨i, hq ▸ hi⟩
    exact hc.stay hp rfl (.inl rfl)
  | @shut t i hp =>
    have hq := queue_shut s t i
    have hc : Content (s.shut t i) := h.sockets rfl rfl rfl rfl rfl rfl rfl fun i _ hi => .inl ⟨i, hq ▸ hi⟩
    exact hc.stay hp rfl (.inl rfl)
  | @drain t i m ms hp hq =>
    have hc : Content (s.setQueue i ms) := h.sockets rfl rfl rfl rfl rfl rfl rfl fun j n hj => by
      rw [queue_setQueue] at hj
      by_cases hji : j = i
      · rw [hji, update_self] at hj
        exact .inl ⟨i, by rw [State.queue, hq]; exact mem_cons_of_mem _ hj⟩
      · rw [update_of_ne hji] at hj
        exact .inl ⟨j, hj⟩
    exact hc.stay hp rfl (.inl rfl)
  | @unlock t i hp =>
    have hq := queue_unlock s i
    have hc : Content (s.unlock i) := h.sockets rfl rfl rfl rfl rfl rfl rfl fun i _ hi => .inl ⟨i, hq ▸ hi⟩
    exact hc.stay hp rfl (.inl rfl)
  | @address i k _ hm =>
    have hq : (s.setSocket i k).queue = s.queue := queue_setSocket_same hm
    exact h.sockets rfl rfl rfl rfl rfl rfl rfl fun i _ hi => .inl ⟨i, hq ▸ hi⟩

end Content

end FarmOS.Net.Udp

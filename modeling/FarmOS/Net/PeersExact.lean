import FarmOS.Net.Peers

/-! Sockets whose ports are given once: every byte written reaches the peer of its socket, in order. -/

namespace FarmOS.Net.Peers

open Lib Ports Function List Socket
open Fs.PipeDev (WriteReq writeLength)

def State.writing (s : State) (i : ℕ) : Bool :=
  (range s.writes).any fun k => (s.writers k).any fun w => w.source = i

-- Ports are given once: a port is bound to a socket that has none, lies below the automatic ones and is in nobody's
-- use, and the automatic ones have not run out. A socket connects once, to one that listens and has room. A socket
-- without a port writes only if it is the only such one, and none is closed under a write.
def Orderly (s : State) : Event → Prop
  | .bind i a => (s.sockets i).addr.port = 0 ∧ a.port ≠ 0 ∧ a.port.toNat < 10000 ∧
      (∀ j < socketCount, (s.sockets j).used → (s.sockets j).addr.port ≠ a.port ∧
        (s.sockets j).targetAddr.port ≠ a.port) ∧
      ∀ j < socketCount, ∀ q ∈ s.pending j, q.1.port ≠ a.port
  | .listen i => (s.sockets i).addr.port ≠ 0 ∧ (s.sockets i).targetAddr.port = 0
  | .connect i a => (s.sockets i).listening = false ∧ (s.sockets i).targetAddr.port = 0 ∧
      ((s.sockets i).addr.port = 0 → s.localPort.toNat < 2 ^ 16) ∧
      (sockIsUdp (s.sockets i).type = false → ∃ j < socketCount,
        s.findListening a ((s.sockets i).type &&& socketTypeMask) = some j ∧ (s.pending j).length < pendingCount)
  | .write i _ => (s.sockets i).addr.port ≠ 0 ∨
      ∀ j < socketCount, (s.sockets j).used → j ≠ i → (s.sockets j).addr.port ≠ 0
  | .close i => s.writing i = false
  | _ => True

instance decidableOrderly : ∀ (s : State) (e : Event), Decidable (Orderly s e)
  | _, .bind _ _ => inferInstanceAs (Decidable (_ ∧ _))
  | _, .listen _ => inferInstanceAs (Decidable (_ ∧ _))
  | _, .connect _ _ => inferInstanceAs (Decidable (_ ∧ _))
  | _, .write _ _ => inferInstanceAs (Decidable (_ ∨ _))
  | _, .close _ => inferInstanceAs (Decidable (_ = _))
  | _, .socket _ _ _ _ | _, .accept _ _ _ | _, .chunk _ | _, .read _ _ => .isTrue trivial

structure Inv (s : State) : Prop where
  kept : ∃ purpose fate, Kept s.book purpose fate
  manned : Manned s.book
  below : Below s.book BitVec.toNat s.localPort.toNat
  floor : 10000 ≤ s.localPort.toNat
  bound : ∀ i, (s.sockets i).used → i < socketCount
  clean : ∀ i, (s.sockets i).used = false →
    (s.sockets i).addr.port = 0 ∧ (s.sockets i).listening = false ∧ s.pending i = []
  counted : ∀ k w, s.writers k = some w → k < s.writes

namespace Inv

variable {s : State} {i j : ℕ} {type : BitVec 32} {tid : BitVec 64} {buffer : ℕ → UInt8} {a : SocketAddr} {k : Socket}

lemma init : Inv .init where
  kept := ⟨_, _, State.book_init ▸ Kept.empty⟩
  manned := State.book_init ▸ Manned.empty
  below := State.book_init ▸ Below.empty
  floor := by decide
  bound := fun i hi => by cases hi
  clean := fun i _ => ⟨rfl, rfl, rfl⟩
  counted := fun k w hw => by cases hw

section

variable (h : Inv s)
include h

lemma bound_setSocket (hi : (s.sockets i).used) (l : ℕ)
    (hl : ((s.setSocket i k).sockets l).used) : l < socketCount := by
  by_cases he : l = i
  · exact he ▸ h.bound i hi
  · rw [State.sockets_setSocket_ne k he] at hl
    exact h.bound l hl

lemma clean_setSocket (hk : k.used = true) (l : ℕ) (hl : ((s.setSocket i k).sockets l).used = false) :
    ((s.setSocket i k).sockets l).addr.port = 0 ∧ ((s.setSocket i k).sockets l).listening = false ∧
      s.pending l = [] := by
  by_cases he : l = i
  · rw [he, State.sockets_setSocket, hk] at hl
    cases hl
  · rw [State.sockets_setSocket_ne k he] at hl ⊢
    exact h.clean l hl

lemma setSocket (hi : (s.sockets i).used) (hk : k.used = true)
    (hb : (s.setSocket i k).book = s.book) : Inv (s.setSocket i k) where
  kept := hb ▸ h.kept
  manned := hb ▸ h.manned
  below := hb ▸ h.below
  __ := h
  bound := h.bound_setSocket hi
  clean := h.clean_setSocket hk

omit h in
lemma findFree (h : s.findFree = some i) : i < socketCount ∧ (s.sockets i).used = false := by
  refine ⟨mem_range.mp (mem_of_find?_eq_some h), ?_⟩
  simpa using find?_some h

lemma create {domain : BitVec 16} (hf : s.findFree = some i) : Inv (s.create i domain type tid buffer) := by
  obtain ⟨hi, hu⟩ := findFree hf
  obtain ⟨hp, hl, hn⟩ := h.clean i hu
  obtain ⟨purpose, fate, hk⟩ := h.kept
  have hb : s.book.pending i = [] := by simp [State.book, hn]
  refine ⟨⟨purpose, fate, ?_⟩, ?_, ?_, h.floor, fun l hl' => ?_, fun l hl' => ?_, h.counted⟩
  · rw [State.book_create hp hl]
    exact hk.create hb
  · rw [State.book_create hp hl]
    exact h.manned.create hu
  · rw [State.book_create hp hl]
    exact h.below.create (Nat.lt_of_lt_of_le (by decide) h.floor)
  · by_cases he : l = i
    · exact he ▸ hi
    · simp only [State.create, State.setSocket, update_of_ne he] at hl'
      exact h.bound l hl'
  · by_cases he : l = i
    · simp [State.create, State.setSocket, he, Socket.create] at hl'
    · simp only [State.create, State.setSocket, update_of_ne he] at hl' ⊢
      exact h.clean l hl'

lemma setPort {n : BitVec 32} (hi : (s.sockets i).used)
    (hp : (s.sockets i).addr.port = 0) (h0 : a.port ≠ 0) (hf : Idle s.book a.port)
    (hn : s.localPort.toNat ≤ n.toNat) (ha : a.port.toNat < n.toNat) :
    Inv { s.setSocket i { s.sockets i with addr := a } with localPort := n } := by
  obtain ⟨purpose, fate, hk⟩ := h.kept
  have hr : s.book.role i = .plain := by
    by_contra hr
    exact hk.named i hi hr hp
  have hb : { s.setSocket i { s.sockets i with addr := a } with localPort := n }.book = s.book.name i a.port :=
    State.book_setPort
  refine ⟨?_, ?_, ?_, Nat.le_trans h.floor hn, h.bound_setSocket hi, h.clean_setSocket hi, h.counted⟩
  · rw [hb]
    exact ⟨_, _, hk.name hr h0 hf⟩
  · rw [hb]
    exact h.manned.name hk (hk.plain i hi hr).2 h0
  · rw [hb]
    exact (h.below.mono hn).name ha

lemma idle_of_orderly (ho : Orderly s (.bind i a)) : Idle s.book a.port := by
  obtain ⟨-, -, -, hu, hq⟩ := ho
  refine ⟨fun j hj => (hu j (h.bound j hj) hj).1, fun j hj _ => (hu j (h.bound j hj) hj).2, fun j c w hc => ?_⟩
  obtain ⟨q, hm, he⟩ := mem_map.mp hc
  cases he
  by_cases hj : (s.sockets j).used = true
  · exact hq j (h.bound j hj) q hm
  · rw [(h.clean j (by simpa using hj)).2.2] at hm
    cases hm

lemma bind (hi : (s.sockets i).used) (ho : Orderly s (.bind i a)) :
    Inv (s.setSocket i ((s.sockets i).bound a)) := by
  rw [Socket.bound]
  split
  · exact h.setPort hi ho.1 ho.2.1 (h.idle_of_orderly ho) (Nat.le_refl _) (Nat.lt_of_lt_of_le ho.2.2.1 h.floor)
  · exact h.setSocket hi hi (State.book_setSocket rfl rfl rfl rfl rfl rfl)

lemma listen (hi : (s.sockets i).used) (ho : Orderly s (.listen i)) : Inv (listen s i) := by
  obtain ⟨purpose, fate, hk⟩ := h.kept
  refine ⟨?_, ?_, ?_, h.floor, h.bound_setSocket hi, h.clean_setSocket hi, h.counted⟩
  · rw [State.book_listen]
    by_cases hr : s.book.role i = .plain
    · exact ⟨_, _, hk.listen hi hr ho.1⟩
    · refine ⟨purpose, fate, ?_⟩
      rw [Book.listen, if_neg hr, update_eq_self]
      exact { hk with }
  · rw [State.book_listen]
    refine h.manned.listen ?_
    cases hr : s.book.role i with
    | plain => exact .inl rfl
    | listener => exact .inr (.inl rfl)
    | client => exact absurd ho.2 (hk.client i hi hr).2
    | accepted w => exact absurd ho.2 (hk.accepted i w hi hr).2.1
    | datagram => exact .inr (.inr (h.manned.datagram i hi hr))
  · rw [State.book_listen]
    exact h.below.listen

lemma name (hi : (s.sockets i).used) (hp : (s.sockets i).addr.port = 0 → s.localPort.toNat < 2 ^ 16) :
    Inv (s.name i) ∧ ((s.name i).sockets i).addr.port ≠ 0 := by
  rw [State.name]
  split_ifs with h0
  · have hlt := hp h0
    have hf := h.floor
    have hs : (s.localPort.setWidth 16).toNat = s.localPort.toNat := by
      rw [BitVec.toNat_setWidth]
      omega
    have h1 : (s.localPort + 1).toNat = s.localPort.toNat + 1 := by
      rw [BitVec.toNat_add, show (1 : BitVec 32).toNat = 1 from rfl]
      omega
    have hne : s.localPort.setWidth 16 ≠ 0 := by
      intro he
      rw [he, show (0 : BitVec 16).toNat = 0 from rfl] at hs
      omega
    refine ⟨h.setPort hi h0 hne (h.below.idle (Nat.le_of_eq hs.symm)) (by omega) ?_, ?_⟩
    · show (s.localPort.setWidth 16).toNat < _
      omega
    · rw [State.sockets_setSocket]
      exact hne
  · exact ⟨h, h0⟩

omit h in
lemma name_sockets (i : ℕ) : ∃ a, (s.name i).sockets i = { s.sockets i with addr := a } := by
  rw [State.name]
  split_ifs
  · exact ⟨_, State.sockets_setSocket _⟩
  · exact ⟨_, rfl⟩

omit h in
lemma name_sockets_ne (i k : ℕ) (hk : k ≠ i) : (s.name i).sockets k = s.sockets k := by
  rw [State.name]
  split_ifs
  · exact State.sockets_setSocket_ne _ hk
  · rfl

lemma connectDatagram (hi : (s.sockets i).used) (hp : (s.sockets i).addr.port ≠ 0)
    (hr : s.role i = .plain ∨ s.role i = .datagram) (hu : sockIsUdp (s.sockets i).type) :
    Inv (connectDatagram (s.aim i a) i a) := by
  obtain ⟨purpose, fate, hk⟩ := h.kept
  have hf : fate (s.born i) = .single := by
    obtain hr | hr := hr
    · exact (hk.plain i hi hr).2
    · exact hk.datagram i hi hr
  have hs : Inv { s.aim i a with role := update s.role i .datagram } := by
    refine ⟨?_, ?_, ?_, h.floor, h.bound_setSocket hi, h.clean_setSocket hi, h.counted⟩
    · rw [State.book_aim]
      exact ⟨_, _, hk.aim hr hp⟩
    · rw [State.book_aim]
      exact h.manned.aim hk hf hu
    · rw [State.book_aim]
      exact h.below.aim
  have hu' : ((s.aim i a).sockets i).used := by
    rw [State.aim, State.sockets_setSocket]
    exact hi
  rw [Peers.connectDatagram]
  split
  · exact hs.setSocket hu' hu' (State.book_setSocket rfl rfl rfl rfl rfl rfl)
  · exact hs

omit h in
lemma findListening (h : s.findListening a type = some j) :
    (s.sockets j).used ∧ (s.sockets j).type &&& socketTypeMask = type ∧ (s.sockets j).addr.port = a.port ∧
      (s.sockets j).listening := by
  simpa [listensAt, and_assoc] using find?_some h

omit h in
lemma findListening_eq {s' : State} (hn : ∀ k ≠ i, s'.sockets k = s.sockets k)
    (hl : (s.sockets i).listening = false) (hl' : (s'.sockets i).listening = false) :
    s'.findListening a type = s.findListening a type := by
  rw [State.findListening, State.findListening]
  congr 1
  funext k
  by_cases hk : k = i
  · rw [hk, listensAt, listensAt, hl, hl', Bool.and_false, Bool.and_false]
  · rw [hn k hk]

lemma request (hi : (s.sockets i).used) (hp : (s.sockets i).addr.port ≠ 0)
    (hr : s.role i = .plain) (hl : (s.sockets i).listening = false) (hu : sockIsUdp (s.sockets i).type = false)
    (hj : s.findListening a ((s.sockets i).type &&& socketTypeMask) = some j) :
    Inv ((s.aim i a).request i j) := by
  obtain ⟨purpose, fate, hk⟩ := h.kept
  obtain ⟨hju, hjt, hjp, hjl⟩ := findListening hj
  have hjr : s.book.role j = .listener := by
    refine (h.manned.listening j hju hjl).resolve_right ?_
    show ¬ sockIsUdp (s.sockets j).type = true
    rw [sockIsUdp, hjt]
    simpa [sockIsUdp] using hu
  have hb := State.book_request (s := s) (i := i) (j := j) hjp
  refine ⟨?_, ?_, ?_, h.floor, h.bound_setSocket hi, fun l hl' => ?_, h.counted⟩
  · rw [hb]
    exact ⟨_, _, hk.connect hi hr hp hju hjr⟩
  · rw [hb]
    exact h.manned.connect hk (hk.plain i hi hr).2 hl
  · rw [hb]
    exact h.below.connect hi hju
  · obtain ⟨h1, h2, h3⟩ := h.clean_setSocket (k := { s.sockets i with targetAddr := a }) hi l hl'
    have hne : l ≠ j := by
      rintro rfl
      have hli : l ≠ i := by
        rintro rfl
        simp [hl] at hjl
      have : ((s.aim i a).sockets l).used = false := hl'
      rw [State.aim, State.sockets_setSocket_ne _ hli, hju] at this
      cases this
    exact ⟨h1, h2, (update_of_ne hne ..).trans h3⟩

lemma connect (hi : (s.sockets i).used) (ho : Orderly s (.connect i a)) : Inv (connect s i a) := by
  obtain ⟨hl, ht, hp, hj⟩ := ho
  obtain ⟨hn, h0⟩ := h.name hi hp
  obtain ⟨b, hb⟩ := name_sockets (s := s) i
  obtain ⟨purpose, fate, hk⟩ := h.kept
  have hr : s.role i = .plain ∨ s.role i = .datagram := by
    cases hr : s.role i with
    | plain => exact .inl rfl
    | datagram => exact .inr rfl
    | listener => exact absurd (hl.symm.trans (h.manned.listener i hi hr)) nofun
    | client => exact absurd ht (hk.client i hi hr).2
    | accepted w => exact absurd ht (hk.accepted i w hi hr).2.1
  have hrn : (s.name i).role = s.role := by
    rw [State.name]
    split_ifs <;> rfl
  have hu : ((s.name i).sockets i).used := hb ▸ hi
  rw [Peers.connect]
  by_cases hy : sockIsUdp (s.sockets i).type = true
  · rw [if_pos hy]
    exact hn.connectDatagram hu h0 (hrn ▸ hr) (hb ▸ hy)
  · rw [if_neg hy]
    have hy' : sockIsUdp (s.sockets i).type = false := by simpa using hy
    obtain ⟨j, -, hf, hlt⟩ := hj hy'
    have hln : ((s.name i).sockets i).listening = false := hb ▸ hl
    have hf1 : (s.name i).findListening a (((s.name i).sockets i).type &&& socketTypeMask) = some j := by
      rw [hb, findListening_eq (name_sockets_ne i) hl hln]
      exact hf
    have ha : ((s.name i).aim i a).sockets i = { (s.name i).sockets i with targetAddr := a } :=
      State.sockets_setSocket _
    have hf2 : ((s.name i).aim i a).findListening a ((((s.name i).aim i a).sockets i).type &&& socketTypeMask) =
        some j := by
      have hne : ∀ k ≠ i, ((s.name i).aim i a).sockets k = (s.name i).sockets k :=
        fun k hk => State.sockets_setSocket_ne _ hk
      rw [ha, findListening_eq hne hln (ha ▸ hln)]
      exact hf1
    have hq : ((s.name i).aim i a).pending = s.pending := by
      rw [State.aim, State.name]
      split_ifs <;> rfl
    have hp' : (s.name i).role i = .plain := by
      rw [hrn]
      exact hr.resolve_right fun hd => hy (h.manned.datagram i hi hd)
    rw [connectStream, hf2]
    dsimp only
    rw [hq, if_neg (Nat.ne_of_lt hlt)]
    exact hn.request hu h0 hp' hln (hb ▸ hy') hf1

lemma welcome {n w : ℕ} {rest : List (SocketAddr × ℕ)} (hi : (s.sockets i).used)
    (hq : s.pending i = (a, w) :: rest) (hf : s.findFree = some n) :
    Inv ((s.create n (s.sockets i).addr.family (s.sockets i).type tid buffer).welcome i n a w rest) := by
  obtain ⟨hlt, hu⟩ := findFree hf
  obtain ⟨purpose, fate, hk⟩ := h.kept
  have hne : i ≠ n := by
    rintro rfl
    simp [hi] at hu
  have hb : ((s.create n (s.sockets i).addr.family (s.sockets i).type tid buffer).welcome i n a w rest).book =
      s.book.accept i n a.port w (rest.map fun q => (q.1.port, q.2)) := State.book_welcome hne (h.clean n hu).2.1
  have hp : s.book.pending i = (a.port, w) :: rest.map fun q => (q.1.port, q.2) := by simp [State.book, hq]
  refine ⟨?_, ?_, ?_, h.floor, fun l hl => ?_, fun l hl => ?_, h.counted⟩
  · rw [hb]
    exact ⟨_, _, hk.accept hu hp⟩
  · rw [hb]
    exact h.manned.accept hu
  · rw [hb]
    exact h.below.accept hi hp
  · by_cases he : l = n
    · exact he ▸ hlt
    · simp only [State.create, State.welcome, State.setSocket, update_of_ne he] at hl
      exact h.bound l hl
  · by_cases he : l = n
    · simp [State.create, State.welcome, State.setSocket, he, Socket.create] at hl
    · simp only [State.create, State.welcome, State.setSocket, update_of_ne he] at hl ⊢
      have hli : l ≠ i := by
        rintro rfl
        simp [hi] at hl
      rw [update_of_ne hli, update_of_ne he]
      exact h.clean l hl

lemma accept (hi : (s.sockets i).used) : Inv (accept s i tid buffer) := by
  rw [Peers.accept]
  split
  · next hq hf => exact h.welcome hi hq hf
  · exact h

omit h in
lemma findPeer (h : s.findPeer i = some j) : Faces s.book i j := by
  have := find?_some h
  simp only [peerOf, Bool.and_eq_true, decide_eq_true_eq] at this
  exact ⟨this.2.1.1, this.1, this.2.1.2, this.2.2⟩

lemma findPeer_isSome (hf : Faces s.book i j) : ∃ k, s.findPeer i = some k := by
  refine Option.isSome_iff_exists.mp (find?_isSome.mpr ⟨j, mem_range.mpr (h.bound j hf.1), ?_⟩)
  simp only [peerOf, Bool.and_eq_true, decide_eq_true_eq]
  exact ⟨hf.2.1, ⟨hf.1, hf.2.2.1⟩, hf.2.2.2⟩

lemma write {r : WriteReq} (hi : (s.sockets i).used) (ho : Orderly s (.write i r)) : Inv (write s i r) := by
  obtain ⟨purpose, fate, hk⟩ := h.kept
  rw [Peers.write]
  split_ifs with hs
  · exact h
  · split
    · next j hj =>
      split_ifs
      · exact h
      · have hf := findPeer hj
        have h0 : (s.sockets i).addr.port ≠ 0 := by
          refine ho.elim id fun ha h0 => ha j (h.bound j hf.1) hf.1 hf.2.1.symm ?_
          have hr : s.book.role i = .plain := by
            by_contra hr
            exact hk.named i hi hr h0
          exact hf.2.2.1.trans (hk.plain i hi hr).1
        have hu : sockIsUdp (s.sockets i).type = false := by
          simp only [not_or] at hs
          simpa using hs.1
        refine ⟨?_, ?_, ?_, h.floor, h.bound, h.clean, fun k w hw => ?_⟩
        · rw [State.book_write]
          exact ⟨purpose, fate, { hk with }⟩
        · rw [State.book_write]
          exact h.manned.write hi hu h0 hf
        · rw [State.book_write]
          exact { h.below with }
        · by_cases he : k = s.writes
          · exact he ▸ Nat.lt_succ_self _
          · simp only [State.setWriter, update_of_ne he] at hw
            exact Nat.lt_succ_of_lt (h.counted k w hw)
    · exact h

lemma stop {k : ℕ} : Inv (s.setWriter k none) := by
  obtain ⟨purpose, fate, hk⟩ := h.kept
  refine ⟨?_, ?_, ?_, h.floor, h.bound, h.clean, fun l w hw => ?_⟩
  · rw [State.book_stop]
    exact ⟨purpose, fate, { hk with }⟩
  · rw [State.book_stop]
    exact h.manned.stop
  · rw [State.book_stop]
    exact { h.below with }
  · by_cases he : l = k
    · simp [State.setWriter, he] at hw
    · simp only [State.setWriter, update_of_ne he] at hw
      exact h.counted l w hw

lemma append {k : ℕ} {w : Write} (hw : s.writers k = some w) (hc : (s.sockets w.source).isClose = false) :
    Inv (s.append k w) := by
  obtain ⟨purpose, fate, hk⟩ := h.kept
  have hwb : s.book.writers k = some ⟨w.source, w.sink, w.socket⟩ := by simp [State.book, hw]
  have hc' : s.book.closed w.source = false := hc
  have hs : (s.sockets w.sink).used :=
    ((h.manned.writer k _ hwb).2.2.2.2.resolve_left (by simp [hc'])).1
  have hp : ((s.sockets w.sink).put w.req w.i).used := by
    rw [put]
    exact hs
  refine ⟨?_, ?_, ?_, h.floor, h.bound_setSocket hs, h.clean_setSocket hp, fun l v hv => ?_⟩
  · rw [State.book_append hw]
    exact ⟨purpose, fate, { hk with }⟩
  · rw [State.book_append hw]
    exact h.manned.append hk hwb hc'
  · rw [State.book_append hw]
    exact { h.below with }
  · by_cases he : l = k
    · exact he ▸ h.counted k w hw
    · simp only [State.append, State.setWriter, State.setSocket, update_of_ne he] at hv
      exact h.counted l v hv

lemma chunk {k : ℕ} : Inv (chunk s k) := by
  rw [Peers.chunk]
  split
  · next w hw =>
    split_ifs with hn hc hf
    · exact h.stop
    · exact h
    · simp only [not_or] at hc
      exact h.append hw (by simpa using hc.1)
    · exact h.stop
  · exact h

lemma tell (hj : (s.sockets j).used) : Inv (s.tell j) := by
  obtain ⟨purpose, fate, hk⟩ := h.kept
  refine ⟨?_, ?_, ?_, h.floor, h.bound_setSocket hj, h.clean_setSocket hj, h.counted⟩
  · rw [State.book_tell]
    exact ⟨purpose, fate, { hk with }⟩
  · rw [State.book_tell]
    exact h.manned.tell
  · rw [State.book_tell]
    exact { h.below with }

lemma free (hi : (s.sockets i).used) (hs : ∀ k w, s.writers k = some w → w.source ≠ i)
    (ht : ∀ k w, s.writers k = some w → w.sink = i → (s.sockets w.source).isClose) : Inv (s.free i) := by
  obtain ⟨purpose, fate, hk⟩ := h.kept
  have hw : ∀ k w, s.book.writers k = some w → ∃ v, s.writers k = some v ∧ v.source = w.source ∧ v.sink = w.sink := by
    intro k w hw
    obtain ⟨v, hv, rfl⟩ := Option.map_eq_some_iff.mp hw
    exact ⟨v, hv, rfl, rfl⟩
  refine ⟨?_, ?_, ?_, h.floor, fun l hl => ?_, fun l hl => ?_, h.counted⟩
  · rw [State.book_free]
    exact ⟨_, _, hk.close⟩
  · rw [State.book_free]
    refine h.manned.close (fun k w hkw => ?_) fun k w hkw hsi => ?_
    · obtain ⟨v, hv, hso, -⟩ := hw k w hkw
      exact hso ▸ hs k v hv
    · obtain ⟨v, hv, hso, hsk⟩ := hw k w hkw
      exact hso ▸ ht k v hv (hsk.trans hsi)
  · rw [State.book_free]
    exact h.below.close
  · by_cases he : l = i
    · exact he ▸ h.bound i hi
    · simp only [State.free, State.setSocket, update_of_ne he] at hl
      exact h.bound l hl
  · by_cases he : l = i
    · simp [State.free, State.setSocket, he, clear, SocketAddr.zero]
    · simp only [State.free, State.setSocket, update_of_ne he] at hl ⊢
      exact h.clean l hl

lemma not_writing (hi : s.writing i = false) (k : ℕ) (w : Write) (hw : s.writers k = some w) : w.source ≠ i := by
  rintro rfl
  have := any_eq_false.mp hi k (mem_range.mpr (h.counted k w hw))
  simp [hw] at this

lemma close (hi : (s.sockets i).used) (ho : Orderly s (.close i)) : Inv (close s i) := by
  obtain ⟨purpose, fate, hk⟩ := h.kept
  have hs := h.not_writing ho
  have hw : ∀ k w, s.writers k = some w → w.sink = i → (s.sockets w.source).isClose ∨ s.findPeer i = some w.source := by
    rintro k w hw rfl
    have hwb : s.book.writers k = some ⟨w.source, w.sink, w.socket⟩ := by simp [State.book, hw]
    obtain ⟨hu, -, hy, h0, hc | hf⟩ := h.manned.writer k _ hwb
    · exact .inl hc
    · obtain ⟨l, hl⟩ := h.findPeer_isSome (hf.symm hu)
      have he : w.source = l := hk.faces_back hu h0 (h.manned.stream hu hy) hf (findPeer hl)
      exact .inr (he ▸ hl)
  rw [Peers.close]
  split
  · next j hj =>
    have hf := findPeer hj
    have hne : i ≠ j := hf.2.1
    refine (h.tell hf.1).free ?_ hs fun k w hkw hsi => ?_
    · rw [State.tell, State.sockets_setSocket_ne _ hne]
      exact hi
    · by_cases he : w.source = j
      · rw [State.tell, he, State.sockets_setSocket]
      · rw [State.tell, State.sockets_setSocket_ne _ he]
        refine (hw k w hkw hsi).resolve_right fun hp => he ?_
        exact Option.some.inj (hp.symm.trans hj)
  · next hj =>
    refine h.free hi hs fun k w hkw hsi => (hw k w hkw hsi).resolve_right ?_
    rw [hj]
    simp

lemma step {e : Event} (ho : Orderly s e) : Inv (step s e) := by
  cases e with
  | socket domain type tid buffer =>
    rw [Peers.step, socket]
    split
    · next hf => exact h.create hf
    · exact h
  | bind i a =>
    rw [Peers.step]
    split_ifs with hi
    · exact h.bind hi ho
    · exact h
  | listen i =>
    rw [Peers.step]
    split_ifs with hi
    · exact h.listen hi ho
    · exact h
  | connect i a =>
    rw [Peers.step]
    split_ifs with hi
    · exact h.connect hi ho
    · exact h
  | accept i tid buffer =>
    rw [Peers.step]
    split_ifs with hi
    · exact h.accept hi
    · exact h
  | write i r =>
    rw [Peers.step]
    split_ifs with hi
    · exact h.write hi ho
    · exact h
  | chunk k => exact h.chunk
  | read i n =>
    rw [Peers.step]
    split_ifs with hi
    · exact h.setSocket hi hi (State.book_setSocket rfl rfl rfl rfl rfl rfl)
    · exact h
  | close i =>
    rw [Peers.step]
    split_ifs with hi
    · exact h.close hi ho
    · exact h

end

end Inv

def State.Joined (s : State) (x y : ℕ) : Prop := (x, y) ∈ s.joined ∨ (y, x) ∈ s.joined

theorem stream_reaches_peer (evs : List Event) (hev : Meets step Orderly .init evs) :
    (∀ x y, (x, y) ∈ (evs.foldl step .init).appended → (evs.foldl step .init).Joined x y) ∧
      ∀ x y z, (evs.foldl step .init).Joined x y → (evs.foldl step .init).Joined x z → y = z := by
  have h : Inv (evs.foldl step .init) := hev.invariant .init fun s e hs he => hs.step he
  obtain ⟨purpose, fate, hk⟩ := h.kept
  exact ⟨h.manned.appended, fun x y z hy hz => hk.joined_inj hy hz⟩

def request : WriteReq := ⟨fun _ => 7, 0, 1⟩

def served : List Event :=
  [.socket 2 1 1 fun _ => 0, .bind 0 ⟨2, 80, 0⟩, .listen 0, .socket 2 1 2 fun _ => 0, .socket 2 1 2 fun _ => 0,
    .connect 1 ⟨2, 80, 0⟩, .accept 0 1 fun _ => 0, .write 1 request, .chunk 0, .write 2 request]

theorem stream_reaches_peer_served :
    (∀ x y, (x, y) ∈ (served.foldl step .init).appended → (served.foldl step .init).Joined x y) ∧
      (served.foldl step .init).appended = [(1, 3)] := by
  refine ⟨(stream_reaches_peer served ?_).1, ?_⟩
  · decide +kernel
  · decide +kernel

theorem new_sockets_write :
    ([.socket 2 1 1 fun _ => 0, .socket 2 1 2 fun _ => 0, .write 0 request, .chunk 0].foldl step .init).appended =
        [(0, 1)] ∧
      ([.socket 2 1 1 fun _ => 0, .socket 2 1 2 fun _ => 0, .write 0 request, .chunk 0].foldl step .init).joined =
        [] := by
  constructor <;> decide +kernel

end FarmOS.Net.Peers

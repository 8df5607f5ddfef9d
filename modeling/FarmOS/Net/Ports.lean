import Mathlib.Algebra.BigOperators.Ring.Finset
import Mathlib.Data.BitVec

/-! A table of sockets by its ports alone: slots `I`, ports `P`, and sockets numbered in the order of creation, so that
a slot that is used again holds another socket. -/

namespace FarmOS.Net.Ports

open Function

inductive Role
  | plain
  | listener
  | client
  | accepted (client : ℕ)
  | datagram
deriving DecidableEq

def Role.serves : Role → Bool
  | .listener | .accepted _ => true
  | _ => false

inductive Purpose
  | personal (socket : ℕ)
  | server

inductive Fate (I : Type*)
  | single
  | waiting (listener : I)
  | client (server : ℕ)
  | server (client : ℕ)

structure Writer (I : Type*) where
  source : I
  sink : I
  socket : ℕ

-- `pending` holds the ports and the numbers of the clients whose requests wait, `joined` each client with the socket
-- that `accept` made for it, and `appended` a socket with the one that its bytes went to.
@[ext]
structure Book (I P : Type*) where
  used : I → Bool
  port : I → P
  target : I → P
  listening : I → Bool
  udp : I → Bool
  closed : I → Bool
  writers : ℕ → Option (Writer I)
  role : I → Role
  born : I → ℕ
  births : ℕ
  pending : I → List (P × ℕ)
  joined : List (ℕ × ℕ)
  appended : List (ℕ × ℕ)

variable {I P : Type*} [Zero P]

namespace Book

def empty : Book I P where
  used := fun _ => false
  port := fun _ => 0
  target := fun _ => 0
  listening := fun _ => false
  udp := fun _ => false
  closed := fun _ => false
  writers := fun _ => none
  role := fun _ => .plain
  born := fun _ => 0
  births := 0
  pending := fun _ => []
  joined := []
  appended := []

variable [DecidableEq I]

def create (b : Book I P) (i : I) (u : Bool) : Book I P :=
  { b with
    used := update b.used i true
    port := update b.port i 0
    target := update b.target i 0
    listening := update b.listening i false
    udp := update b.udp i u
    closed := update b.closed i false
    role := update b.role i .plain
    born := update b.born i b.births
    births := b.births + 1
    pending := update b.pending i [] }

def name (b : Book I P) (i : I) (p : P) : Book I P := { b with port := update b.port i p }

def listen (b : Book I P) (i : I) : Book I P :=
  { b with
    listening := update b.listening i true
    role := update b.role i (if b.role i = .plain then .listener else b.role i) }

def aim (b : Book I P) (i : I) (p : P) : Book I P :=
  { b with target := update b.target i p, role := update b.role i .datagram }

def connect (b : Book I P) (i j : I) : Book I P :=
  { b with
    target := update b.target i (b.port j)
    role := update b.role i .client
    pending := update b.pending j (b.pending j ++ [(b.port i, b.born i)]) }

def accept (b : Book I P) (i n : I) (c : P) (w : ℕ) (rest : List (P × ℕ)) : Book I P :=
  { b with
    used := update b.used n true
    port := update b.port n (b.port i)
    target := update b.target n c
    listening := update b.listening n false
    udp := update b.udp n (b.udp i)
    closed := update b.closed n false
    role := update b.role n (.accepted w)
    born := update b.born n b.births
    births := b.births + 1
    pending := update (update b.pending i rest) n []
    joined := b.joined ++ [(w, b.births)] }

def tell (b : Book I P) (j : I) : Book I P := { b with closed := update b.closed j true }

def close (b : Book I P) (i : I) : Book I P :=
  { b with
    used := update b.used i false
    port := update b.port i 0
    target := update b.target i 0
    listening := update b.listening i false
    udp := update b.udp i false
    closed := update b.closed i false
    pending := update b.pending i [] }

def write (b : Book I P) (k : ℕ) (i j : I) : Book I P :=
  { b with writers := update b.writers k (some ⟨i, j, b.born i⟩) }

def append (b : Book I P) (w : Writer I) : Book I P := { b with appended := b.appended ++ [(w.socket, b.born w.sink)] }

def stop (b : Book I P) (k : ℕ) : Book I P := { b with writers := update b.writers k none }

def Joined (b : Book I P) (x y : ℕ) : Prop := (x, y) ∈ b.joined ∨ (y, x) ∈ b.joined

end Book

structure Idle (b : Book I P) (p : P) : Prop where
  port : ∀ i, b.used i → b.port i ≠ p
  target : ∀ i, b.used i → b.role i ≠ .datagram → b.target i ≠ p
  pending : ∀ i c w, (c, w) ∈ b.pending i → c ≠ p

structure Kept (b : Book I P) (purpose : P → Purpose) (fate : ℕ → Fate I) : Prop where
  born_lt : ∀ i, b.used i → b.born i < b.births
  born_inj : ∀ i j, b.used i → b.used j → b.born i = b.born j → i = j
  fresh : ∀ x, b.births ≤ x → fate x = .single
  client_iff : ∀ x y, fate x = .client y ↔ (x, y) ∈ b.joined
  server_iff : ∀ x y, fate y = .server x ↔ (x, y) ∈ b.joined
  plain : ∀ i, b.used i → b.role i = .plain → b.target i = 0 ∧ fate (b.born i) = .single
  listener : ∀ i, b.used i → b.role i = .listener → b.target i = 0 ∧ fate (b.born i) = .single
  datagram : ∀ i, b.used i → b.role i = .datagram → fate (b.born i) = .single
  client : ∀ i, b.used i → b.role i = .client → purpose (b.target i) = .server ∧ b.target i ≠ 0
  accepted : ∀ i w, b.used i → b.role i = .accepted w →
    purpose (b.target i) = .personal w ∧ b.target i ≠ 0 ∧ fate (b.born i) = .server w
  named : ∀ i, b.used i → b.role i ≠ .plain → b.port i ≠ 0
  owns : ∀ i, b.used i → b.port i ≠ 0 →
    purpose (b.port i) = if (b.role i).serves then .server else .personal (b.born i)
  pending : ∀ i c w, (c, w) ∈ b.pending i →
    b.used i ∧ b.role i = .listener ∧ c ≠ 0 ∧ purpose c = .personal w ∧ fate w = .waiting i
  nodup : ∀ i, ((b.pending i).map Prod.snd).Nodup

namespace Kept

variable {b : Book I P} {purpose : P → Purpose} {fate : ℕ → Fate I} {i j : I}

lemma empty : Kept (.empty : Book I P) (fun _ => .server) fun _ => .single := by
  constructor <;> simp [Book.empty]

section

variable (h : Kept b purpose fate)
include h

lemma lt_births {x : ℕ} (hx : fate x ≠ .single) : x < b.births := by
  by_contra hb
  exact hx (h.fresh x (by omega))

lemma joined_lt {x y : ℕ} (hj : (x, y) ∈ b.joined) : x < b.births ∧ y < b.births := by
  have hx := (h.client_iff x y).mpr hj
  have hy := (h.server_iff x y).mpr hj
  exact ⟨h.lt_births (by simp [hx]), h.lt_births (by simp [hy])⟩

lemma joined_inj {x y z : ℕ} (hy : b.Joined x y) (hz : b.Joined x z) : y = z := by
  obtain hy | hy := hy <;> obtain hz | hz := hz
  · have := (h.client_iff x y).mpr hy
    have := (h.client_iff x z).mpr hz
    simp_all
  · have := (h.client_iff x y).mpr hy
    have := (h.server_iff z x).mpr hz
    simp_all
  · have := (h.server_iff y x).mpr hy
    have := (h.client_iff x z).mpr hz
    simp_all
  · have := (h.server_iff y x).mpr hy
    have := (h.server_iff z x).mpr hz
    simp_all

lemma target_ne_zero (hj : b.used j) (h0 : b.port i ≠ 0)
    (hp : b.port j = b.target i) (ht : b.target j = b.port i) : b.target i ≠ 0 := by
  intro hz
  have hr : b.role j = .plain := by
    by_contra hr
    exact h.named j hj hr (hp.trans hz)
  exact h0 (ht.symm.trans (h.plain j hj hr).1)

lemma peer (hi : b.used i) (hj : b.used j) (hi0 : b.port i ≠ 0) (hd : b.role i ≠ .datagram)
    (hp : b.port j = b.target i) (ht : b.target j = b.port i) : b.Joined (b.born i) (b.born j) := by
  have hz := h.target_ne_zero hj hi0 hp ht
  cases hr : b.role i with
  | datagram => exact absurd hr hd
  | plain => exact absurd (h.plain i hi hr).1 hz
  | listener => exact absurd (h.listener i hi hr).1 hz
  | client =>
    obtain ⟨hs, h0⟩ := h.client i hi hr
    have ho := h.owns j hj (hp ▸ h0)
    have hoi := h.owns i hi hi0
    rw [hp, hs] at ho
    cases hrj : b.role j with
    | accepted w =>
      obtain ⟨ha, -, hf⟩ := h.accepted j w hj hrj
      rw [ht, hoi, hr] at ha
      cases ha
      exact .inl ((h.server_iff _ _).mp hf)
    | listener => exact absurd (ht ▸ (h.listener j hj hrj).1) hi0
    | plain => simp [hrj, Role.serves] at ho
    | client => simp [hrj, Role.serves] at ho
    | datagram => simp [hrj, Role.serves] at ho
  | accepted w =>
    obtain ⟨hs, h0, hf⟩ := h.accepted i w hi hr
    have ho := h.owns j hj (hp ▸ h0)
    rw [hp, hs] at ho
    split at ho
    · cases ho
    · cases ho
      exact .inr ((h.server_iff _ _).mp hf)

end

variable [DecidableEq I]

section

variable (h : Kept b purpose fate)
include h

lemma create {u : Bool} (hn : b.pending i = []) : Kept (b.create i u) purpose fate := by
  cases h
  constructor <;> simp only [Book.create] <;> grind

lemma name [DecidableEq P] {p : P} (hr : b.role i = .plain) (h0 : p ≠ 0) (hp : Idle b p) :
    Kept (b.name i p) (update purpose p (.personal (b.born i))) fate := by
  refine { h with client := ?_, accepted := ?_, named := ?_, owns := ?_, pending := ?_ }
  all_goals
    cases h
    cases hp
    simp only [Book.name]
    grind [Role.serves]

lemma listen [DecidableEq P] (hi : b.used i) (hr : b.role i = .plain) (hp : b.port i ≠ 0) :
    Kept (b.listen i) (update purpose (b.port i) .server) fate := by
  refine { h with
    plain := ?_, listener := ?_, datagram := ?_, client := ?_, accepted := ?_, named := ?_, owns := ?_, pending := ?_ }
  all_goals
    cases h
    simp only [Book.listen, hr, if_true]
    grind [Role.serves]

lemma aim {p : P} (hr : b.role i = .plain ∨ b.role i = .datagram) (hp : b.port i ≠ 0) :
    Kept (b.aim i p) purpose fate := by
  refine { h with
    plain := ?_, listener := ?_, datagram := ?_, client := ?_, accepted := ?_, named := ?_, owns := ?_, pending := ?_ }
  all_goals
    cases h
    simp only [Book.aim]
    grind [Role.serves]

lemma connect (hi : b.used i) (hr : b.role i = .plain) (hp : b.port i ≠ 0)
    (hj : b.used j) (hl : b.role j = .listener) :
    Kept (b.connect i j) purpose (update fate (b.born i) (.waiting j)) := by
  cases h
  constructor <;> simp only [Book.connect] <;> grind [Role.serves]

lemma accept {n : I} {c : P} {w : ℕ} {rest : List (P × ℕ)} (hn : b.used n = false)
    (hp : b.pending i = (c, w) :: rest) :
    Kept (b.accept i n c w rest) purpose
      (update (update fate w (.client b.births)) b.births (.server w)) := by
  obtain ⟨hi, hr, h0, hc, hw⟩ := h.pending i c w (hp ▸ List.mem_cons_self)
  have hb : w < b.births := h.lt_births (by simp [hw])
  have hj := fun x y => h.joined_lt (x := x) (y := y)
  have hd := h.nodup i
  rw [hp, List.map_cons, List.nodup_cons] at hd
  have hm : ∀ c', (c', w) ∉ rest := fun c' hc' => hd.1 (List.mem_map.mpr ⟨_, hc', rfl⟩)
  have hq : ∀ k c' w', (c', w') ∈ (b.accept i n c w rest).pending k → (c', w') ∈ b.pending k ∧ w' ≠ w := by
    intro k c' w' hk
    simp only [Book.accept] at hk
    have := h.pending k c' w'
    grind
  constructor
  case pending =>
    intro k c' w' hk
    obtain ⟨hk, hne⟩ := hq k c' w' hk
    obtain ⟨hu, hl, h0', hc', hw'⟩ := h.pending k c' w' hk
    have hkn : k ≠ n := fun hkn => by simp [hkn, hn] at hu
    have hb' : w' < b.births := h.lt_births (by simp [hw'])
    simp only [Book.accept, update_of_ne hkn, update_of_ne hne, update_of_ne (Nat.ne_of_lt hb')]
    exact ⟨hu, hl, h0', hc', hw'⟩
  all_goals
    cases h
    clear hq
    simp only [Book.accept]
    grind [Role.serves]

lemma close : Kept (b.close i) purpose fate := by
  cases h
  constructor <;> simp only [Book.close] <;> grind

end

end Kept

end FarmOS.Net.Ports

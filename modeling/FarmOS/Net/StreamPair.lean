import FarmOS.Fs.PipeStream
import FarmOS.Net.Stream

/-! Each direction of a connected pair of stream sockets runs as a pipe does. -/

namespace FarmOS.Net.Stream

open Lib Function Phase

open Fs.PipeDev (Pipe WriteReq Chunk Finished Faithful readOut writeLength writeAddrs pipeBufSize)

variable {l call t : ℕ} {ph : Phase} {r : WriteReq} {n : BitVec 64} {j : Job}

def Job.toPipe (b : ℕ) : Job → Option Fs.PipeDev.Job
  | .write _ t call r i => if t = b then some (.write call r i) else none
  | .read l n => if l = b then some (.read n) else none

def Phase.toPipe (a b : ℕ) : Phase → Fs.PipeDev.Phase
  | .idle => .idle
  | .opening l n => if l = b then .ready (.read n) else .idle
  | .entering l call r => if l = a then .ready (.write call r 0) else .idle
  | .scanning l _ call r => if l = a then .ready (.write call r 0) else .idle
  | .ready j => (j.toPipe b).elim .idle .ready
  | .running j => (j.toPipe b).elim .idle .running
  | .asleep j => (j.toPipe b).elim .idle .asleep

def State.toPipe {T : Type*} (a b : ℕ) (s : State T) : Fs.PipeDev.State T where
  pipe := (s.sockets b).ring
  holder := s.holder b
  phase := fun th => (s.phase th).toPipe a b
  calls := s.calls a
  chunks := s.chunks a
  reads := s.reads b
  finished := s.finished a

structure Open (s : Socket) : Prop where
  isClose : s.isClose = false
  oppositeWriteClose : s.oppositeWriteClose = false
  selfReadClose : s.selfReadClose = false
  selfWriteClose : s.selfWriteClose = false

structure Joined (a b : ℕ) (sockets : ℕ → Socket) : Prop where
  ne : a ≠ b
  lt_left : a < socketCount
  lt_right : b < socketCount
  open_left : Open (sockets a)
  open_right : Open (sockets b)
  peer_right : (sockets b).peerOf (sockets a) = true
  peer_left : (sockets a).peerOf (sockets b) = true
  alone (i : ℕ) : i ≠ a → i ≠ b → (sockets i).peerOf (sockets a) = false ∧ (sockets i).peerOf (sockets b) = false

namespace Joined

variable {a b : ℕ} {sockets : ℕ → Socket}

lemma symm (h : Joined a b sockets) : Joined b a sockets :=
  ⟨h.ne.symm, h.lt_right, h.lt_left, h.open_right, h.open_left, h.peer_left, h.peer_right,
    fun i hb ha => (h.alone i ha hb).symm⟩

lemma peer (h : Joined a b sockets) {k : ℕ} (hl : l = a ∨ l = b) (hlk : l ≠ k)
    (hp : (sockets k).peerOf (sockets l) = true) : l = a ∧ k = b ∨ l = b ∧ k = a := by
  have := h.alone k
  grind

end Joined

def Job.Ok (a b : ℕ) : Job → Prop
  | .write l t _ _ _ => l = a ∧ t = b ∨ l = b ∧ t = a
  | .read l _ => l = a ∨ l = b

def Phase.Ok (a b : ℕ) : Phase → Prop
  | .idle => True
  | .opening l _ | .entering l _ _ => l = a ∨ l = b
  | .scanning l k _ _ => l = a ∧ k ≤ b ∨ l = b ∧ k ≤ a
  | .ready j | .running j | .asleep j => j.Ok a b

structure Good {T : Type*} (a b : ℕ) (s : State T) : Prop where
  joined : Joined a b s.sockets
  phase (th : T) : (s.phase th).Ok a b

namespace Joined

variable {a b : ℕ} {sockets : ℕ → Socket} {k : Socket}

def face (s : Socket) : Socket := { s with socketReadPos := 0, socketWritePos := 0, buffer := fun _ => 0 }

lemma face_ring (s : Socket) (r w : BitVec 64) (buf : ℕ → UInt8) :
    face { s with socketReadPos := r, socketWritePos := w, buffer := buf } = face s := rfl

section

variable (h : Joined a b sockets)
include h

lemma congr {sockets' : ℕ → Socket} (hf : ∀ i, face (sockets' i) = face (sockets i)) :
    Joined a b sockets' := by
  have hface : Joined a b fun i => face (sockets i) :=
    ⟨h.ne, h.lt_left, h.lt_right, ⟨h.open_left.1, h.open_left.2, h.open_left.3, h.open_left.4⟩,
      ⟨h.open_right.1, h.open_right.2, h.open_right.3, h.open_right.4⟩, h.peer_right, h.peer_left, h.alone⟩
  rw [← funext hf] at hface
  exact ⟨hface.ne, hface.lt_left, hface.lt_right,
    ⟨hface.open_left.1, hface.open_left.2, hface.open_left.3, hface.open_left.4⟩,
    ⟨hface.open_right.1, hface.open_right.2, hface.open_right.3, hface.open_right.4⟩,
    hface.peer_right, hface.peer_left, hface.alone⟩

lemma update_face {i : ℕ} (hk : face k = face (sockets i)) :
    Joined a b (update sockets i k) := by
  refine h.congr fun j => ?_
  by_cases hj : j = i
  · rw [hj, update_self, hk]
  · rw [update_of_ne hj]

lemma update_other {i : ℕ} (ha : i ≠ a) (hb : i ≠ b)
    (hka : k.peerOf (sockets a) = false) (hkb : k.peerOf (sockets b) = false) :
    Joined a b (update sockets i k) := by
  have ea : update sockets i k a = sockets a := update_of_ne ha.symm ..
  have eb : update sockets i k b = sockets b := update_of_ne hb.symm ..
  refine ⟨h.ne, h.lt_left, h.lt_right, ea ▸ h.open_left, eb ▸ h.open_right, ?_, ?_, fun j hja hjb => ?_⟩
  · rw [ea, eb]
    exact h.peer_right
  · rw [ea, eb]
    exact h.peer_left
  · rw [ea, eb]
    by_cases hj : j = i
    · rw [hj, update_self]
      exact ⟨hka, hkb⟩
    · rw [update_of_ne hj]
      exact h.alone j hja hjb

lemma open_of (hl : l = a ∨ l = b) : Open (sockets l) := by
  rcases hl with rfl | rfl
  · exact h.open_left
  · exact h.open_right

end

end Joined

variable {T : Type*} {a b : ℕ} {s s' : State T} {th : T} {e : Event T}

lemma toPipe_phase (hp : s.phase th = ph) : (s.toPipe a b).phase th = ph.toPipe a b := by
  rw [← hp]
  rfl

lemma toPipe_setHolder_self (o : Option T) : (s.setHolder b o).toPipe a b = { s.toPipe a b with holder := o } := by
  simp only [State.toPipe, State.setHolder, update_self]

lemma toPipe_setHolder_ne {i : ℕ} (hi : i ≠ b) (o : Option T) : (s.setHolder i o).toPipe a b = s.toPipe a b := by
  simp only [State.toPipe, State.setHolder, update_of_ne hi.symm]

lemma toPipe_full : (s.toPipe a b).pipe.used = BitVec.ofNat 64 pipeBufSize ↔ (s.sockets b).full = true :=
  decide_eq_true_iff.symm

lemma toPipe_empty :
    (s.toPipe a b).pipe.pipeReadPos = (s.toPipe a b).pipe.pipeWritePos ↔ (s.sockets b).empty = true :=
  decide_eq_true_iff.symm

lemma Good.phase_ok (h : Good a b s) (hp : s.phase th = ph) : ph.Ok a b := hp ▸ h.phase th

variable [DecidableEq T] {i : BitVec 32}

lemma next_symm (s : State T) (e : Event T) : next a b s e = next b a s e := by
  cases e with
  | callWrite th l r => simp only [next, or_comm]
  | callRead th l n => simp only [next, or_comm]
  | other i k => grind [next]
  | _ => rfl

inductive Moves (a b : ℕ) (s : State T) : State T → Prop
  | call {th : T} {l : ℕ} {r : WriteReq} : s.phase th = .idle → l = a ∨ l = b →
      Moves a b s { s.setPhase th (.entering l (s.calls l) r) with
        calls := update s.calls l (s.calls l + 1) }
  | ask {th : T} {l : ℕ} {n : BitVec 64} : s.phase th = .idle → l = a ∨ l = b →
      Moves a b s (s.setPhase th (.opening l n))
  | enter {th : T} {l call : ℕ} {r : WriteReq} : s.phase th = .entering l call r →
      Moves a b s (s.setPhase th (.scanning l 0 call r))
  | begin {th : T} {l : ℕ} {n : BitVec 64} : s.phase th = .opening l n → s.holder l = none →
      Moves a b s ((s.setPhase th (.running (.read l n))).setHolder l (some th))
  | pass {th : T} {l k call : ℕ} {r : WriteReq} : s.phase th = .scanning l k call r →
      l = a ∧ k + 1 ≤ b ∨ l = b ∧ k + 1 ≤ a → Moves a b s (s.setPhase th (.scanning l (k + 1) call r))
  | found {th : T} {l k call : ℕ} {r : WriteReq} : s.phase th = .scanning l k call r → s.holder k = none →
      l = a ∧ k = b ∨ l = b ∧ k = a →
      Moves a b s ((s.setPhase th (.running (.write l k call r 0))).setHolder k (some th))
  | acquire {th : T} {j : Job} : s.phase th = .ready j → s.holder j.target = none →
      Moves a b s ((s.setPhase th (.running j)).setHolder j.target (some th))
  | sleep {th : T} {j : Job} : s.phase th = .running j →
      (∀ l t k r i, j = .write l t k r i → (i.signExtend 64).ult r.n = true ∧ (s.sockets t).full = true) →
      (∀ l n, j = .read l n → (s.sockets l).empty = true) → Moves a b s (s.sleep th j)
  | wake {th : T} {j : Job} : s.phase th = .asleep j → Moves a b s (s.setPhase th (.ready j))
  | finish {th : T} {l t call : ℕ} {r : WriteReq} {i : BitVec 32} : s.phase th = .running (.write l t call r i) →
      ¬ (i.signExtend 64).ult r.n = true → Moves a b s ((s.returns th l call r i).setHolder t none)
  | put {th : T} {l t call : ℕ} {r : WriteReq} {i : BitVec 32} : s.phase th = .running (.write l t call r i) →
      (i.signExtend 64).ult r.n = true → (s.sockets t).full = false → Moves a b s
        { (s.setPhase th (.running (.write l t call r (i + (writeLength
          (s.sockets t).ring r).setWidth 32)))).setSocket t
            ((s.sockets t).put r i) with
          chunks := update s.chunks l
            (s.chunks l ++ [⟨call, r, i, (s.sockets t).ring.leftSize.toNat, writeAddrs (s.sockets t).ring r i⟩]) }
  | get {th : T} {l : ℕ} {n : BitVec 64} : s.phase th = .running (.read l n) → (s.sockets l).empty = false →
      Moves a b s { ((s.setPhase th .idle).setHolder l none).setSocket l ((s.sockets l).get n) with
        reads := update s.reads l (s.reads l ++ [readOut (s.sockets l).ring n]) }
  | other {i : ℕ} {k : Socket} : i ≠ a → i ≠ b → k.peerOf (s.sockets a) = false → k.peerOf (s.sockets b) = false →
      Moves a b s (s.setSocket i k)

section

variable (h : Good a b s)
include h

lemma Good.moves_scan {k : ℕ} (hp : s.phase th = .scanning l k call r)
    (hk : s.holder k = none) : Moves a b s (scan s th l k call r) := by
  have hok := h.phase_ok hp
  rw [scan]
  by_cases hm : l ≠ k ∧ (s.sockets k).peerOf (s.sockets l)
  · have hpair := h.joined.peer (hok.imp And.left And.left) hm.1 hm.2
    have hopen := h.joined.open_of (hpair.symm.imp And.right And.right)
    rw [if_pos hm, if_neg (by simp [hopen.selfReadClose])]
    exact .found hp hk hpair
  · rw [if_neg hm]
    refine .pass hp ?_
    have := h.joined.peer_left
    have := h.joined.peer_right
    have := h.joined.ne
    grind [Phase.Ok]

lemma Good.moves_write
    (hp : s.phase th = .running (.write l t call r i)) : Moves a b s (advanceWrite s th l t call r i) := by
  have hok : l = a ∧ t = b ∨ l = b ∧ t = a := h.phase_ok hp
  have hl := (h.joined.open_of (hok.imp And.left And.left)).isClose
  have ht := (h.joined.open_of (hok.symm.imp And.right And.right)).selfReadClose
  rw [advanceWrite]
  by_cases hi : (i.signExtend 64).ult r.n = true
  · rw [if_pos hi, if_neg (by simp [hl]), if_neg (by simp [ht])]
    by_cases hf : (s.sockets t).full = true
    · rw [if_pos hf]
      refine .sleep hp ?_ nofun
      rintro l t k r i ⟨⟩
      exact ⟨hi, hf⟩
    · rw [if_neg hf]
      exact .put hp hi (by simpa using hf)
  · rw [if_neg hi]
    exact .finish hp hi

lemma Good.moves_read (hp : s.phase th = .running (.read l n)) : Moves a b s (advanceRead s th l n) := by
  obtain ⟨hc, ho, -, -⟩ := h.joined.open_of (h.phase_ok hp)
  rw [advanceRead]
  by_cases he : (s.sockets l).empty = true
  · rw [if_pos (by simp [he, hc, ho])]
    refine .sleep hp nofun ?_
    rintro l n ⟨⟩
    exact he
  · rw [if_neg (by simp [he])]
    exact .get hp (by simpa using he)

lemma Good.moves (hs : Step a b s e s') : Moves a b s s' := by
  cases e with
  | callWrite th l r =>
    simp only [Step, next] at hs
    split at hs
    · next hp =>
      split at hs
      · cases hs
        exact .call hp ‹_›
      · cases hs
    · cases hs
  | callRead th l n =>
    simp only [Step, next] at hs
    split at hs
    · next hp =>
      split at hs
      · cases hs
        exact .ask hp ‹_›
      · cases hs
    · cases hs
  | enter th =>
    simp only [Step, next] at hs
    split at hs
    · next hp =>
      split at hs
      · cases hs
        rw [Stream.enter, if_neg (by simp [(h.joined.open_of (h.phase_ok hp)).selfWriteClose])]
        exact .enter hp
      · cases hs
    · next hp =>
      split at hs
      · cases hs
        rw [beginRead, if_neg (by simp [(h.joined.open_of (h.phase_ok hp)).selfReadClose])]
        exact .begin hp ‹_›
      · cases hs
    · cases hs
  | scan th =>
    simp only [Step, next] at hs
    split at hs
    · next l k call r hp =>
      by_cases hk : k < socketCount
      · rw [if_pos hk] at hs
        split at hs
        · cases hs
          exact h.moves_scan hp ‹_›
        · cases hs
      · have hok := h.phase_ok hp
        have := h.joined.lt_left
        have := h.joined.lt_right
        simp only [Phase.Ok] at hok
        omega
    · cases hs
  | acquire th =>
    simp only [Step, next] at hs
    split at hs
    · next hp =>
      split at hs
      · cases hs
        exact .acquire hp ‹_›
      · cases hs
    · cases hs
  | advance th =>
    simp only [Step, next] at hs
    split at hs
    · next hp =>
      cases hs
      exact h.moves_write hp
    · next hp =>
      cases hs
      exact h.moves_read hp
    · cases hs
  | wake th =>
    simp only [Step, next] at hs
    split at hs
    · next hp =>
      cases hs
      exact .wake hp
    · cases hs
  | other i k =>
    simp only [Step, next] at hs
    split at hs
    · next hg =>
      cases hs
      obtain ⟨ha, hb, hka, hkb⟩ := hg
      exact .other ha hb (by simpa using hka) (by simpa using hkb)
    · cases hs

lemma Good.moved (hs : s'.phase = update s.phase th ph)
    (hj : Joined a b s'.sockets) (hp : ph.Ok a b) : Good a b s' := by
  refine ⟨hj, fun th' => ?_⟩
  rw [hs]
  by_cases he : th' = th
  · rw [he, update_self]
    exact hp
  · rw [update_of_ne he]
    exact h.phase th'

lemma Good.step (hm : Moves a b s s') : Good a b s' := by
  cases hm with
  | call _ hl => exact h.moved rfl h.joined hl
  | ask _ hl => exact h.moved rfl h.joined hl
  | enter hp =>
    have hl := h.phase_ok hp
    exact h.moved rfl h.joined (hl.imp (⟨·, Nat.zero_le _⟩) (⟨·, Nat.zero_le _⟩))
  | begin hp =>
    have hl := h.phase_ok hp
    exact h.moved rfl h.joined hl
  | pass _ hk => exact h.moved rfl h.joined hk
  | found _ _ hk => exact h.moved rfl h.joined hk
  | acquire hp | sleep hp | wake hp =>
    have hj := h.phase_ok hp
    exact h.moved rfl h.joined hj
  | finish => exact h.moved rfl h.joined trivial
  | @put th l t call r i hp =>
    have hj : l = a ∧ t = b ∨ l = b ∧ t = a := h.phase_ok hp
    exact h.moved rfl (h.joined.update_face (Joined.face_ring ..)) hj
  | get => exact h.moved rfl (h.joined.update_face (Joined.face_ring ..)) trivial
  | other ha hb hka hkb => exact ⟨h.joined.update_other ha hb hka hkb, h.phase⟩

end

lemma toPipe_setPhase (ph : Phase) :
    (s.setPhase th ph).toPipe a b = (s.toPipe a b).setPhase th (ph.toPipe a b) := by
  simp only [State.toPipe, State.setPhase, Fs.PipeDev.State.setPhase]
  congr 1
  funext th'
  by_cases he : th' = th
  · rw [he, update_self, update_self]
  · rw [update_of_ne he, update_of_ne he]

lemma toPipe_setPhase_same (hp : (s.toPipe a b).phase th = ph.toPipe a b) :
    (s.setPhase th ph).toPipe a b = s.toPipe a b := by
  rw [toPipe_setPhase, ← hp, Fs.PipeDev.State.setPhase, update_eq_self]

def Simulates (a b : ℕ) (s s' : State T) : Prop :=
  s'.toPipe a b = s.toPipe a b ∨ ∃ e, Fs.PipeDev.Step (s.toPipe a b) e (s'.toPipe a b)

lemma simulates_lock (hp : s.phase th = ph)
    (hready : ph.toPipe a b = (ready j).toPipe a b) (hfree : s.holder j.target = none) :
    Simulates a b s ((s.setPhase th (.running j)).setHolder j.target (some th)) := by
  have hpipe := (toPipe_phase (a := a) (b := b) hp).trans hready
  by_cases hb : j.target = b
  · right
    refine ⟨.acquire th, ?_⟩
    obtain ⟨j', hj⟩ : ∃ j', j.toPipe b = some j' := by
      cases j <;> exact ⟨_, if_pos hb⟩
    rw [toPipe, hj] at hpipe
    subst hb
    rw [toPipe_setHolder_self, toPipe_setPhase, toPipe, hj]
    exact Fs.PipeDev.acquire_step hpipe hfree
  · left
    have hj : j.toPipe b = none := by
      cases j <;> exact if_neg hb
    rw [toPipe_setHolder_ne hb]
    refine toPipe_setPhase_same ?_
    rw [hpipe, toPipe, toPipe, hj]
    rfl

lemma simulates_call (hp : s.phase th = .idle) : Simulates a b s { s.setPhase th (.entering l (s.calls l) r) with
      calls := update s.calls l (s.calls l + 1) } := by
  have hidle := toPipe_phase (a := a) (b := b) hp
  have htp : ({ s.setPhase th (.entering l (s.calls l) r) with
      calls := update s.calls l (s.calls l + 1) } : State T).toPipe a b =
      { (s.setPhase th (.entering l (s.calls l) r)).toPipe a b with
        calls := update s.calls l (s.calls l + 1) a } := rfl
  rw [Simulates, htp]
  by_cases hl : l = a
  · subst hl
    right
    refine ⟨.callWrite th r, ?_⟩
    rw [update_self, toPipe_setPhase, toPipe, if_pos rfl]
    simp only [Fs.PipeDev.Step, Fs.PipeDev.next, hidle, toPipe]
    rfl
  · left
    have hsame : (s.toPipe a b).phase th = (entering l (s.calls l) r).toPipe a b :=
      hidle.trans (if_neg hl).symm
    rw [update_of_ne (Ne.symm hl), toPipe_setPhase_same hsame]
    rfl

lemma simulates_ask (hp : s.phase th = .idle) : Simulates a b s (s.setPhase th (.opening l n)) := by
  have hidle := toPipe_phase (a := a) (b := b) hp
  by_cases hl : l = b
  · right
    refine ⟨.callRead th n, ?_⟩
    rw [toPipe_setPhase, toPipe, if_pos hl]
    simp only [Fs.PipeDev.Step, Fs.PipeDev.next, hidle, toPipe]
  · left
    exact toPipe_setPhase_same (hidle.trans (if_neg hl).symm)

lemma simulates_same {ph' : Phase} (hp : s.phase th = ph) (he : ph.toPipe a b = ph'.toPipe a b) :
    Simulates a b s (s.setPhase th ph') :=
  .inl (toPipe_setPhase_same ((toPipe_phase hp).trans he))

lemma simulates_wake (hp : s.phase th = .asleep j) : Simulates a b s (s.setPhase th (.ready j)) := by
  have hasleep := toPipe_phase (a := a) (b := b) hp
  cases hj : j.toPipe b with
  | none => exact simulates_same hp (by simp only [toPipe, hj, Option.elim])
  | some j' =>
    right
    refine ⟨.wake th, ?_⟩
    rw [toPipe_setPhase]
    simp only [toPipe, hj, Option.elim] at hasleep ⊢
    simp only [Fs.PipeDev.Step, Fs.PipeDev.next, hasleep]

lemma simulates_sleep (hp : s.phase th = .running j)
    (hw : ∀ l t k r i, j = .write l t k r i → (i.signExtend 64).ult r.n = true ∧ (s.sockets t).full = true)
    (hr : ∀ l n, j = .read l n → (s.sockets l).empty = true) : Simulates a b s (s.sleep th j) := by
  have hrun := toPipe_phase (a := a) (b := b) hp
  by_cases hb : j.target = b
  · right
    refine ⟨.advance th, ?_⟩
    have hsleep : (s.sleep th j).toPipe a b = ((s.toPipe a b).setPhase th ((asleep j).toPipe a b)).unlock := by
      rw [State.sleep, ← hb, toPipe_setHolder_self, toPipe_setPhase]
      rfl
    rw [hsleep]
    cases j with
    | write l t k r i =>
      obtain ⟨hi, hfull⟩ := hw l t k r i rfl
      obtain rfl : t = b := hb
      simp only [toPipe, Job.toPipe, if_true, Option.elim] at hrun ⊢
      simp only [Fs.PipeDev.Step, Fs.PipeDev.next, hrun]
      rw [Fs.PipeDev.advanceWrite, if_pos hi, if_pos (toPipe_full.mpr hfull)]
    | read l n =>
      obtain rfl : l = b := hb
      simp only [toPipe, Job.toPipe, if_true, Option.elim] at hrun ⊢
      simp only [Fs.PipeDev.Step, Fs.PipeDev.next, hrun]
      rw [Fs.PipeDev.advanceRead, if_pos (toPipe_empty.mpr (hr l n rfl))]
  · left
    have hj : j.toPipe b = none := by
      cases j <;> exact if_neg hb
    rw [State.sleep, toPipe_setHolder_ne hb]
    refine toPipe_setPhase_same (hrun.trans ?_)
    rw [toPipe, toPipe, hj]
    rfl

lemma simulates_finish (hj : a ≠ b)
    (hp : s.phase th = .running (.write l t call r i)) (hok : l = a ∧ t = b ∨ l = b ∧ t = a)
    (hi : ¬ (i.signExtend 64).ult r.n = true) : Simulates a b s ((s.returns th l call r i).setHolder t none) := by
  have hrun := toPipe_phase (a := a) (b := b) hp
  have htp : (s.returns th l call r i).toPipe a b = { (s.setPhase th .idle).toPipe a b with
      finished := update s.finished l (s.finished l ++ [⟨call, r, i⟩]) a } := rfl
  rcases hok with ⟨rfl, rfl⟩ | ⟨rfl, rfl⟩
  · right
    refine ⟨.advance th, ?_⟩
    rw [toPipe_setHolder_self, htp, update_self, toPipe_setPhase]
    simp only [toPipe, Job.toPipe, if_true, Option.elim] at hrun ⊢
    simp only [Fs.PipeDev.Step, Fs.PipeDev.next, hrun]
    rw [Fs.PipeDev.advanceWrite, if_neg hi]
    rfl
  · left
    rw [toPipe_setHolder_ne hj, htp, update_of_ne hj]
    have hsame : (s.toPipe t l).phase th = idle.toPipe t l := hrun.trans (by simp [toPipe, Job.toPipe, hj])
    rw [toPipe_setPhase_same hsame]
    rfl

lemma simulates_put (hj : a ≠ b)
    (hp : s.phase th = .running (.write l t call r i)) (hok : l = a ∧ t = b ∨ l = b ∧ t = a)
    (hi : (i.signExtend 64).ult r.n = true) (hfull : (s.sockets t).full = false) : Simulates a b s
      { (s.setPhase th (.running (.write l t call r (i + (writeLength (s.sockets t).ring r).setWidth 32)))).setSocket t
          ((s.sockets t).put r i) with
        chunks := update s.chunks l
          (s.chunks l ++ [⟨call, r, i, (s.sockets t).ring.leftSize.toNat, writeAddrs (s.sockets t).ring r i⟩]) } := by
  have hrun := toPipe_phase (a := a) (b := b) hp
  set ph := running (.write l t call r (i + (writeLength (s.sockets t).ring r).setWidth 32)) with hph
  have htp (k : Socket) (c : Chunk) : ({ (s.setPhase th ph).setSocket t k with
        chunks := update s.chunks l (s.chunks l ++ [c]) } : State T).toPipe a b =
      { (s.setPhase th ph).toPipe a b with
        pipe := (update s.sockets t k b).ring
        chunks := update s.chunks l (s.chunks l ++ [c]) a } := rfl
  rw [Simulates, htp]
  rcases hok with ⟨rfl, rfl⟩ | ⟨rfl, rfl⟩
  · right
    refine ⟨.advance th, ?_⟩
    have hnot : ¬ (s.toPipe l t).pipe.used = BitVec.ofNat 64 pipeBufSize := by
      rw [toPipe_full, hfull]
      exact Bool.false_ne_true
    rw [update_self, update_self, toPipe_setPhase, hph]
    simp only [toPipe, Job.toPipe, if_true, Option.elim] at hrun ⊢
    simp only [Fs.PipeDev.Step, Fs.PipeDev.next, hrun]
    rw [Fs.PipeDev.advanceWrite, if_pos hi, if_neg hnot]
    rfl
  · left
    have hsame : (s.toPipe t l).phase th = ph.toPipe t l :=
      hrun.trans (by simp [hph, toPipe, Job.toPipe, hj])
    rw [update_of_ne hj.symm, update_of_ne hj, toPipe_setPhase_same hsame]
    rfl

lemma simulates_get (hp : s.phase th = .running (.read l n)) (he : (s.sockets l).empty = false) : Simulates a b s
      { ((s.setPhase th .idle).setHolder l none).setSocket l ((s.sockets l).get n) with
        reads := update s.reads l (s.reads l ++ [readOut (s.sockets l).ring n]) } := by
  have hrun := toPipe_phase (a := a) (b := b) hp
  have htp (k : Socket) (o : List UInt8) : ({ ((s.setPhase th .idle).setHolder l none).setSocket l k with
        reads := update s.reads l (s.reads l ++ [o]) } : State T).toPipe a b =
      { ((s.setPhase th .idle).setHolder l none).toPipe a b with
        pipe := (update s.sockets l k b).ring
        reads := update s.reads l (s.reads l ++ [o]) b } := rfl
  rw [Simulates, htp]
  by_cases hl : l = b
  · subst hl
    right
    refine ⟨.advance th, ?_⟩
    have hnot : ¬ (s.toPipe a l).pipe.pipeReadPos = (s.toPipe a l).pipe.pipeWritePos := by
      rw [toPipe_empty, he]
      exact Bool.false_ne_true
    rw [update_self, update_self, toPipe_setHolder_self, toPipe_setPhase]
    simp only [toPipe, Job.toPipe, if_true, Option.elim] at hrun ⊢
    simp only [Fs.PipeDev.Step, Fs.PipeDev.next, hrun]
    rw [Fs.PipeDev.advanceRead, if_neg hnot]
    rfl
  · left
    have hsame : (s.toPipe a b).phase th = idle.toPipe a b :=
      hrun.trans (by simp [toPipe, Job.toPipe, hl])
    have hlb : b ≠ l := Ne.symm hl
    rw [update_of_ne hlb, update_of_ne hlb, toPipe_setHolder_ne hl, toPipe_setPhase_same hsame]
    rfl

lemma Good.simulates (h : Good a b s) (hm : Moves a b s s') : Simulates a b s s' := by
  cases hm with
  | call hp => exact simulates_call hp
  | ask hp => exact simulates_ask hp
  | enter hp => exact simulates_same hp rfl
  | begin hp hfree =>
    refine simulates_lock hp ?_ hfree
    simp only [toPipe, Job.toPipe]
    split <;> rfl
  | pass hp => exact simulates_same hp rfl
  | @found th l k call r hp hfree hk =>
    refine simulates_lock hp ?_ hfree
    have := h.joined.ne
    simp only [toPipe, Job.toPipe]
    grind
  | acquire hp hfree => exact simulates_lock hp rfl hfree
  | sleep hp hw hr => exact simulates_sleep hp hw hr
  | wake hp => exact simulates_wake hp
  | finish hp hi =>
    have hok := h.phase_ok hp
    exact simulates_finish h.joined.ne hp hok hi
  | put hp hi hfull =>
    have hok := h.phase_ok hp
    exact simulates_put h.joined.ne hp hok hi hfull
  | get hp he => exact simulates_get hp he
  | other _ hb =>
    left
    simp only [State.toPipe, State.setSocket, update_of_ne hb.symm]

end FarmOS.Net.Stream

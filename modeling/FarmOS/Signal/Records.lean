import FarmOS.Lib.Pool
import FarmOS.Lib.Run
import FarmOS.Signal.Nesting

/-! Where the `sigevents` are: what each call on a thread's signal queue moves, and threads that come and go. -/

namespace FarmOS.Signal

open Lib Function

structure Records where
  free : List ℕ
  queue : ℕ → List ℕ

variable {P : Type} [DecidableEq P] {s s' : State ℕ P} {t : ℕ} {E : Fault → Prop} {proc : ℕ → P}

def State.records (s : State ℕ P) : Records := ⟨s.freeq, fun t => (s.thread t).sigqueue⟩

def Records.drop (r : Records) (t m : ℕ) : Records := ⟨m :: r.free, update r.queue t ((r.queue t).erase m)⟩

inductive Drops (t : ℕ) : Records → Records → Prop
  | refl (r : Records) : Drops t r r
  | drop {r r' : Records} {m : ℕ} : m ∈ r.queue t → Drops t (r.drop t m) r' → Drops t r r'

lemma Drops.single {r : Records} {m : ℕ} (hm : m ∈ r.queue t) : Drops t r (r.drop t m) := .drop hm (.refl _)

omit [DecidableEq P] in
lemma records_eq (hf : s'.freeq = s.freeq) (hq : ∀ u, (s'.thread u).sigqueue = (s.thread u).sigqueue) :
    s'.records = s.records := by
  rw [State.records, State.records, hf, funext hq]

lemma records_setThread {th : Thread} (hq : th.sigqueue = (s.thread t).sigqueue) :
    (s.setThread t th).records = s.records :=
  records_eq rfl (proj_setThread Thread.sigqueue hq)

lemma records_discard (s : State ℕ P) (t se : ℕ) : (s.discard t se).records = s.records.drop t se := by
  rw [State.records, Records.drop]
  congr 1
  funext u
  obtain rfl | hu := eq_or_ne u t
  · simp [State.records]
  · simp [State.records, State.discard, hu]

lemma wp_sigSendTd_records (hE : E .panic) {signo : ℕ} :
    wp (sigSendTd t signo) (fun _ s' => ∃ m rest, s.freeq = m :: rest ∧
      s'.records = ⟨rest, update s.records.queue t (m :: s.records.queue t)⟩) E s := by
  rw [sigSendTd, wp_bind, sigeventAlloc, wp_bind, wp_get]
  cases hf : s.freeq with
  | nil => exact wp_throw.mpr hE
  | cons m rest =>
    simp only [sigeventqInsert, wp_bind, wp_modify, wp_pure]
    have hmoved {e : SigEvent} {th : Thread} (hq : th.sigqueue = m :: (s.thread t).sigqueue) :
        (State.setThread { s.setEvent m e with freeq := rest } t th).records =
          ⟨rest, update s.records.queue t (m :: s.records.queue t)⟩ := by
      rw [State.records]
      congr 1
      funext u
      obtain rfl | hu := eq_or_ne u t
      · simp [State.records, hq]
      · simp [State.records, State.setEvent, hu]
    rw [wp_ite]
    refine ⟨fun _ => ?_, fun _ => wp_pure.mpr ⟨m, rest, rfl, hmoved rfl⟩⟩
    rw [wp_modify]
    refine ⟨m, rest, rfl, (records_setThread ?_).trans (hmoved rfl)⟩
    simp

lemma Delivers.records {o : Outcome} (h : Delivers proc t s o s') : Drops t s.records s'.records := by
  induction h with
  | dead | rest => exact .refl _
  | kill =>
    rw [records_setThread]
    · exact .refl _
    · rfl
  | discard hp _ _ _ ih =>
    rw [records_discard] at ih
    exact .drop hp.mem ih
  | start _ _ hs =>
    rw [records_eq hs.freeq fun u => (hs.thread u).1]
    exact .refl _

lemma Returned.records (h : Returned t s s') : Drops t s.records s'.records := by
  obtain ⟨s1, se, ha, hm, rfl⟩ := h
  rw [records_discard, records_eq ha.freeq ha.queue]
  exact .single hm

lemma wp_sigeventFreetd_records (l : List ℕ) (hl : s.records.queue t = l) :
    wp (sigeventFreetd t l) (fun _ s' => Drops t s.records s'.records ∧ s'.records.queue t = []) E s := by
  induction l generalizing s with
  | nil => exact wp_pure.mpr ⟨.refl _, hl⟩
  | cons m l ih =>
    rw [sigeventFreetd, ← bind_assoc, wp_bind, wp_discard]
    have hd := records_discard s t m
    have hq : (s.discard t m).records.queue t = l := by simp [hd, Records.drop, hl]
    exact wp_mono (ih hq) fun _ s' h => ⟨.drop (m := m) (by simp [hl]) (hd ▸ h.1), h.2⟩

end FarmOS.Signal

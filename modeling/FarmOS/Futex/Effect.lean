import FarmOS.Futex.Client

/-! What one statement of the futex code does to the queues of futex events, by the stage its thread is in. -/

namespace FarmOS.Futex

open Proc

variable {T : Type}

def held : Loc T → List Mtx
  | .outside | .waitFill .. | .waitEnter .. => []
  | .waitTake .. | .waitTaken .. => [.feFree]
  | .waitInsert .. | .waitTest .. | .sleepAlloc .. | .sleepFill .. | .sleepEnter .. | .sleepSleep .. | .slept ..
  | .waitExit _ | .remove .. | .enterFree .. | .twEnter .. | .wakeFirst .. | .wakeScan _ | .wakeCount ..
  | .wakeExit _ =>
    [.feUsed]
  | .sleepTake .. | .sleepTaken .. => [.tsFree, .feUsed]
  | .sleepInsert .. | .sleepLeave .. | .sleptFree _ | .sleptEnter .. | .sleptLeave _ | .twScan .. | .twWakeup ..
  | .twLeave .. => [.tsUsed, .feUsed]
  | .sleptPut .. | .sleptExit _ => [.tsFree, .tsUsed, .feUsed]
  | .put .. | .exitFree .. => [.feFree, .feUsed]
  | .timerNow | .timerLoop _ | .timerWakeup .. | .timerLeave => [.tsUsed]

inductive Stage (T : Type)
  | out
  | taken (i : ℕ)
  | filled (i upa : ℕ)
  | entered (i upa : ℕ)
  | queued (i upa : ℕ)
  | slept (i upa : ℕ)
  | scanning (w : Scan T)
  | removing (i : ℕ) (k : Option (Scan T))
  | removed (i : ℕ) (k : Option (Scan T))
  | freed (i : ℕ) (k : Option (Scan T))
  | announced (i : ℕ) (k : Option (Scan T))
  | served (w : Scan T)
  | expiring

def Loc.stage : Loc T → Stage T
  | .outside | .waitTake .. | .sleptFree _ | .sleptEnter .. | .sleptPut .. | .sleptExit _ | .sleptLeave _ | .waitExit _
  | .wakeFirst .. | .timerNow | .timerLoop _ | .timerLeave => .out
  | .waitTaken i .. | .waitFill i .. => .taken i
  | .waitEnter i upa _ => .filled i upa
  | .waitInsert i upa _ => .entered i upa
  | .waitTest i upa _ | .sleepAlloc i upa _ | .sleepTake i upa _ | .sleepTaken i upa .. | .sleepFill i upa ..
  | .sleepEnter i upa _ | .sleepInsert i upa _ | .sleepLeave i upa _ | .sleepSleep i upa _ => .queued i upa
  | .slept i upa _ => .slept i upa
  | .remove i k => .removing i k
  | .enterFree i k | .put i k => .removed i k
  | .exitFree i k | .twEnter i k | .twScan i k | .twWakeup i k => .freed i k
  | .twLeave i k => .announced i k
  | .wakeCount i w => .announced i (some w)
  | .wakeScan w => .scanning w
  | .wakeExit w => .served w
  | .timerWakeup .. => .expiring

def Stage.Locked : Stage T → Prop
  | .entered .. | .queued .. | .scanning _ | .removing .. | .removed .. | .freed .. | .announced .. | .served _ => True
  | .out | .taken _ | .filled .. | .slept .. | .expiring => False

lemma mem_held_of_locked {l : Loc T} (h : l.stage.Locked) : .feUsed ∈ held l := by
  cases l <;> first | exact absurd h id | simp [held]

def permitted (l : Loc T) (g : Glob T) : Bool :=
  match l with
  | .wakeFirst _ wakecnt => 0 < wakecnt
  | .timerLoop now => g.timers.used.head?.all fun j => now < (g.timers.tse j).wakeus ∨ (g.timers.tse j).wakeus = 0
  | _ => true

def ok (_ : T) (l : Loc T) (g : Glob T) (_ : Turn) : Prop := permitted l g = true

inductive Effect (t : T) (q : Events T) : Stage T → Phase Chan → Stage T → Events T → Prop
  | keep (a : Stage T) : Effect t q a .awake a q
  | take {i : ℕ} {rest : List ℕ} : q.free = i :: rest → Effect t q .out .awake (.taken i) (q.take t i rest)
  | fill {i upa w : ℕ} : Effect t q (.taken i) .awake (.filled i upa) (q.setEvent i ⟨upa, some t, w⟩)
  | enter {i upa : ℕ} : Effect t q (.filled i upa) .awake (.entered i upa) q
  | insert {i upa : ℕ} : Effect t q (.entered i upa) .awake (.queued i upa) (q.insert i)
  | mismatch {i upa : ℕ} : Effect t q (.queued i upa) .awake (.removing i none) q
  | sleep {i upa : ℕ} : Effect t q (.queued i upa) (.asleep (.event i)) (.slept i upa) q
  | wake {i upa : ℕ} : Effect t q (.slept i upa) .awake .out q
  | remove {i : ℕ} {k : Option (Scan T)} : Effect t q (.removing i k) .awake (.removed i k) (q.remove t i)
  | put {i : ℕ} {k : Option (Scan T)} : Effect t q (.removed i k) .awake (.freed i k) (q.put i)
  | announce {i : ℕ} {k : Option (Scan T)} : Effect t q (.freed i k) (.waking (.event i)) (.announced i k) q
  | mismatched {i : ℕ} : Effect t q (.announced i none) .awake .out q
  | first {upa n : ℕ} : 0 < n → Effect t q .out .awake (.scanning ⟨upa, n, 0, q.used, q.entries⟩) q
  | hit {w : Scan T} {i : ℕ} {rest : List ℕ} : w.rest = i :: rest → (q.fe i).upaddr = w.upa →
      Effect t q (.scanning w) .awake (.removing i (some { w with rest := rest })) q
  | skip {w : Scan T} {i : ℕ} {rest : List ℕ} : w.rest = i :: rest → (q.fe i).upaddr ≠ w.upa →
      Effect t q (.scanning w) .awake (.scanning { w with rest := rest }) q
  | last {w : Scan T} : w.rest = [] → Effect t q (.scanning w) .awake (.served w) q
  | count {w : Scan T} {i : ℕ} : w.haswake + 1 ≠ w.wakecnt →
      Effect t q (.announced i (some w)) .awake (.scanning { w with haswake := w.haswake + 1 }) q
  | full {w : Scan T} {i : ℕ} : w.haswake + 1 = w.wakecnt →
      Effect t q (.announced i (some w)) .awake (.served { w with haswake := w.haswake + 1 }) q
  | exit {w : Scan T} : Effect t q (.served w) .awake .out q

variable {t : T} {l l' : Loc T} {g : Glob T} {e : Turn} {ph : Phase Chan} {d : Action T}

lemma assert_loc {b : Bool} {p : Loc T × Phase Chan} (h : (assert b d).loc = some p) : assert b d = d := by
  rw [assert] at h ⊢
  split_ifs at h ⊢
  · rfl
  · cases h

lemma act_effect (hok : ok t l g e) (hx : l.stage ≠ .expiring) (hl : (act t l g e).loc = some (l', ph)) :
    Effect t g.events l.stage ph l'.stage ((act t l g e).glob g).events := by
  cases l with
  | outside =>
    obtain ⟨errand, now, interrupt⟩ := e
    cases errand <;> cases hl <;> exact .keep _
  | waitTake upa val timeout =>
    simp only [act] at hl ⊢
    split at hl
    · cases hl
    · rename_i i rest hfree
      cases hl
      exact .take hfree
  | waitFill =>
    cases hl
    exact .fill
  | waitEnter =>
    cases hl
    exact .enter
  | waitInsert =>
    cases hl
    exact .insert
  | waitTest i upa val =>
    simp only [act] at hl ⊢
    split_ifs at hl ⊢
    · cases hl
      exact .mismatch
    · cases hl
      exact .keep _
  | sleepTake i upa wakeus =>
    simp only [act] at hl ⊢
    split at hl
    · cases hl
    · have hassert := assert_loc hl
      rw [hassert] at hl ⊢
      cases hl
      exact .keep _
  | sleepInsert | sleptPut =>
    simp only [act] at hl ⊢
    have hassert := assert_loc hl
    rw [hassert] at hl ⊢
    cases hl
    exact .keep _
  | sleepSleep =>
    cases hl
    exact .sleep
  | slept =>
    cases hl
    exact .wake
  | remove =>
    cases hl
    exact .remove
  | put =>
    cases hl
    exact .put
  | twScan i k =>
    simp only [act] at hl ⊢
    split at hl
    · cases hl
      exact .keep _
    · cases hl
  | twWakeup =>
    cases hl
    exact .announce
  | twLeave i k =>
    cases k with
    | none =>
      cases hl
      exact .mismatched
    | some w =>
      cases hl
      exact .keep _
  | wakeFirst =>
    cases hl
    exact .first (of_decide_eq_true hok)
  | wakeScan w =>
    simp only [act] at hl ⊢
    split at hl
    · rename_i hrest
      cases hl
      exact .last hrest
    · rename_i i rest hrest
      split_ifs at hl ⊢ with hupa
      · cases hl
        exact .hit hrest hupa
      · cases hl
        exact .skip hrest hupa
  | wakeCount i w =>
    simp only [act] at hl ⊢
    split_ifs at hl ⊢ with hn
    · cases hl
      exact .full hn
    · cases hl
      exact .count hn
  | wakeExit =>
    cases hl
    exact .exit
  | timerLoop now =>
    simp only [act] at hl ⊢
    split at hl
    · cases hl
      exact .keep _
    · rename_i j rest hused
      have hj : now < (g.timers.tse j).wakeus ∨ (g.timers.tse j).wakeus = 0 := by
        rw [ok, permitted, hused] at hok
        exact of_decide_eq_true hok
      rw [if_pos hj] at hl ⊢
      cases hl
      exact .keep _
  | timerWakeup => exact absurd rfl hx
  | _ =>
    cases hl
    exact .keep _

def Obeys (l : Loc T) : Action T → Prop
  | .mtxLock x l' => x ∉ held l ∧ held l' = x :: held l
  | .mtxUnlock x l' => x ∈ held l ∧ held l' = (held l).erase x
  | .sleep _ x l' => held l = [x] ∧ held l' = [x]
  | .yield l' => held l = [] ∧ held l' = []
  | .wakeup _ l' | .compute l' _ => held l' = held l
  | .fail | .rest => True
  | .wakeupTd .. | .tdFork _ | .tdDestroy => False

lemma Obeys.assert (h : Obeys l d) (b : Bool) : Obeys l (assert b d) := by
  rw [Futex.assert]
  split_ifs
  · exact h
  · trivial

lemma act_obeys (t : T) (l : Loc T) (g : Glob T) (e : Turn) : Obeys l (act t l g e) := by
  cases l with
  | outside =>
    obtain ⟨errand, now, interrupt⟩ := e
    cases errand <;> simp [act, Obeys, held]
  | waitTake | twScan =>
    rw [act]
    split <;> trivial
  | waitTest | wakeCount =>
    simp only [act]
    split_ifs <;> exact rfl
  | sleepTake =>
    rw [act]
    split
    · trivial
    · refine Obeys.assert ?_ _
      exact rfl
  | sleepInsert | sleptPut =>
    refine Obeys.assert ?_ _
    exact rfl
  | twLeave i k => cases k <;> simp [act, Obeys, held]
  | wakeScan w =>
    simp only [act]
    split
    · exact rfl
    · split_ifs <;> exact rfl
  | timerLoop now =>
    simp only [act]
    split
    · exact rfl
    · split_ifs
      · exact rfl
      · refine Obeys.assert ?_ _
        exact rfl
  | _ => simp [act, Obeys, held]

def Calls (k : Call) : Prop := k = .sleep ∨ k = .yield ∨ k = .wakeup

lemma client_only : (client : Client T Mtx Chan (Loc T) (Glob T) Turn).Only Calls := by
  intro t l g e k hk
  have ho := act_obeys t l g e
  change (act t l g e).call = _ at hk
  generalize act t l g e = d at ho hk
  cases d <;> cases hk <;> simp_all [Obeys, Calls]

lemma client_obeys (h : client.act t l g e = d) : Obeys l d := h ▸ act_obeys t l g e

lemma client_disciplined : (client : Client T Mtx Chan (Loc T) (Glob T) Turn).Disciplined held where
  entry := rfl
  mtxLock h := client_obeys h
  mtxUnlock h := client_obeys h
  sleep h := client_obeys h
  yield h := client_obeys h
  wakeup h := client_obeys h
  wakeupTd h := absurd (client_obeys h) id
  tdFork h := absurd (client_obeys h) id
  tdDestroy h := absurd (client_obeys h) id
  compute h := client_obeys h

end FarmOS.Futex

import FarmOS.Fat.Mirror
import Mathlib.Data.List.TakeWhile

/-! The names that `dirGetDentFrom` makes out of the slots of a directory: those of the long entries it has passed
since it was called, in front of one another, or else the eleven bytes of the short entry. -/

namespace FarmOS.Fat

open Lib Raw List Nat

def slot (m : ℕ → Byte) (off : ℕ) : ℕ → Byte := fun i => (slice m off direntSize).getD i 0

lemma slot_apply {m : ℕ → Byte} {off i : ℕ} (hi : i < direntSize) : slot m off i = m (off + i) := by
  rw [slot, getD_eq_getElem?_getD, getElem?_eq_getElem (by rwa [length_slice]), Option.getD_some, getElem_slice]

def Raw.IsLong (raw : ℕ → Byte) : Prop := skipped raw = false ∧ attr raw = attrLongNameMask

def Raw.IsShort (raw : ℕ → Byte) : Prop := skipped raw = false ∧ attr raw ≠ attrLongNameMask

inductive Scan
  | stop
  | overrun
  | found (off : ℕ) (fullName : List Wchar)
  deriving DecidableEq

def prepend (raw : ℕ → Byte) (fullName : List Wchar) : List Wchar := cstr (longName raw ++ fullName)

def scan (m : ℕ → Byte) : ℕ → ℕ → List Wchar → Scan
  | 0, _, _ => .stop
  | n + 1, off, fullName =>
    if skipped (slot m off) then scan m n (off + direntSize) fullName
    else if attr (slot m off) = attrLongNameMask then
      if fullName.length + 13 < maxNameLen then scan m n (off + direntSize)
        (prepend (slot m off) fullName) else .overrun
    else .found off fullName

section Code

variable {f : Super} {s : State} {v : View} {l : List ℕ} {dir k n off : ℕ} {fullName : List Wchar}
  {Q : Option (ℕ × ℕ) → State → Prop} {E : Panic → Prop}

def Scan.Leads (f : Super) (k dir : ℕ) (m : ℕ → Byte) (Q : Option (ℕ × ℕ) → State → Prop) (E : Panic → Prop)
    (s : State) :
    Scan → Prop
  | .stop => Q none s
  | .overrun => E .nameOverrun
  | .found off fullName =>
    wp (newDirent f k dir off (slot m off) fullName) (fun file s' => Q (some (file, off + direntSize)) s') E s

lemma wp_dentLoop_scan (hf : Consistent f) (h : Opened f s v dir l)
    (hn : off + n * direntSize ≤ (s.dirents dir).fileSize)
    (hQ : (scan (content f v l) n off fullName).Leads f k dir (content f v l) Q E s) :
    wp (dentLoop f k dir n off fullName) Q E s := by
  induction n generalizing off fullName with
  | zero => exact wp_pure.mpr hQ
  | succ n ih =>
    have hlt := h.owns.lt
    have hpos := hf.clusSize_pos
    have hstep : off + (n + 1) * direntSize = off + direntSize + n * direntSize := by
      rw [succ_mul]
      omega
    rw [dentLoop]
    refine wp_seq (wp_readOpened hf h (by omega)) fun bytes s' hb => ?_
    obtain ⟨rfl, hb⟩ := hb
    rw [min_eq_left (by omega)] at hb
    have hraw : (fun i => bytes.getD i 0) = slot (content f v l) off := by rw [hb]; rfl
    dsimp only
    rw [hraw]
    rw [scan] at hQ
    split_ifs at hQ ⊢ with hskip hlong hroom
    · exact ih (by omega) hQ
    · rw [wp_bind, wp_check]
      exact ⟨fun _ => ih (by omega) hQ, fun hc => absurd hroom hc⟩
    · rw [wp_bind, wp_check]
      exact ⟨fun hc => absurd hc hroom, fun _ => hQ⟩
    · rw [wp_bind]
      exact wp_mono hQ fun file s' hq => wp_pure.mpr hq

lemma wp_dirGetDentFrom_scan (hf : Consistent f) (h : Opened f s v dir l)
    (hs : (s.dirents dir).fileSize % direntSize = 0) (ho : off % direntSize = 0)
    (hQ : (scan (content f v l) (((s.dirents dir).fileSize - off) / direntSize) off []).Leads f k dir
      (content f v l) Q E s) :
    wp (dirGetDentFrom f k dir off) Q E s := by
  have hd : direntSize = 32 := rfl
  rw [dirGetDentFrom, wp_bind, wp_check]
  refine ⟨fun _ => ?_, fun hc => absurd ho hc⟩
  rw [wp_bind, wp_getDirent]
  rw [hd] at hs ho
  have hn : ((s.dirents dir).fileSize + direntSize - 1 - off) / direntSize =
    ((s.dirents dir).fileSize - off) / direntSize := by
    rw [hd]
    omega
  rw [hn]
  by_cases hle : off ≤ (s.dirents dir).fileSize
  · refine wp_dentLoop_scan hf h ?_ hQ
    rw [hd]
    omega
  · rw [Nat.sub_eq_zero_of_le (by omega), Nat.zero_div] at hQ ⊢
    exact wp_pure.mpr hQ

end Code

lemma length_longName {raw : ℕ → Byte} : (longName raw).length = 13 := by
  rw [longName, wchars, length_map, length_range]
  simp

def desk : State := { blank.state with freeList := [1, 2, 3, 4] }

lemma files_desk : Files smallSuper (· = 0) desk ⟨fun _ => 0, fun _ _ => 0⟩ fun _ => [] := by
  have hcls : cls smallSuper 0 = 0 := cls_zero consistent_smallSuper
  refine ⟨shows_blank, fun _ => owns_zero, fun _ _ => not_mem_nil, fun _ _ i hi => ?_, fun _ _ => zero_le _, nofun⟩
  change i < cls smallSuper 0 at hi
  omega

end FarmOS.Fat

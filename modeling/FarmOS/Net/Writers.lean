import FarmOS.Net.Ports

/-! The writes in progress over a table of ports: each goes on to the socket that its own is joined with, or has been
told that this one is closed. -/

namespace FarmOS.Net.Ports

variable {I P : Type*} {u : Bool} {p c : P} {rest : List (P × ℕ)}

def Faces (b : Book I P) (i j : I) : Prop := b.used j ∧ i ≠ j ∧ b.port j = b.target i ∧ b.target j = b.port i

lemma Faces.symm {b : Book I P} {i j : I} (h : Faces b i j) (hi : b.used i) : Faces b j i :=
  ⟨hi, h.2.1.symm, h.2.2.2.symm, h.2.2.1.symm⟩

namespace Kept

variable [Zero P] {b : Book I P} {purpose : P → Purpose} {fate : ℕ → Fate I} {i j k : I}

lemma joined_fate (h : Kept b purpose fate) {x y : ℕ} (hj : b.Joined x y) : fate x ≠ .single ∧ fate y ≠ .single := by
  obtain hj | hj := hj
  · rw [(h.client_iff x y).mpr hj, (h.server_iff x y).mpr hj]
    exact ⟨nofun, nofun⟩
  · rw [(h.client_iff y x).mpr hj, (h.server_iff y x).mpr hj]
    exact ⟨nofun, nofun⟩

section

variable (h : Kept b purpose fate) (hi : b.used i) (h0 : b.port i ≠ 0) (hd : b.role i ≠ .datagram)
  (hf : Faces b i j)
include h hi h0 hd hf

lemma faces_joined : b.Joined (b.born i) (b.born j) :=
  h.peer hi hf.1 h0 hd hf.2.2.1 hf.2.2.2

lemma faces_ne (hk : fate (b.born k) = .single) : i ≠ k ∧ j ≠ k := by
  obtain ⟨hi', hj'⟩ := h.joined_fate (h.faces_joined hi h0 hd hf)
  constructor
  · rintro rfl
    exact hi' hk
  · rintro rfl
    exact hj' hk

lemma faces_back (hk : Faces b j k) : i = k := by
  have hj := h.faces_joined hi h0 hd hf
  have hj0 : b.port j ≠ 0 := by
    rw [hf.2.2.1]
    exact h.target_ne_zero hf.1 h0 hf.2.2.1 hf.2.2.2
  have hdj : b.role j ≠ .datagram := fun hr => (h.joined_fate hj).2 (h.datagram j hf.1 hr)
  exact h.born_inj i k hi hk.1 (h.joined_inj hj.symm (h.faces_joined hf.1 hj0 hdj hk))

end

end Kept

structure Manned [Zero P] (b : Book I P) : Prop where
  listener : ∀ i, b.used i → b.role i = .listener → b.listening i
  listening : ∀ i, b.used i → b.listening i → b.role i = .listener ∨ b.udp i
  datagram : ∀ i, b.used i → b.role i = .datagram → b.udp i
  writer : ∀ k w, b.writers k = some w → b.used w.source ∧ b.born w.source = w.socket ∧ b.udp w.source = false ∧
    b.port w.source ≠ 0 ∧ (b.closed w.source ∨ Faces b w.source w.sink)
  appended : ∀ x y, (x, y) ∈ b.appended → b.Joined x y

namespace Manned

variable [Zero P] {b : Book I P} {purpose : P → Purpose} {fate : ℕ → Fate I} {i j : I} {w : Writer I}

lemma empty : Manned (.empty : Book I P) := by
  constructor <;> simp [Book.empty]

lemma stream (h : Manned b) (hi : b.used i) (hu : b.udp i = false) : b.role i ≠ .datagram := by
  intro hr
  simp [h.datagram i hi hr] at hu

lemma writer_ne (h : Manned b) (hk : Kept b purpose fate) (hi : fate (b.born i) = .single) {k : ℕ}
    (hw : b.writers k = some w) :
    b.closed w.source ∨ (Faces b w.source w.sink ∧ w.source ≠ i ∧ w.sink ≠ i) := by
  obtain ⟨hu, -, hs, h0, hc | hf⟩ := h.writer k w hw
  · exact .inl hc
  · exact .inr ⟨hf, hk.faces_ne hu h0 (h.stream hu hs) hf hi⟩

lemma write (h : Manned b) {k : ℕ} (hi : b.used i) (hu : b.udp i = false) (h0 : b.port i ≠ 0) (hf : Faces b i j) :
    Manned (b.write k i j) := by
  cases h
  constructor <;> simp only [Book.write, Book.Joined, Faces] at * <;> grind

lemma append (h : Manned b) (hk : Kept b purpose fate) {k : ℕ} (hw : b.writers k = some w)
    (hc : b.closed w.source = false) : Manned (b.append w) := by
  obtain ⟨hu, hb, hs, h0, hf⟩ := h.writer k w hw
  have hj := hk.faces_joined hu h0 (h.stream hu hs) (hf.resolve_left (by simp [hc]))
  refine { h with appended := ?_ }
  intro x y hxy
  obtain hxy | hxy := List.mem_append.mp hxy
  · exact h.appended x y hxy
  · cases List.mem_singleton.mp hxy
    exact hb ▸ hj

lemma stop (h : Manned b) {k : ℕ} : Manned (b.stop k) := by
  cases h
  constructor <;> simp only [Book.stop, Book.Joined, Faces] at * <;> grind

variable [DecidableEq I]

section

variable (h : Manned b)
include h

lemma create (hi : b.used i = false) : Manned (b.create i u) := by
  cases h
  constructor <;> simp only [Book.create, Book.Joined, Faces] at * <;> grind

lemma name (hk : Kept b purpose fate) (hi : fate (b.born i) = .single) (hp : p ≠ 0) : Manned (b.name i p) := by
  have hw := fun k w => h.writer_ne hk hi (k := k) (w := w)
  cases h
  constructor <;> simp only [Book.name, Book.Joined, Faces] at * <;> grind

lemma listen (hu : b.role i = .plain ∨ b.role i = .listener ∨ b.udp i) : Manned (b.listen i) := by
  cases h
  constructor <;> simp only [Book.listen, Book.Joined, Faces] at * <;> grind

lemma aim (hk : Kept b purpose fate) (hi : fate (b.born i) = .single) (hu : b.udp i) : Manned (b.aim i p) := by
  have hw := fun k w => h.writer_ne hk hi (k := k) (w := w)
  cases h
  constructor <;> simp only [Book.aim, Book.Joined, Faces] at * <;> grind

lemma connect (hk : Kept b purpose fate) (hi : fate (b.born i) = .single) (hl : b.listening i = false) :
    Manned (b.connect i j) := by
  have hw := fun k w => h.writer_ne hk hi (k := k) (w := w)
  cases h
  constructor <;> simp only [Book.connect, Book.Joined, Faces] at * <;> grind

lemma accept {n : I} {w : ℕ} (hn : b.used n = false) : Manned (b.accept i n c w rest) := by
  cases h
  constructor <;> simp only [Book.accept, Book.Joined, Faces] at * <;> grind

lemma tell : Manned (b.tell j) := by
  cases h
  constructor <;> simp only [Book.tell, Book.Joined, Faces] at * <;> grind

lemma close (hs : ∀ k w, b.writers k = some w → w.source ≠ i)
    (ht : ∀ k w, b.writers k = some w → w.sink = i → b.closed w.source) : Manned (b.close i) := by
  cases h
  constructor <;> simp only [Book.close, Book.Joined, Faces] at * <;> grind

end

end Manned

structure Below (b : Book I P) (rank : P → ℕ) (n : ℕ) : Prop where
  port : ∀ i, b.used i → rank (b.port i) < n
  target : ∀ i, b.used i → b.role i ≠ .datagram → rank (b.target i) < n
  pending : ∀ i c w, (c, w) ∈ b.pending i → rank c < n

namespace Below

variable {b : Book I P} {rank : P → ℕ} {n m : ℕ} {i j : I}

lemma empty [Zero P] : Below (.empty : Book I P) rank n := by
  constructor <;> simp [Book.empty]

lemma idle (h : Below b rank n) (hp : n ≤ rank p) : Idle b p := by
  refine ⟨fun i hi he => ?_, fun i hi hd he => ?_, fun i c w hc he => ?_⟩
  · have := h.port i hi
    rw [he] at this
    omega
  · have := h.target i hi hd
    rw [he] at this
    omega
  · have := h.pending i c w hc
    rw [he] at this
    omega

lemma mono (h : Below b rank n) (hn : n ≤ m) : Below b rank m :=
  ⟨fun i hi => Nat.lt_of_lt_of_le (h.port i hi) hn, fun i hi hd => Nat.lt_of_lt_of_le (h.target i hi hd) hn,
    fun i c w hc => Nat.lt_of_lt_of_le (h.pending i c w hc) hn⟩

variable [DecidableEq I]

section

variable (h : Below b rank n)
include h

lemma create [Zero P] (h0 : rank 0 < n) : Below (b.create i u) rank n := by
  cases h
  constructor <;> simp only [Book.create] <;> grind

lemma name (hp : rank p < n) : Below (b.name i p) rank n := by
  cases h
  constructor <;> simp only [Book.name] <;> grind

lemma listen : Below (b.listen i) rank n := by
  cases h
  constructor <;> simp only [Book.listen] <;> grind

lemma aim : Below (b.aim i p) rank n := by
  cases h
  constructor <;> simp only [Book.aim] <;> grind

lemma connect (hi : b.used i) (hj : b.used j) : Below (b.connect i j) rank n := by
  cases h
  constructor <;> simp only [Book.connect] <;> grind

lemma accept {k : I} {w : ℕ} (hi : b.used i)
    (hp : b.pending i = (c, w) :: rest) : Below (b.accept i k c w rest) rank n := by
  have hc := h.pending i c w (hp ▸ List.mem_cons_self)
  cases h
  constructor <;> simp only [Book.accept] <;> grind

lemma close [Zero P] : Below (b.close i) rank n := by
  cases h
  constructor <;> simp only [Book.close] <;> grind

end

end Below

end FarmOS.Net.Ports

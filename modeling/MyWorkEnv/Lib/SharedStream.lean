import MyWorkEnv.Lib.Transfer
import MyWorkEnv.Lib.Transition

/-!
# Writers that share one stream

Several `Transfer` programs write to the same stream, one call of one of them
at a time, in any order. `Alone` is the condition that a program makes a call
only when every other program has put none or all of its bytes on the stream.
Runs that keep to it are serial: the stream is the concatenation of whole
programs, and of the part that at most one more has written (`Serial.next`,
`serial_of_reach`).
-/

namespace Transfer

open Transition

variable {ι β R : Type} {retry : ℕ → Bool} {progs : ι → WriteLoops β R}

structure Shared (ι β R : Type) where
  todo : ι → WriteLoops β R
  stream : List β

/-- One call: whose it is, and what the kernel answers. -/
structure SharedCall (ι : Type) where
  writer : ι
  answer : WriteAnswer
deriving DecidableEq

/-- The programs at work on one stream, with benign answers. A program has
returned when it has nothing left to send. -/
def sharedStream [DecidableEq ι] (retry : ℕ → Bool) (progs : ι → WriteLoops β R) :
    System (Shared ι β R) (SharedCall ι) where
  init s := s = ⟨progs, []⟩
  enabled s c := (s.todo c.writer).bytes ≠ [] ∧ WriteLoops.BenignAnswer retry c.answer
  next s c :=
    let moved := (s.todo c.writer).settle.step retry c.answer
    ⟨Function.update s.todo c.writer moved.1, s.stream ++ moved.2⟩

instance sharedStream.decidable [DecidableEq ι] [DecidableEq β] (s : Shared ι β R)
    (c : SharedCall ι) : Decidable ((sharedStream retry progs).enabled s c) :=
  inferInstanceAs (Decidable (_ ∧ _))

def Untouched (progs : ι → WriteLoops β R) (s : Shared ι β R) (i : ι) : Prop :=
  (s.todo i).bytes = (progs i).bytes

def Finished (s : Shared ι β R) (i : ι) : Prop := (s.todo i).bytes = []

/-- Every other program has put none or all of its bytes on the stream. -/
def Alone (progs : ι → WriteLoops β R) (s : Shared ι β R) (c : SharedCall ι) : Prop :=
  ∀ j, j ≠ c.writer → Untouched progs s j ∨ Finished s j

instance Untouched.decidable [DecidableEq β] (s : Shared ι β R) (i : ι) :
    Decidable (Untouched progs s i) :=
  inferInstanceAs (Decidable (_ = _))

instance Finished.decidable [DecidableEq β] (s : Shared ι β R) (i : ι) :
    Decidable (Finished s i) :=
  inferInstanceAs (Decidable (_ = _))

instance Alone.decidable [Fintype ι] [DecidableEq ι] [DecidableEq β] (s : Shared ι β R)
    (c : SharedCall ι) : Decidable (Alone progs s c) :=
  inferInstanceAs (Decidable (∀ _, _ → _ ∨ _))

/-- What whole programs put on the stream, one after the other. -/
def wholly (progs : ι → WriteLoops β R) (order : List ι) : List β :=
  (order.map fun i => (progs i).bytes).flatten

theorem wholly_append (progs : ι → WriteLoops β R) (order : List ι) (i : ι) :
    wholly progs (order ++ [i]) = wholly progs order ++ (progs i).bytes := by
  simp [wholly]

/-- `order` are the programs that are through, in the order they went; of the
others all but `cur` have not begun. -/
structure Serial (progs : ι → WriteLoops β R) (s : Shared ι β R) (order : List ι)
    (cur : Option ι) : Prop where
  nodup : order.Nodup
  finished : ∀ i ∈ order, Finished s i
  fresh : ∀ i, i ∉ order → some i ≠ cur → Untouched progs s i
  cur_fresh : ∀ c, cur = some c → c ∉ order
  stream : match cur with
    | none => s.stream = wholly progs order
    | some c => s.stream ++ (s.todo c).bytes = wholly progs order ++ (progs c).bytes

theorem Serial.start (progs : ι → WriteLoops β R) : Serial progs ⟨progs, []⟩ [] none where
  nodup := List.nodup_nil
  finished i hi := absurd hi List.not_mem_nil
  fresh i _ _ := rfl
  cur_fresh c hc := by simp at hc
  stream := rfl

/-- The program in progress is through, or has not begun after all. -/
theorem Serial.retire {s : Shared ι β R} {order : List ι} {c : ι}
    (h : Serial progs s order (some c)) (hc : Untouched progs s c ∨ Finished s c) :
    ∃ order', Serial progs s order' none := by
  have hstream := h.stream
  simp only at hstream
  rcases hc with hc | hc
  · refine ⟨order, h.nodup, h.finished, ?_, by simp, ?_⟩
    · intro i hi _
      by_cases hic : i = c
      · rw [hic]
        exact hc
      · exact h.fresh i hi (by simpa using hic)
    · rw [hc] at hstream
      exact List.append_cancel_right hstream
  · refine ⟨order ++ [c], ?_, ?_, ?_, by simp, ?_⟩
    · rw [List.nodup_append]
      refine ⟨h.nodup, List.nodup_singleton c, ?_⟩
      intro i hi j hj hij
      rw [List.mem_singleton] at hj
      rw [hij, hj] at hi
      exact h.cur_fresh c rfl hi
    · intro i hi
      rcases List.mem_append.mp hi with hi | hi
      · exact h.finished i hi
      · rw [List.mem_singleton.mp hi]
        exact hc
    · intro i hi _
      rw [List.mem_append, List.mem_singleton, not_or] at hi
      exact h.fresh i hi.1 (by simpa using hi.2)
    · rw [hc, List.append_nil] at hstream
      rw [hstream, wholly_append]

variable [DecidableEq ι]

/-- A call of a program that is in progress, or of one that now begins. -/
theorem Serial.call {s : Shared ι β R} {order : List ι} {cur : Option ι} {c : SharedCall ι}
    (h : Serial progs s order cur) (ha : (sharedStream retry progs).enabled s c)
    (hcur : cur = none ∨ cur = some c.writer) :
    Serial progs ((sharedStream retry progs).next s c) order (some c.writer) := by
  obtain ⟨hpending, hbenign⟩ := ha
  have hnot : c.writer ∉ order := fun hi => hpending (h.finished _ hi)
  obtain ⟨hbytes, -⟩ := WriteLoops.step_benign hbenign (s.todo c.writer).settle
  rw [WriteLoops.bytes_settle] at hbytes
  have hbefore : s.stream ++ (s.todo c.writer).bytes =
      wholly progs order ++ (progs c.writer).bytes := by
    have hstream := h.stream
    rcases hcur with rfl | rfl
    · have hfresh : (s.todo c.writer).bytes = (progs c.writer).bytes :=
        h.fresh c.writer hnot (by simp)
      rw [hstream, hfresh]
    · exact hstream
  refine ⟨h.nodup, ?_, ?_, ?_, ?_⟩
  · intro i hi
    have hne : i ≠ c.writer := fun hic => hnot (hic ▸ hi)
    simpa [sharedStream, Finished, Function.update_of_ne hne] using h.finished i hi
  · intro i hi hic
    have hne : i ≠ c.writer := by simpa using hic
    have hold : Untouched progs s i := by
      apply h.fresh i hi
      rcases hcur with rfl | rfl
      · simp
      · exact hic
    simpa [sharedStream, Untouched, Function.update_of_ne hne] using hold
  · intro i hi
    rw [← Option.some.inj hi]
    exact hnot
  · simp only [sharedStream, Function.update_self]
    rw [List.append_assoc, hbytes, hbefore]

/-- **One step** of a run that keeps to `Alone`. -/
theorem Serial.next {s : Shared ι β R} {order : List ι} {cur : Option ι} {c : SharedCall ι}
    (h : Serial progs s order cur) (ha : (sharedStream retry progs).enabled s c)
    (hp : Alone progs s c) :
    ∃ order' cur', Serial progs ((sharedStream retry progs).next s c) order' cur' := by
  cases cur with
  | none => exact ⟨order, _, h.call ha (Or.inl rfl)⟩
  | some i =>
      by_cases hi : i = c.writer
      · exact ⟨order, _, h.call ha (Or.inr (congrArg some hi))⟩
      · obtain ⟨order', h'⟩ := h.retire (hp i hi)
        exact ⟨order', _, h'.call ha (Or.inl rfl)⟩

theorem serial_of_reach {s : Shared ι β R}
    (h : Reach (sharedStream retry progs) (Alone progs) s) :
    ∃ order cur, Serial progs s order cur := by
  refine h.invariant (I := fun s => ∃ order cur, Serial progs s order cur) ?_ ?_
  · rintro s rfl
    exact ⟨[], none, Serial.start progs⟩
  · rintro s c ⟨order, cur, hserial⟩ ha hp
    exact hserial.next ha hp

/-- **All through.** The stream is the programs' bytes in some order. -/
theorem stream_of_reach {s : Shared ι β R}
    (h : Reach (sharedStream retry progs) (Alone progs) s) (hdone : ∀ i, Finished s i)
    (hne : ∀ i, (progs i).bytes ≠ []) :
    ∃ order, order.Nodup ∧ (∀ i, i ∈ order) ∧ s.stream = wholly progs order := by
  have hall : ∀ order, Serial progs s order none →
      ∃ order, order.Nodup ∧ (∀ i, i ∈ order) ∧ s.stream = wholly progs order := by
    intro order hserial
    refine ⟨order, hserial.nodup, fun i => ?_, hserial.stream⟩
    by_contra hi
    exact hne i ((hserial.fresh i hi (by simp)).symm.trans (hdone i))
  obtain ⟨order, cur, hserial⟩ := serial_of_reach h
  cases cur with
  | none => exact hall order hserial
  | some c =>
      obtain ⟨order', h'⟩ := hserial.retire (Or.inr (hdone c))
      exact hall order' h'

end Transfer

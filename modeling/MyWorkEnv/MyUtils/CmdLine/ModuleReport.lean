import MyWorkEnv.Lib.ByteMemory
import MyWorkEnv.Lib.Snprintf

/-!
# The report of all modules

The `showModuleStat` branch of `_CmdServerHandleMsg` has the collectors of
`sg_ModuleReprt` append their texts to `retString`, and puts a newline behind
each, over its NUL. A collector sees to it that its text fits with the NUL, but
nobody does for what follows: the bytes behind the report are those that
`retString` began with, which are zero, and when the last newline is on the last
byte there are none.
-/

namespace MyWorkEnv

open ByteMemory CString Snprintf

/-- `sizeof(retString)` -/
def sizeofRetString : ℕ := 1024 * 1024

/-- What an entry of `sg_ModuleReprt` does when the loop comes to it: it has no `Cb`, it
appends a text and returns 0, or it returns `ret`, and leaves in the buffer what it
likes. -/
inductive ModuleReprt where
  | absent
  | text (t : List UInt8)
  | fails (ret : ℤ) (left : Memory)

/-- `retString`, with what is behind it in memory, and where it was written. -/
structure RetString where
  mem : Memory
  writes : List Span

namespace RetString

/-- As it is initialised. -/
def start (behind : Memory) : RetString :=
  ⟨fun i => if i < sizeofRetString then 0 else behind i, []⟩

def put (s : RetString) (pos : ℕ) (bs : List UInt8) : RetString :=
  ⟨writeBytes s.mem pos bs, s.writes ++ [⟨pos, bs.length⟩]⟩

/-- Any bytes in the buffer. -/
def fill (s : RetString) (left : Memory) : RetString :=
  ⟨fun i => if i < sizeofRetString then left i else s.mem i, s.writes ++ [⟨0, sizeofRetString⟩]⟩

end RetString

/-- The loop over `sg_ModuleReprt`, and `ret` after it. -/
def moduleReprtLoop : List ModuleReprt → ℕ → RetString → ℤ × RetString
  | [], _, s => (0, s)
  | .absent :: table, offset, s => moduleReprtLoop table offset s
  | .text t :: table, offset, s =>
      -- the collector, and then `retString[offset ++] = '\n'`
      moduleReprtLoop table (offset + t.length + 1)
        ((s.put offset (t ++ [0])).put (offset + t.length) [newline])
  | .fails ret left :: _, _, s => (ret, s.fill left)

/-- The branch, up to the `strlen` behind it. -/
def showModuleStat (table : List ModuleReprt) (behind : Memory) : RetString :=
  let r := moduleReprtLoop table 1 ((RetString.start behind).put 0 [newline])
  if r.1 ≠ 0 then
    (r.2.fill fun _ => 0).put 0 (str "Get module stats failed!" ++ [0])
  else r.2

/-! ## Collectors that keep to the buffer -/

/-- From `offset` on: a text stays below the end, with its NUL, and a failure is one. What comes
after a failure is not called. -/
def Collects : ℕ → List ModuleReprt → Prop
  | _, [] => True
  | offset, .absent :: table => Collects offset table
  | offset, .text t :: table =>
      0 ∉ t ∧ offset + t.length < sizeofRetString ∧ Collects (offset + t.length + 1) table
  | _, .fails ret _ :: _ => ret ≠ 0

def ModuleReprt.isFailure : ModuleReprt → Bool
  | .fails _ _ => true
  | _ => false

/-- The bytes of a text and its newline. -/
def ModuleReprt.len : ModuleReprt → ℕ
  | .text t => t.length + 1
  | _ => 0

/-- With the newline in front. -/
def reportLen (table : List ModuleReprt) : ℕ := 1 + (table.map ModuleReprt.len).sum

/-- No collector fails, and their texts with all newlines are just as long as the buffer. -/
def FillsRetString (table : List ModuleReprt) : Prop :=
  table.any ModuleReprt.isFailure = false ∧ reportLen table = sizeofRetString

/-! ## The loop -/

/-- All writes were in the buffer. -/
def RetString.InBuffer (s : RetString) : Prop := ∀ w ∈ s.writes, w.Within 0 sizeofRetString

/-- There is text up to `offset`, and nothing behind it. -/
structure Composed (offset : ℕ) (s : RetString) : Prop where
  inBuffer : s.InBuffer
  text : 0 ∉ readBytes s.mem 0 offset
  le : offset ≤ sizeofRetString
  zero : ∀ i, offset ≤ i → i < sizeofRetString → s.mem i = 0

variable {s : RetString} {offset : ℕ} {t : List UInt8} {table : List ModuleReprt}

theorem RetString.InBuffer.put (h : s.InBuffer) {pos : ℕ} {bs : List UInt8}
    (hfits : pos + bs.length ≤ sizeofRetString) : (s.put pos bs).InBuffer := by
  intro w hw
  rcases List.mem_append.mp hw with hw | hw
  · exact h w hw
  · obtain rfl := List.mem_singleton.mp hw
    exact ⟨Nat.zero_le _, by rwa [Nat.zero_add]⟩

theorem RetString.InBuffer.fill (h : s.InBuffer) (left : Memory) : (s.fill left).InBuffer := by
  intro w hw
  rcases List.mem_append.mp hw with hw | hw
  · exact h w hw
  · obtain rfl := List.mem_singleton.mp hw
    exact ⟨le_rfl, le_rfl⟩

/-- The newline takes the place of the NUL. -/
theorem write_over_nul (m : Memory) (offset : ℕ) (t : List UInt8) :
    writeBytes (writeBytes m offset (t ++ [0])) (offset + t.length) [newline] =
      writeBytes m offset (t ++ [newline]) := by
  rw [writeBytes_append, writeBytes_append]
  simp only [writeBytes, Function.update_idem]

theorem newline_put_text (hnul : 0 ∉ t) : (0 : UInt8) ∉ t ++ [newline] := by
  rw [List.mem_append, not_or]
  exact ⟨hnul, by decide⟩

/-- One collector that returns 0. -/
theorem Composed.text_newline (h : Composed offset s) (hnul : 0 ∉ t)
    (hfits : offset + t.length < sizeofRetString) :
    Composed (offset + t.length + 1)
      ((s.put offset (t ++ [0])).put (offset + t.length) [newline]) := by
  have hmem : ((s.put offset (t ++ [0])).put (offset + t.length) [newline]).mem =
      writeBytes s.mem offset (t ++ [newline]) := write_over_nul s.mem offset t
  have hlength : (t ++ [newline]).length = t.length + 1 := List.length_append
  refine ⟨(h.inBuffer.put ?_).put hfits, ?_, hfits, ?_⟩
  · rwa [List.length_append]
  · have happend := @readBytes_write_append s.mem 0 offset (t ++ [newline])
    rw [Nat.zero_add, hlength] at happend
    rw [hmem, Nat.add_assoc, happend, List.mem_append, not_or]
    exact ⟨h.text, newline_put_text hnul⟩
  · intro i hlow hhigh
    rw [hmem, writeBytes_of_outside (Or.inr (by rwa [hlength]))]
    exact h.zero i (by omega) hhigh

/-- The loop composes the texts, unless a collector fails. -/
theorem moduleReprtLoop_spec (h : Composed offset s) (hc : Collects offset table) :
    if table.any ModuleReprt.isFailure then
      (moduleReprtLoop table offset s).1 ≠ 0 ∧ (moduleReprtLoop table offset s).2.InBuffer
    else
      (moduleReprtLoop table offset s).1 = 0 ∧
        Composed (offset + (table.map ModuleReprt.len).sum) (moduleReprtLoop table offset s).2 := by
  induction table generalizing offset s with
  | nil => exact ⟨rfl, h⟩
  | cons entry table ih =>
      cases entry with
      | absent =>
          have hrest := ih h hc
          simpa [moduleReprtLoop, ModuleReprt.isFailure, ModuleReprt.len] using hrest
      | text t =>
          obtain ⟨hnul, hfits, hc⟩ := hc
          have hrest := ih (h.text_newline hnul hfits) hc
          simpa [moduleReprtLoop, ModuleReprt.isFailure, ModuleReprt.len, Nat.add_assoc] using hrest
      | fails ret left => exact ⟨hc, h.inBuffer.fill left⟩

theorem Composed.start (behind : Memory) :
    Composed 1 ((RetString.start behind).put 0 [newline]) := by
  have hone : 1 ≤ sizeofRetString := by decide
  have hnone : (RetString.start behind).InBuffer := fun w hw => by cases hw
  refine ⟨hnone.put hone, ?_, hone, ?_⟩
  · simp [RetString.put, readBytes, writeBytes, newline]
  · intro i hlow hhigh
    have hfirst : (RetString.start behind).mem i = 0 := if_pos hhigh
    exact (writeBytes_of_outside (Or.inr hlow)).trans hfirst

/-! ## What is left in the buffer -/

/-- A text that does not reach the end is followed by a NUL. -/
theorem Composed.terminated_iff (h : Composed offset s) :
    Terminated s.mem 0 sizeofRetString ↔ offset ≠ sizeofRetString := by
  constructor
  · rintro hmem rfl
    exact h.text hmem
  · intro hne
    have hlt : offset < sizeofRetString := lt_of_le_of_ne h.le hne
    exact mem_readBytes.mpr ⟨offset, Nat.zero_le _, by omega, h.zero offset le_rfl hlt⟩

theorem failed_terminated (m : Memory) :
    Terminated (writeBytes m 0 (str "Get module stats failed!" ++ [0])) 0 sizeofRetString := by
  have hlength : (str "Get module stats failed!" ++ [0]).length ≤ sizeofRetString := by decide
  have hread : (0 : UInt8) ∈
      readBytes (writeBytes m 0 (str "Get module stats failed!" ++ [0])) 0
        (str "Get module stats failed!" ++ [0]).length := by
    rw [readBytes_write]
    exact List.mem_append_right _ (List.mem_singleton_self 0)
  obtain ⟨i, hlow, hhigh, hi⟩ := mem_readBytes.mp hread
  exact mem_readBytes.mpr ⟨i, hlow, by omega, hi⟩

theorem showModuleStat_inBuffer (behind : Memory) (hc : Collects 1 table) :
    (showModuleStat table behind).InBuffer := by
  have hloop := moduleReprtLoop_spec (Composed.start behind) hc
  unfold showModuleStat
  split_ifs at hloop with hfails
  · have hmessage : 0 + (str "Get module stats failed!" ++ [0]).length ≤ sizeofRetString := by
      decide
    rw [if_pos hloop.1]
    exact (hloop.2.fill _).put hmessage
  · rw [if_neg (not_not_intro hloop.1)]
    exact hloop.2.inBuffer

theorem showModuleStat_terminated_iff (behind : Memory) (hc : Collects 1 table) :
    Terminated (showModuleStat table behind).mem 0 sizeofRetString ↔ ¬ FillsRetString table := by
  have hloop := moduleReprtLoop_spec (Composed.start behind) hc
  unfold showModuleStat FillsRetString
  split_ifs at hloop with hfails
  · rw [if_pos hloop.1]
    exact iff_of_true (failed_terminated _) fun hfull => by simp [hfails] at hfull
  · rw [if_neg (not_not_intro hloop.1), hloop.2.terminated_iff]
    exact not_congr (iff_and_self.mpr fun _ => Bool.eq_false_iff.mpr hfails)

/-- **The report is written in its buffer, and ends there if and only if it is not as long as
the buffer.** -/
theorem showModuleStat_safe_iff (table : List ModuleReprt) (behind : Memory)
    (hc : Collects 1 table) :
    ((∀ w ∈ (showModuleStat table behind).writes, w.Within 0 sizeofRetString) ∧
        Terminated (showModuleStat table behind).mem 0 sizeofRetString) ↔
      ¬ FillsRetString table := by
  rw [showModuleStat_terminated_iff behind hc]
  exact and_iff_right (showModuleStat_inBuffer behind hc)

/-- Two short texts, and a module without a collector between them. -/
theorem showModuleStat_safe_iff_short :
    Terminated (showModuleStat [.text [97], .absent, .text [98, 99]] fun _ => 1).mem 0
      sizeofRetString := by
  refine ((showModuleStat_safe_iff [.text [97], .absent, .text [98, 99]] (fun _ => 1) ?_).mpr ?_).2
  · exact ⟨by decide, by decide, by decide, by decide, trivial⟩
  · exact fun hfull => absurd hfull.2 (by decide)

/-- The longest text that a collector may append behind the first newline. -/
def longestText : List UInt8 := List.replicate (sizeofRetString - 2) 97

theorem length_longestText : longestText.length + 2 = sizeofRetString := by
  have htwo : 2 ≤ sizeofRetString := by decide
  rw [longestText, List.length_replicate]
  exact Nat.sub_add_cancel htwo

/-- It leaves no NUL. -/
theorem showModuleStat_unterminated : Collects 1 [.text longestText] ∧
    ¬ Terminated (showModuleStat [.text longestText] fun _ => 1).mem 0 sizeofRetString := by
  have hlength := length_longestText
  have hnul : 0 ∉ longestText := fun hmem => absurd (List.eq_of_mem_replicate hmem) (by decide)
  have hc : Collects 1 [.text longestText] := ⟨hnul, by omega, trivial⟩
  refine ⟨hc, ?_⟩
  rw [showModuleStat_terminated_iff _ hc, not_not]
  refine ⟨rfl, ?_⟩
  rw [reportLen, List.map_singleton, List.sum_singleton, ModuleReprt.len]
  omega

end MyWorkEnv

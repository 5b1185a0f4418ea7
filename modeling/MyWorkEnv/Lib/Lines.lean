import MyWorkEnv.Lib.CString

/-!
# Lines of a text, and what `fgets` makes of them

A line is a text up to its first newline and with it; only the last one may be
without. `fgetsAll` are the pieces that a loop over `fgets` gets of a text. Each
ends where a line ends, or where the buffer does, so the pieces of a text are
those of its lines, one line after the other.
-/

namespace CString

/-! ## Lines -/

/-- Each with its newline. -/
def splitLines : List UInt8 → List (List UInt8)
  | [] => []
  | c :: rest =>
      if c = newline then [c] :: splitLines rest
      else
        match splitLines rest with
        | [] => [[c]]
        | line :: lines => (c :: line) :: lines

/-- Every line has its newline at its end, except that the last one may have none. -/
inductive LineList : List (List UInt8) → Prop where
  | nil : LineList []
  | last {line : List UInt8} (hne : line ≠ []) (hline : newline ∉ line) : LineList [line]
  | cons {line : List UInt8} {lines : List (List UInt8)} (hline : newline ∉ line)
      (hlines : LineList lines) : LineList ((line ++ [newline]) :: lines)

variable {text line : List UInt8} {lines : List (List UInt8)} {size : ℕ}

theorem flatten_splitLines (text : List UInt8) : (splitLines text).flatten = text := by
  induction text with
  | nil => rfl
  | cons c rest ih =>
      rw [splitLines]
      split_ifs with hc
      · rw [List.flatten_cons, ih, List.singleton_append]
      · cases hrest : splitLines rest with
        | nil =>
            rw [hrest, List.flatten_nil] at ih
            rw [← ih]
            rfl
        | cons line lines =>
            rw [hrest, List.flatten_cons] at ih
            rw [List.flatten_cons, List.cons_append, ih]

theorem lineList_splitLines (text : List UInt8) : LineList (splitLines text) := by
  induction text with
  | nil => exact .nil
  | cons c rest ih =>
      rw [splitLines]
      split_ifs with hc
      · rw [hc]
        exact .cons List.not_mem_nil ih
      · have hne : newline ≠ c := Ne.symm hc
        cases hrest : splitLines rest with
        | nil => exact .last (List.cons_ne_nil _ _) (by simpa using hne)
        | cons line lines =>
            rw [hrest] at ih
            cases ih with
            | last hnil hline => exact .last (List.cons_ne_nil _ _) (by simp [hne, hline])
            | @cons line lines hline hlines =>
                have hcons : newline ∉ c :: line := by simp [hne, hline]
                exact .cons hcons hlines

/-- Lines may be left out. -/
theorem LineList.filter (h : LineList lines) (p : List UInt8 → Bool) :
    LineList (lines.filter p) := by
  induction h with
  | nil => exact .nil
  | @last line hne hline =>
      rw [List.filter_singleton]
      cases p line with
      | true => exact .last hne hline
      | false => exact .nil
  | @cons line lines hline hlines ih =>
      rw [List.filter_cons]
      split_ifs
      · exact .cons hline ih
      · exact ih

theorem LineList.ne_nil (h : LineList lines) (hmem : line ∈ lines) : line ≠ [] := by
  induction h with
  | nil => cases hmem
  | last hne hline =>
      obtain rfl := List.mem_singleton.mp hmem
      exact hne
  | @cons first lines hline hlines ih =>
      rcases List.mem_cons.mp hmem with rfl | hmem
      · simp
      · exact ih hmem

/-- One line. -/
def IsLine (line : List UInt8) : Prop := LineList [line]

theorem LineList.isLine (h : LineList lines) (hmem : line ∈ lines) : IsLine line := by
  induction h with
  | nil => cases hmem
  | last hne hline =>
      obtain rfl := List.mem_singleton.mp hmem
      exact .last hne hline
  | @cons first lines hline hlines ih =>
      rcases List.mem_cons.mp hmem with rfl | hmem
      · exact .cons hline .nil
      · exact ih hmem

theorem splitLines_line (hline : newline ∉ line) (rest : List UInt8) :
    splitLines (line ++ newline :: rest) = (line ++ [newline]) :: splitLines rest := by
  induction line with
  | nil => rw [List.nil_append, splitLines, if_pos rfl, List.nil_append]
  | cons c line ih =>
      rw [List.mem_cons, not_or] at hline
      rw [List.cons_append, splitLines, if_neg (Ne.symm hline.1), ih hline.2, List.cons_append]

theorem splitLines_last (hline : newline ∉ line) (hne : line ≠ []) :
    splitLines line = [line] := by
  induction line with
  | nil => exact absurd rfl hne
  | cons c line ih =>
      rw [List.mem_cons, not_or] at hline
      rw [splitLines, if_neg (Ne.symm hline.1)]
      by_cases hnil : line = []
      · rw [hnil]
        rfl
      · rw [ih hline.2 hnil]

/-- The lines of a text are the only way to divide it so. -/
theorem splitLines_flatten (h : LineList lines) : splitLines lines.flatten = lines := by
  induction h with
  | nil => rfl
  | last hne hline =>
      rw [List.flatten_singleton]
      exact splitLines_last hline hne
  | cons hline hlines ih =>
      rw [List.flatten_cons, List.append_assoc, List.singleton_append, splitLines_line hline, ih]

/-! ## Pieces -/

/-- What `fgets(buf, size, stream)` puts into the buffer, call by call. -/
def fgetsAll (size : ℕ) (hsize : 1 < size) (stream : List UInt8) : List (List UInt8) :=
  match _h : fgets size stream with
  | none => []
  | some (piece, rest) => piece :: fgetsAll size hsize rest
termination_by stream.length
decreasing_by exact (reads_of_fgets hsize _h).length_rest_lt

theorem fgetsAll_nil (hsize : 1 < size) : fgetsAll size hsize [] = [] := by
  rw [fgetsAll]
  rfl

theorem fgetsAll_some (hsize : 1 < size) {piece rest : List UInt8}
    (h : fgets size text = some (piece, rest)) :
    fgetsAll size hsize text = piece :: fgetsAll size hsize rest := by
  rw [fgetsAll]
  split
  · rename_i hnone
    rw [h] at hnone
    cases hnone
  · rename_i first later hsome
    rw [h, Option.some.injEq, Prod.mk.injEq] at hsome
    obtain ⟨rfl, rfl⟩ := hsome
    rfl

theorem fgetsAll_cons (hsize : 1 < size) (hne : text ≠ []) :
    fgetsAll size hsize text = fgetsLine (size - 1) text ::
      fgetsAll size hsize (text.drop (fgetsLine (size - 1) text).length) :=
  fgetsAll_some hsize (if_neg hne)

/-- The pieces make up the text. -/
theorem flatten_fgetsAll (hsize : 1 < size) (text : List UInt8) :
    (fgetsAll size hsize text).flatten = text := by
  fun_induction fgetsAll size hsize text with
  | case1 text hnone => rw [List.flatten_nil, fgets_eq_none_iff.mp hnone]
  | case2 text piece rest hsome ih =>
      rw [List.flatten_cons, ih, ← (reads_of_fgets hsize hsome).append]

/-- The pieces of a line are the same whatever follows it. -/
theorem fgetsAll_line (hsize : 1 < size) (hline : newline ∉ line) (rest : List UInt8) :
    fgetsAll size hsize (line ++ newline :: rest) =
      fgetsAll size hsize (line ++ [newline]) ++ fgetsAll size hsize rest := by
  induction hn : line.length using Nat.strong_induction_on generalizing line with
  | _ n ih =>
      have hwhole : line ++ newline :: rest ≠ [] := by simp
      have halone : line ++ [newline] ≠ [] := by simp
      rw [fgetsAll_cons hsize hwhole, fgetsAll_cons hsize halone]
      by_cases hroom : line.length < size - 1
      · -- the line is one piece
        have hsplit : line ++ newline :: rest = (line ++ [newline]) ++ rest := by simp
        rw [fgetsLine_line hline hroom, fgetsLine_line hline hroom, List.drop_length,
          fgetsAll_nil, hsplit, List.drop_left]
        rfl
      · -- the buffer is full before the line ends
        have hlong := not_lt.mp hroom
        have hcut : (line.take (size - 1)).length = size - 1 := List.length_take_of_le hlong
        have hdrop : newline ∉ line.drop (size - 1) := fun h => hline (List.mem_of_mem_drop h)
        have hshort : (line.drop (size - 1)).length < n := by
          rw [List.length_drop]
          omega
        rw [fgetsLine_long hline hlong, fgetsLine_long hline hlong, hcut,
          List.drop_append_of_le_length hlong, List.drop_append_of_le_length hlong,
          ih _ hshort hdrop rfl, List.cons_append]

/-- **The pieces of a text are those of its lines.** -/
theorem fgetsAll_flatten (hsize : 1 < size) (h : LineList lines) :
    fgetsAll size hsize lines.flatten = lines.flatMap (fgetsAll size hsize) := by
  induction h with
  | nil => exact fgetsAll_nil hsize
  | last hne hline => rw [List.flatten_singleton, List.flatMap_singleton]
  | cons hline hlines ih =>
      rw [List.flatten_cons, List.append_assoc, List.singleton_append, fgetsAll_line hsize hline,
        ih, List.flatMap_cons]

/-- A line that fits is one piece. -/
theorem fgetsAll_short (hsize : 1 < size) (hline : IsLine line) (hlen : line.length < size) :
    fgetsAll size hsize line = [line] := by
  have hpiece : fgetsLine (size - 1) line = line := by
    cases hline with
    | last hne hnot => exact fgetsLine_unended hnot (Nat.le_sub_one_of_lt hlen)
    | cons hnot hlines =>
        rw [List.length_append, List.length_singleton] at hlen
        exact fgetsLine_line hnot (by omega) []
  have hne : line ≠ [] := hline.ne_nil List.mem_cons_self
  rw [fgetsAll_cons hsize hne, hpiece, List.drop_length, fgetsAll_nil]

end CString

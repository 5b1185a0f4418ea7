import MyWorkEnv.Conf.Comments
import MyWorkEnv.Conf.Settings
import MyWorkEnv.Lib.Numerals

/-!
# Files that are read as they were written

A file of lines `key=value`, each with a value that its field can hold, in any
order and with any other lines between them. It is accepted, and every setting is
then what the last line for it says; those without a line are what they were. Line
by line, a map from keys to values is updated as the structure is.

A text of 63 bytes fills its field: its newline is not printed, and the NUL is
taken for it.
-/

namespace MyWorkEnv

open ByteMemory CString FixedWidth Snprintf

/-- What is behind a key, or in a field. -/
inductive ConfData where
  | number (v : ℤ)
  | text (bs : List UInt8)
deriving DecidableEq

def ConfData.print : ConfData → List UInt8
  | .number v => signedDecimal v
  | .text bs => bs

namespace ConfValue

/-- What a line can say of the setting. -/
def Takes : ConfValue → ConfData → Prop
  | .int _ scale test, .number v =>
      (-2 ^ 31 ≤ v * scale ∧ v * scale < 2 ^ 31) ∧ -2 ^ 31 ≤ v ∧ v < 2 ^ 31 ∧
        ∀ t ∈ test, t (v * scale) = true
  | .string _ _, .text bs => bs.length ≤ 63 ∧ 0 ∉ bs ∧ newline ∉ bs ∧ equals ∉ bs
  | _, _ => False

/-- What the setting is then. -/
def stored : ConfValue → ConfData → ConfData
  | .int _ scale _, .number v => .number (v * scale)
  | _, d => d

/-- What the setting is to the program. -/
def read (e : Endian) (conf : Memory) : ConfValue → ConfData
  | .int pos _ _ => .number (loadInt e pos conf)
  | .string pos _ => .text (cStr (readBytes conf pos 64))

end ConfValue

/-- A line, without its newline: of a setting, or one that is ignored. -/
inductive ConfEntry (p : ConfParser) where
  | set (s : ConfSetting) (d : ConfData) (hs : s ∈ p.settings) (hd : s.value.Takes d)
  | other (line : List UInt8) (hline : newline ∉ line) (h : p.Ignores (line ++ [newline]))

namespace ConfEntry

variable {p : ConfParser}

def print : ConfEntry p → List UInt8
  | .set s d _ _ => s.key ++ d.print
  | .other line _ _ => line

def update (m : List UInt8 → ConfData) : ConfEntry p → List UInt8 → ConfData
  | .set s d _ _ => Function.update m s.key (s.value.stored d)
  | .other _ _ _ => m

end ConfEntry

variable {e : Endian} {p : ConfParser} {s t : ConfSetting} {d : ConfData} {conf : Memory}
  {m : List UInt8 → ConfData} {bs : List UInt8}

/-- The file. -/
def printConf (entries : List (ConfEntry p)) : List UInt8 :=
  (entries.map fun entry => entry.print ++ [newline]).flatten

/-- By its key, every setting is what the map says. -/
def ConfParser.Represents (p : ConfParser) (e : Endian) (m : List UInt8 → ConfData)
    (conf : Memory) : Prop :=
  ∀ s ∈ p.settings, s.value.read e conf = m s.key

/-! ## Fields -/

theorem ConfParser.settings_pairwise (p : ConfParser) :
    p.settings.Pairwise fun a b => a.key ≠ b.key ∧
      (a.value.field.pos + a.value.field.len ≤ b.value.field.pos ∨
        b.value.field.pos + b.value.field.len ≤ a.value.field.pos) := by
  have hkeys : p.settings.Pairwise fun a b => ¬ a.key <:+ b.key :=
    List.pairwise_map.mp p.keys_pairwise
  have hfields := List.pairwise_map.mp p.fields.2
  refine (hkeys.and hfields).imp ?_
  rintro a b ⟨hkey, hfield⟩
  refine ⟨?_, hfield⟩
  intro hsame
  exact hkey (hsame ▸ List.suffix_rfl)

/-- Of two settings, the keys are not the same and the fields are apart. -/
theorem ConfParser.apart (hs : s ∈ p.settings) (ht : t ∈ p.settings) (hne : s ≠ t) :
    s.key ≠ t.key ∧ (s.value.field.pos + s.value.field.len ≤ t.value.field.pos ∨
      t.value.field.pos + t.value.field.len ≤ s.value.field.pos) := by
  have hsymm : Std.Symm fun a b : ConfSetting => a.key ≠ b.key ∧
      (a.value.field.pos + a.value.field.len ≤ b.value.field.pos ∨
        b.value.field.pos + b.value.field.len ≤ a.value.field.pos) :=
    ⟨fun _ _ hab => ⟨hab.1.symm, hab.2.symm⟩⟩
  exact p.settings_pairwise.forall hs ht hne

/-- What a setting is, is in its field. -/
theorem ConfValue.read_congr {conf' : Memory} (value : ConfValue)
    (h : readBytes conf value.field.pos value.field.len =
      readBytes conf' value.field.pos value.field.len) :
    value.read e conf = value.read e conf' := by
  cases value with
  | int pos scale test =>
      show ConfData.number (loadInt e pos conf) = .number (loadInt e pos conf')
      exact congrArg (fun bytes => ConfData.number (BitVec.ofNat 32 (load e bytes)).toInt) h
  | string pos refuses => exact congrArg (fun bytes => ConfData.text (cStr bytes)) h

/-- A setting that stays in its field leaves everything else. -/
theorem apply_outside {text : List UInt8} {i : ℕ}
    (h : ∀ a ∈ (s.value.apply e text conf).spans, a.Within s.value.field.pos s.value.field.len)
    (hi : i < s.value.field.pos ∨ s.value.field.pos + s.value.field.len ≤ i) :
    (s.value.apply e text conf).conf i = conf i := by
  refine s.value.apply_frame fun a ha => ?_
  obtain ⟨hlow, hhigh⟩ := h a ha
  rcases hi with hi | hi
  · exact .inl (hi.trans_le hlow)
  · exact .inr (hhigh.trans hi)

theorem apply_other {text : List UInt8} (hs : s ∈ p.settings) (ht : t ∈ p.settings) (hne : s ≠ t)
    (h : ∀ a ∈ (s.value.apply e text conf).spans, a.Within s.value.field.pos s.value.field.len) :
    readBytes (s.value.apply e text conf).conf t.value.field.pos t.value.field.len =
      readBytes conf t.value.field.pos t.value.field.len := by
  have hapart := (ConfParser.apart hs ht hne).2
  refine readBytes_congr fun i hlow hhigh => apply_outside h ?_
  rcases hapart with hbehind | hbefore
  · exact .inr (hbehind.trans hlow)
  · exact .inl (hhigh.trans_le hbefore)

/-! ## Values -/

/-- The number is stored, and passes its test. -/
theorem apply_number {pos : ℕ} {scale v : ℤ} {test : Option (ℤ → Bool)}
    (hd : (ConfValue.int pos scale test).Takes (.number v)) {text : List UInt8}
    (htext : atoi text = v) (conf : Memory) :
    ((ConfValue.int pos scale test).apply e text conf).ret = mySuccess ∧
      loadInt e pos ((ConfValue.int pos scale test).apply e text conf).conf = v * scale := by
  obtain ⟨⟨hlow, hhigh⟩, -, -, htest⟩ := hd
  have hexact : (BitVec.ofInt 32 (v * scale)).toInt = v * scale := by
    rw [BitVec.toInt_ofInt]
    exact Int.bmod_eq_of_le (by omega) (by omega)
  cases test with
  | none =>
      refine ⟨rfl, ?_⟩
      show loadInt e pos (storeInt e pos (atoi text * scale) conf) = v * scale
      rw [loadInt_storeInt, htext, hexact]
  | some t =>
      have ht := htest t rfl
      simp only [ConfValue.apply, loadInt_storeInt, htext, hexact, ht, if_true, and_self]

/-- The text is printed without its newline. -/
theorem apply_text {pos : ℕ} {refuses : ℤ → Bool} (hlen : bs.length ≤ 63) (hnul : 0 ∉ bs)
    (hrefuses : refuses (bs.length + 1 : ℕ) = false) (conf : Memory) :
    ((ConfValue.string pos refuses).apply e (bs ++ [newline]) conf).ret = mySuccess ∧
      readBytes ((ConfValue.string pos refuses).apply e (bs ++ [newline]) conf).conf pos
        (bs.length + 1) = bs ++ [0] := by
  have hstring : cStr (bs ++ [newline]) = bs ++ [newline] := by
    apply cStr_of_not_mem
    rw [List.mem_append, not_or]
    exact ⟨hnul, by decide⟩
  have hlength : (bs ++ [newline]).length = bs.length + 1 := by
    rw [List.length_append, List.length_singleton]
  simp only [ConfValue.apply, hstring, hlength, hrefuses, Bool.false_eq_true, if_false, true_and]
  by_cases hfull : bs.length = 63
  · -- the newline has no room
    have hprinted : snprintfStr 64 (bs ++ [newline]) = bs := by
      rw [snprintfStr, List.take_left' hfull]
    have hlast : writeBytes conf pos (bs ++ [0]) (pos + (bs.length + 1) - 1) ≠ newline := by
      have hnul := writeBytes_at conf pos bs 0 []
      rw [← Nat.add_assoc, Nat.add_sub_cancel, hnul]
      decide
    have hread := @readBytes_write conf pos (bs ++ [0])
    rw [List.length_append, List.length_singleton] at hread
    rw [hprinted, dropNewline, if_neg hlast, hread]
  · have hprinted : snprintfStr 64 (bs ++ [newline]) = bs ++ [newline] := by
      rw [snprintfStr, List.take_of_length_le (by rw [hlength]; omega)]
    have hlast : writeBytes conf pos (bs ++ newline :: [0]) (pos + (bs.length + 1) - 1) =
        newline := by
      rw [← Nat.add_assoc, Nat.add_sub_cancel, writeBytes_at]
    have hfront : readBytes (writeBytes conf pos (bs ++ newline :: [0])) pos bs.length = bs := by
      have hprefix : readBytes (writeBytes conf (pos + 0) (bs ++ [newline, 0])) pos
          (0 + bs.length) = readBytes conf pos 0 ++ bs := readBytes_write_prefix
      rwa [Nat.zero_add] at hprefix
    rw [hprinted, List.append_assoc, List.singleton_append, dropNewline, if_pos hlast,
      ← Nat.add_assoc, Nat.add_sub_cancel]
    have hwrite := @readBytes_write_append (writeBytes conf pos (bs ++ newline :: [0])) pos
      bs.length [0]
    rw [hfront] at hwrite
    exact hwrite

/-! ## Lines -/

theorem ConfParser.keys_fit (p : ConfParser) :
    ∀ s ∈ p.settings, newline ∉ s.key ∧ s.key.length ≤ 32 := by
  cases p <;> decide

/-- What is printed is a line without another `=`, and not too long. -/
structure Printed (bs : List UInt8) : Prop where
  newline : newline ∉ bs
  equals : equals ∉ bs
  nul : 0 ∉ bs
  length_le : bs.length ≤ 63

theorem Printed.of_takes {value : ConfValue} (hd : value.Takes d) : Printed d.print := by
  cases value with
  | int pos scale test =>
      cases d with
      | text bs => exact hd.elim
      | number v =>
          have hother : ∀ c : UInt8, c ≠ 45 → ¬ IsDigit c → c ∉ signedDecimal v := by
            intro c hminus hdigit hmem
            exact (mem_signedDecimal hmem).elim hminus hdigit
          obtain ⟨-, hlow, hhigh, -⟩ := hd
          have hsize : v.natAbs < 10 ^ 10 := by omega
          have hlen := length_signedDecimal_le (by decide) hsize
          exact ⟨hother _ (by decide) (by decide), hother _ (by decide) (by decide),
            hother _ (by decide) (by decide), hlen.trans (by decide)⟩
  | string pos refuses =>
      cases d with
      | number v => exact hd.elim
      | text bs => exact ⟨hd.2.2.1, hd.2.2.2, hd.2.1, hd.1⟩

theorem notDigit_newline : NotDigit [newline] := by
  intro c hc
  obtain rfl := Option.some.inj hc
  decide

/-- The setting is what the line says. -/
theorem apply_takes (hs : s ∈ p.settings) (hd : s.value.Takes d) :
    (s.value.apply e (d.print ++ [newline]) conf).ret = mySuccess ∧
      s.value.read e (s.value.apply e (d.print ++ [newline]) conf).conf = s.value.stored d := by
  have hrefuses := p.refuses_iff s hs
  cases hvalue : s.value with
  | int pos scale test =>
      rw [hvalue] at hd
      cases d with
      | text bs => exact hd.elim
      | number v =>
          obtain ⟨hret, hload⟩ := apply_number (e := e) hd
            (atoi_signedDecimal notDigit_newline (by decide) hd.2.1 hd.2.2.1) conf
          exact ⟨hret, congrArg ConfData.number hload⟩
  | string pos refuses =>
      rw [hvalue] at hd
      cases d with
      | number v => exact hd.elim
      | text bs =>
          obtain ⟨hlen, hnul, -, -⟩ := hd
          have haccepts : refuses (bs.length + 1 : ℕ) = false := by
            rw [Bool.eq_false_iff, ne_eq, hrefuses pos refuses hvalue]
            exact Nat.succ_ne_zero _
          obtain ⟨hret, hread⟩ := apply_text (e := e) hlen hnul haccepts conf
          refine ⟨hret, congrArg ConfData.text ?_⟩
          have hroom : 64 = bs.length + 1 + (63 - bs.length) := by omega
          rw [hroom, readBytes_add]
          show cStr (readBytes _ pos (bs.length + 1) ++ _) = bs
          rw [ConfData.print, hread, List.append_assoc, List.singleton_append,
            cStr_append_zero hnul]

/-- The line sets its setting, and no other. -/
theorem confLine_set (hs : s ∈ p.settings) (hd : s.value.Takes d) (conf : Memory) :
    let r := confLine e p.settings (s.key ++ (d.print ++ [newline])) conf
    r.ret = mySuccess ∧ s.value.read e r.conf = s.value.stored d ∧
      (∀ t ∈ p.settings, s ≠ t → t.value.read e r.conf = t.value.read e conf) ∧
      ∀ i, p.sizeofConf ≤ i → r.conf i = conf i := by
  have hprinted := Printed.of_takes hd
  have hequals : equals ∉ d.print ++ [newline] := by
    rw [List.mem_append, not_or]
    exact ⟨hprinted.equals, by decide⟩
  have hstring : cStr (d.print ++ [newline]) = d.print ++ [newline] := by
    apply cStr_of_not_mem
    rw [List.mem_append, not_or]
    exact ⟨hprinted.nul, by decide⟩
  have hwithin : ∀ a ∈ (s.value.apply e (d.print ++ [newline]) conf).spans,
      a.Within s.value.field.pos s.value.field.len := by
    refine (apply_within_iff hs hstring conf).mpr (.inr ?_)
    have hlen := hprinted.length_le
    rw [List.length_append, List.length_singleton]
    omega
  have hline := confLine_line (e := e) hs hequals conf
  rw [hstring] at hline
  dsimp only
  rw [hline]
  refine ⟨(apply_takes hs hd).1, (apply_takes hs hd).2, ?_, ?_⟩
  · intro t ht hne
    exact t.value.read_congr (apply_other hs ht hne hwithin)
  · intro i hi
    have hfield := (p.fields.1 s hs).2
    rw [Nat.zero_add] at hfield
    exact apply_outside hwithin (.inr (hfield.trans hi))

theorem ConfParser.Represents.set (h : p.Represents e m conf) (hs : s ∈ p.settings)
    (hd : s.value.Takes d) :
    p.Represents e (Function.update m s.key (s.value.stored d))
      (confLine e p.settings (s.key ++ (d.print ++ [newline])) conf).conf := by
  obtain ⟨-, hown, hothers, -⟩ := confLine_set (e := e) hs hd conf
  intro t ht
  by_cases hst : s = t
  · rw [← hst, Function.update_self, hown]
  · have hkey := (ConfParser.apart hs ht hst).1
    rw [Function.update_of_ne hkey.symm, hothers t ht hst, h t ht]

/-- A line of a setting is one piece. -/
theorem confPieces_set (hs : s ∈ p.settings) (hd : s.value.Takes d) :
    confPieces (s.key ++ d.print ++ [newline]) = [s.key ++ (d.print ++ [newline])] := by
  have hprinted := Printed.of_takes hd
  obtain ⟨hkey, hkeylen⟩ := p.keys_fit s hs
  have hline : newline ∉ s.key ++ d.print := by
    rw [List.mem_append, not_or]
    exact ⟨hkey, hprinted.newline⟩
  have hfits : (s.key ++ d.print ++ [newline]).length < sizeofLine := by
    have hlen := hprinted.length_le
    rw [List.length_append, List.length_append, List.length_singleton, sizeofLine]
    omega
  rw [confPieces, fgetsAll_short one_lt_sizeofLine (.cons hline .nil) hfits, List.append_assoc]

theorem ConfEntry.newline_notMem (entry : ConfEntry p) : newline ∉ entry.print := by
  cases entry with
  | set s d hs hd =>
      rw [ConfEntry.print, List.mem_append, not_or]
      exact ⟨(p.keys_fit s hs).1, (Printed.of_takes hd).newline⟩
  | other line hline h => exact hline

theorem lineList_printConf (entries : List (ConfEntry p)) :
    LineList (entries.map fun entry => entry.print ++ [newline]) := by
  induction entries with
  | nil => exact .nil
  | cons entry entries ih => exact .cons entry.newline_notMem ih

/-! ## Files -/

/-- The loop, line by line. -/
theorem confLoop_entries (entries : List (ConfEntry p)) (h : p.Represents e m conf) :
    let r := confLoop e p.settings
      ((entries.map fun entry => entry.print ++ [newline]).flatMap confPieces) conf
    r.1 = mySuccess ∧ p.Represents e (entries.foldl ConfEntry.update m) r.2 ∧
      ∀ i, p.sizeofConf ≤ i → r.2 i = conf i := by
  induction entries generalizing m conf with
  | nil => exact ⟨rfl, h, fun _ _ => rfl⟩
  | cons entry entries ih =>
      rw [List.map_cons, List.flatMap_cons]
      cases entry with
      | other line hline hignored =>
          rw [ConfEntry.print, confLoop_of_inert hignored]
          exact ih h
      | set s d hs hd =>
          obtain ⟨hret, -, -, houtside⟩ := confLine_set (e := e) hs hd conf
          obtain ⟨hdone, hrepresents, hrest⟩ := ih (h.set hs hd)
          rw [ConfEntry.print, confPieces_set hs hd, List.singleton_append, confLoop,
            if_neg (not_not_intro hret)]
          refine ⟨hdone, hrepresents, fun i hi => ?_⟩
          rw [hrest i hi, houtside i hi]

/-- **A file is read as it was written.** It is accepted, every setting is what the last line
for it says, or what it was, and nothing behind the structure is changed. -/
theorem parse_printConf (e : Endian) {p : ConfParser} (entries : List (ConfEntry p))
    {m : List UInt8 → ConfData} {conf : Memory} (h : p.Represents e m conf) :
    (p.parse e (some (printConf entries)) conf).1 = mySuccess ∧
      p.Represents e (entries.foldl ConfEntry.update m)
        (p.parse e (some (printConf entries)) conf).2 ∧
      ∀ i, p.sizeofConf ≤ i → (p.parse e (some (printConf entries)) conf).2 i = conf i := by
  have hpieces := fgetsAll_flatten one_lt_sizeofLine (lineList_printConf entries)
  change confPieces (printConf entries) = _ at hpieces
  rw [parse_some, hpieces]
  exact confLoop_entries entries h

/-- Seven archives, and then nine, with a comment. -/
def nineArchives : List (ConfEntry .server) :=
  let logMaxNum : ConfSetting := ⟨str "LogMaxNum=", .int 72 1 (some fun v => decide (0 < v))⟩
  have hmem : logMaxNum ∈ ConfParser.server.settings := by
    simp [ConfParser.settings, serverSettings, logMaxNum]
  [.set logMaxNum (.number 7) hmem (by simp [logMaxNum, ConfValue.Takes]),
    .other (str "#archives") (by decide)
      (ignores_of_short _ (.cons (by decide) .nil) (by decide) (by decide)),
    .set logMaxNum (.number 9) hmem (by simp [logMaxNum, ConfValue.Takes])]

/-- What a structure of zeros says. -/
def zeroSettings (key : List UInt8) : ConfData :=
  if key = str "LogPath=" then .text [] else .number 0

theorem parse_printConf_nine :
    (serverParseConf .little (some (printConf nineArchives)) fun _ => 0).1 = mySuccess ∧
      ConfParser.server.Represents .little (nineArchives.foldl ConfEntry.update zeroSettings)
        (serverParseConf .little (some (printConf nineArchives)) fun _ => 0).2 ∧
      ∀ i, 116 ≤ i → (serverParseConf .little (some (printConf nineArchives)) fun _ => 0).2 i = 0 :=
  parse_printConf .little nineArchives (by
    unfold ConfParser.Represents
    decide)

end MyWorkEnv

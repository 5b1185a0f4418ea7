import MyWorkEnv.Conf.ConfFile
import MyWorkEnv.MyUtils.Log.LogIO

/-!
# Single settings

What a line `key=value` does. No key ends with another, so the line is taken for
the setting it names. An `int` stays in its field. A string is printed into its
field, but then the byte before its end is looked at where it would be if all of
it had been printed: from 65 bytes on that is behind the field.

The log size is multiplied before it is tested, as an `int`. What the test sees is
the size modulo 4096.
-/

namespace MyWorkEnv

open ByteMemory CString FixedWidth Snprintf

/-- `=` -/
abbrev equals : UInt8 := 61

variable {e : Endian} {p : ConfParser} {s : ConfSetting} {conf : Memory} {i : ℕ}
  {key key' value text : List UInt8}

/-! ## Keys -/

/-- A key is a name with one `=` behind it, and no comment. -/
structure IsKey (key : List UInt8) : Prop where
  last : ∃ name, key = name ++ [equals] ∧ equals ∉ name
  notNul : 0 ∉ key
  notComment : key.head? ≠ some 35

theorem ConfParser.isKey (p : ConfParser) : ∀ s ∈ p.settings, IsKey s.key := by
  have hkeys : ∀ s ∈ p.settings, s.key = s.key.dropLast ++ [equals] ∧ equals ∉ s.key.dropLast ∧
      0 ∉ s.key ∧ s.key.head? ≠ some 35 := by
    cases p <;> decide
  intro s hs
  obtain ⟨hlast, hname, hnul, hhead⟩ := hkeys s hs
  exact ⟨⟨_, hlast, hname⟩, hnul, hhead⟩

theorem ConfParser.keys_pairwise (p : ConfParser) :
    (p.settings.map ConfSetting.key).Pairwise fun a b => ¬ a <:+ b := by
  cases p <;> decide

/-- There is only one `=` in the line, and a key ends there. -/
theorem key_suffix (hkey : IsKey key) (hkey' : IsKey key') (hvalue : equals ∉ value)
    (h : key' <:+: key ++ value) : key' <:+ key := by
  obtain ⟨name, rfl, hname⟩ := hkey.last
  obtain ⟨name', rfl, hname'⟩ := hkey'.last
  obtain ⟨before, after, happend⟩ := h
  have hone : before ++ name' ++ equals :: after = name ++ equals :: value := by
    simpa using happend
  have hcount := congrArg (List.count equals) hone
  rw [List.count_append, List.count_append, List.count_append, List.count_cons_self,
    List.count_cons_self, List.count_eq_zero.mpr hname, List.count_eq_zero.mpr hvalue] at hcount
  have hafter : equals ∉ after := List.count_eq_zero.mp (by omega)
  have hbefore : equals ∉ before ++ name' := by
    refine List.count_eq_zero.mp ?_
    rw [List.count_append]
    omega
  obtain ⟨rfl, -, -⟩ := (List.append_cons_inj_of_notMem hbefore hafter).mp hone
  exact ⟨before, (List.append_assoc before name' [equals]).symm⟩

theorem cStr_append (hkey : 0 ∉ key) (value : List UInt8) :
    cStr (key ++ value) = key ++ cStr value := by
  have hall : ∀ b ∈ key, (b != 0) = true := by
    intro b hb
    rw [bne_iff_ne]
    rintro rfl
    exact hkey hb
  exact List.takeWhile_append_of_pos hall

theorem not_mem_cStr (hvalue : equals ∉ value) : equals ∉ cStr value :=
  fun h => hvalue ((List.takeWhile_prefix _).subset h)

/-- The line is taken for the setting it names. -/
theorem findSetting_line (hs : s ∈ p.settings) (hvalue : equals ∉ value) :
    findSetting p.settings (s.key ++ value) = some (s.value, cStr value) := by
  have hkey := p.isKey s hs
  have hline := cStr_append hkey.notNul value
  have hself : strstr (s.key ++ value) s.key = some (s.key ++ cStr value) := by
    rw [← hline]
    refine @strstr_of_startsWith _ _ (cStr value) ?_
    rw [hline, cStr_of_not_mem hkey.notNul]
  obtain ⟨before, after, hsplit⟩ := List.append_of_mem hs
  have hpairwise := p.keys_pairwise
  rw [hsplit, List.map_append, List.pairwise_append] at hpairwise
  have hearlier : (before.findSome? fun t =>
      (strstr (s.key ++ value) t.key).map fun ptr => (t.value, ptr.drop t.key.length)) = none := by
    refine List.findSome?_eq_none_iff.mpr fun t ht => Option.map_eq_none_iff.mpr ?_
    have ht' : t ∈ p.settings := by
      rw [hsplit]
      exact List.mem_append_left _ ht
    have hkey' := p.isKey t ht'
    rw [strstr_eq_none_iff, hline, cStr_of_not_mem hkey'.notNul]
    intro hinfix
    exact hpairwise.2.2 t.key (List.mem_map_of_mem ht) s.key (by simp)
      (key_suffix hkey hkey' (not_mem_cStr hvalue) hinfix)
  rw [findSetting, hsplit, List.findSome?_append, hearlier, Option.none_or, List.findSome?_cons,
    hself, Option.map_some, List.drop_left]

theorem confLine_line (hs : s ∈ p.settings) (hvalue : equals ∉ value) (conf : Memory) :
    confLine e p.settings (s.key ++ value) conf = s.value.apply e (cStr value) conf := by
  have hkey := p.isKey s hs
  have hhead : ¬ (s.key ++ value).head? = some 35 := by
    obtain ⟨name, hname, -⟩ := hkey.last
    have hne : s.key ≠ [] := by
      rw [hname]
      simp
    rw [List.head?_append_of_ne_nil _ hne]
    exact hkey.notComment
  rw [confLine, if_neg hhead, findSetting_line hs hvalue]

/-! ## Fields -/

/-- Where the setting is stored. -/
def ConfValue.field : ConfValue → Span
  | .int pos _ _ => ⟨pos, 4⟩
  | .string pos _ => ⟨pos, 64⟩

def ConfValue.isString : ConfValue → Bool
  | .int _ _ _ => false
  | .string _ _ => true

/-- The fields are in the structure, and apart from each other. -/
theorem ConfParser.fields (p : ConfParser) :
    (∀ s ∈ p.settings, s.value.field.Within 0 p.sizeofConf) ∧
      (p.settings.map fun s => s.value.field).Pairwise fun a b =>
        a.pos + a.len ≤ b.pos ∨ b.pos + b.len ≤ a.pos := by
  cases p <;> decide

/-- What is read or written is all that can have changed. -/
theorem ConfValue.apply_frame (value : ConfValue)
    (h : ∀ a ∈ (value.apply e text conf).spans, i < a.pos ∨ a.pos + a.len ≤ i) :
    (value.apply e text conf).conf i = conf i := by
  cases value with
  | int pos scale test =>
      have hstore : ∀ v, (i < pos ∨ pos + 4 ≤ i) → storeInt e pos v conf i = conf i := by
        intro v hout
        refine writeBytes_of_outside ?_
        rwa [length_store]
      cases test with
      | none => exact hstore _ (h _ List.mem_cons_self)
      | some test => exact hstore _ (h _ List.mem_cons_self)
  | string pos refuses =>
      simp only [ConfValue.apply] at h ⊢
      split_ifs at h ⊢ with hrefuses
      · exact writeBytes_of_outside (h _ List.mem_cons_self)
      · have hprinted := h _ List.mem_cons_self
        have hlast := h _ (List.mem_cons_of_mem _ List.mem_cons_self)
        have hne : i ≠ pos + (cStr text).length - 1 := by
          dsimp only at hlast
          omega
        exact (dropNewline_of_ne hne).trans (writeBytes_of_outside hprinted)

/-- Only an empty text is refused. -/
theorem ConfParser.refuses_iff (p : ConfParser) :
    ∀ s ∈ p.settings, ∀ pos refuses, s.value = .string pos refuses →
      ∀ len : ℕ, refuses len = true ↔ len = 0 := by
  intro s hs pos refuses hvalue len
  cases p with
  | server =>
      simp only [ConfParser.settings, serverSettings, List.mem_cons, List.not_mem_nil, or_false]
        at hs
      rcases hs with rfl | rfl | rfl | rfl | rfl | rfl | rfl | rfl | rfl | rfl | rfl | rfl | rfl |
        rfl <;> cases hvalue
      simp
  | client =>
      simp only [ConfParser.settings, clientSettings, List.mem_cons, List.not_mem_nil, or_false]
        at hs
      rcases hs with rfl | rfl | rfl | rfl | rfl <;> cases hvalue
      · simp
      · simp

/-- A setting stays in its field, unless it is a text of more than 64 bytes. -/
theorem apply_within_iff (hs : s ∈ p.settings) (htext : cStr text = text) (conf : Memory) :
    (∀ a ∈ (s.value.apply e text conf).spans, a.Within s.value.field.pos s.value.field.len) ↔
      s.value.isString = false ∨ text.length ≤ 64 := by
  have hrefuses := p.refuses_iff s hs
  cases hvalue : s.value with
  | int pos scale test =>
      refine iff_of_true ?_ (.inl rfl)
      cases test <;> simp [ConfValue.apply, ConfValue.field, Span.Within]
  | string pos refuses =>
      have hprinted : (snprintfStr 64 text ++ [0]).length ≤ 64 := by
        rw [snprintfStr, List.length_append, List.length_take, List.length_singleton]
        omega
      simp only [ConfValue.apply, htext]
      by_cases hempty : text.length = 0
      · rw [if_pos ((hrefuses pos refuses hvalue _).mpr hempty)]
        refine iff_of_true ?_ (.inr (by omega))
        intro a ha
        obtain rfl := List.mem_singleton.mp ha
        exact ⟨le_rfl, Nat.add_le_add_left hprinted pos⟩
      · rw [if_neg (fun h => hempty ((hrefuses pos refuses hvalue _).mp h))]
        simp only [List.forall_mem_cons, List.not_mem_nil, false_implies, implies_true, and_true,
          Span.Within, ConfValue.field, ConfValue.isString, Bool.true_eq_false, false_or]
        omega

/-- The line reads and writes its own field, and that is in the structure. -/
structure ConfParser.OnlyOwnField (p : ConfParser) (e : Endian) (s : ConfSetting)
    (value : List UInt8) (conf : Memory) : Prop where
  within : ∀ a ∈ (confLine e p.settings (s.key ++ value) conf).spans,
    a.Within s.value.field.pos s.value.field.len ∧ a.Within 0 p.sizeofConf
  unchanged : ∀ i, i < s.value.field.pos ∨ s.value.field.pos + s.value.field.len ≤ i →
    (confLine e p.settings (s.key ++ value) conf).conf i = conf i

/-- Every other setting is what it was. -/
theorem ConfParser.OnlyOwnField.keeps {t : ConfSetting} (h : p.OnlyOwnField e s value conf)
    (hs : s ∈ p.settings) (ht : t ∈ p.settings) (hne : s.value.field ≠ t.value.field) :
    readBytes (confLine e p.settings (s.key ++ value) conf).conf t.value.field.pos
      t.value.field.len = readBytes conf t.value.field.pos t.value.field.len := by
  have hsymm : Std.Symm fun a b : Span => a.pos + a.len ≤ b.pos ∨ b.pos + b.len ≤ a.pos :=
    ⟨fun _ _ hab => hab.symm⟩
  have hapart := p.fields.2.forall (List.mem_map_of_mem hs) (List.mem_map_of_mem ht) hne
  refine readBytes_congr fun i hlow hhigh => h.unchanged i ?_
  rcases hapart with hbehind | hbefore
  · exact .inr (hbehind.trans hlow)
  · exact .inl (hhigh.trans_le hbefore)

/-- **A line changes only its own setting**, and looks at no other, if and only if it is not a
string of more than 64 bytes. -/
theorem confLine_ownField_iff (e : Endian) {p : ConfParser} {s : ConfSetting}
    (hs : s ∈ p.settings) {value : List UInt8} (hvalue : equals ∉ value) (conf : Memory) :
    p.OnlyOwnField e s value conf ↔ s.value.isString = false ∨ (cStr value).length ≤ 64 := by
  have hstring : cStr (cStr value) = cStr value := cStr_of_not_mem (zero_notMem_cStr value)
  have hline := confLine_line (e := e) hs hvalue conf
  have hwithin := apply_within_iff (e := e) hs hstring conf
  rw [← hwithin]
  constructor
  · intro h a ha
    rw [← hline] at ha
    exact (h.within a ha).1
  · intro h
    rw [← hline] at h
    refine ⟨fun a ha => ⟨h a ha, Nat.zero_le _, ?_⟩, fun i hi => ?_⟩
    · exact (h a ha).2.trans (p.fields.1 s hs).2
    · rw [hline] at h ⊢
      refine s.value.apply_frame fun a ha => ?_
      obtain ⟨hlow, hhigh⟩ := h a ha
      rcases hi with hi | hi
      · exact .inl (hi.trans_le hlow)
      · exact .inr (hhigh.trans hi)

def logPath : ConfSetting := ⟨str "LogPath=", .string 4 fun len => len == 0⟩

theorem confLine_ownField_short :
    ConfParser.server.OnlyOwnField .little logPath (str "log" ++ [newline]) fun _ => 0 :=
  (confLine_ownField_iff .little (by simp [ConfParser.settings, serverSettings, logPath])
    (by decide) _).mpr (.inr (by decide))

/-- A path of 68 bytes, its newline behind them. -/
def longPath : List UInt8 := List.replicate 68 97 ++ [newline]

/-- `LogMaxNum` is 10. -/
def tenArchives : Memory := storeInt .little 72 10 fun _ => 0

/-- The newline that is dropped is `LogMaxNum`. -/
theorem confLine_otherField :
    ¬ ConfParser.server.OnlyOwnField .little logPath longPath tenArchives ∧
      loadInt .little 72 tenArchives = 10 ∧
      loadInt .little 72
        (confLine .little serverSettings (logPath.key ++ longPath) tenArchives).conf = 0 := by
  have hbefore : tenArchives 72 = 10 := by decide
  have hafter : (confLine .little serverSettings (logPath.key ++ longPath) tenArchives).conf 72 =
      0 := by decide +kernel
  refine ⟨fun h => ?_, by decide +kernel, by decide +kernel⟩
  have hsame : (0 : UInt8) = 10 := by
    rw [← hafter, ← hbefore]
    exact h.unchanged 72 (.inr (by decide))
  exact absurd hsame (by decide)

/-! ## The log size -/

/-- Where `LogMaxSize` is. -/
def ConfParser.logMaxSize : ConfParser → ℕ
  | .server => 68
  | .client => 132

theorem ConfParser.logMaxSize_mem (p : ConfParser) :
    ⟨str "LogMaxSize=", .int p.logMaxSize (1024 * 1024) (some fun v => decide (0 < v))⟩ ∈
      p.settings := by
  cases p <;> simp [ConfParser.settings, serverSettings, clientSettings, ConfParser.logMaxSize]

/-- The size in the `int`, by the number asked for modulo 4096. -/
theorem stored_pos_iff (v : ℤ) :
    0 < (BitVec.ofInt 32 (v * (1024 * 1024))).toInt ↔ 1 ≤ v % 4096 ∧ v % 4096 ≤ 2047 := by
  rw [BitVec.toInt_ofInt, Int.bmod_def]
  omega

theorem stored_eq {v : ℤ} (hlow : 1 ≤ v) (hhigh : v ≤ 2047) :
    (BitVec.ofInt 32 (v * (1024 * 1024))).toInt = v * 1048576 := by
  rw [BitVec.toInt_ofInt, Int.bmod_def]
  omega

/-- What is accepted is what was asked for, and what `LogModuleInit` takes. -/
def ConfParser.AcceptsAsked (p : ConfParser) (e : Endian) (value : List UInt8) (v : ℤ)
    (conf : Memory) : Prop :=
  let r := confLine e p.settings (str "LogMaxSize=" ++ value) conf
  r.ret = mySuccess → 1 ≤ v ∧ loadInt e p.logMaxSize r.conf = v * 1048576 ∧
    ∀ (arg : LogModuleInitArg) (contents : List UInt8),
      arg.logMaxSize.toInt = loadInt e p.logMaxSize r.conf →
        (LogSystem.logModuleInit arg contents).worker.logMaxSize = v * 1048576

theorem atoi_cStr (value : List UInt8) : atoi (cStr value) = atoi value := by
  apply atoi_congr
  rw [number, cStr_of_not_mem (zero_notMem_cStr value), ← number]

/-- The line is accepted if what is stored is positive. -/
theorem confLine_logMaxSize (hvalue : equals ∉ value) (p : ConfParser) (conf : Memory) :
    let r := confLine e p.settings (str "LogMaxSize=" ++ value) conf
    let stored := (BitVec.ofInt 32 (atoi value * (1024 * 1024))).toInt
    loadInt e p.logMaxSize r.conf = stored ∧ (r.ret = mySuccess ↔ 0 < stored) := by
  have hline := confLine_line (e := e) p.logMaxSize_mem hvalue conf
  dsimp only at hline ⊢
  rw [hline]
  simp only [ConfValue.apply, atoi_cStr, loadInt_storeInt, true_and]
  split_ifs with htest
  · exact iff_of_true rfl (of_decide_eq_true htest)
  · exact iff_of_false (by decide) fun h => htest (decide_eq_true h)

/-- **An accepted log size is the one asked for** if and only if that is from 1 to 2047, or would
not be accepted modulo 4096 either. -/
theorem logMaxSize_asked_iff (e : Endian) (p : ConfParser) {value : List UInt8}
    (hvalue : equals ∉ value) {v : ℤ} (hv : atoi value = v) (conf : Memory) :
    p.AcceptsAsked e value v conf ↔
      (1 ≤ v ∧ v ≤ 2047) ∨ ¬ (1 ≤ v % 4096 ∧ v % 4096 ≤ 2047) := by
  obtain ⟨hload, hret⟩ := confLine_logMaxSize (e := e) hvalue p conf
  rw [hv] at hload hret
  rw [stored_pos_iff] at hret
  rw [ConfParser.AcceptsAsked, hload, hret]
  constructor
  · intro h
    refine or_iff_not_imp_right.mpr fun haccepted => ?_
    obtain ⟨hlow, hstored, -⟩ := h (not_not.mp haccepted)
    have hlt : (BitVec.ofInt 32 (v * (1024 * 1024))).toInt < 2147483648 := BitVec.toInt_lt
    exact ⟨hlow, by omega⟩
  · rintro (⟨hlow, hhigh⟩ | hrefused) haccepted
    · have hstored := stored_eq hlow hhigh
      refine ⟨hlow, hstored, fun arg contents harg => ?_⟩
      have hpos : 0 < arg.logMaxSize.toInt := by
        rw [harg, stored_pos_iff]
        exact haccepted
      show LogSystem.logMaxSizeOf arg = _
      rw [LogSystem.logMaxSizeOf, if_pos hpos, harg, hstored]
    · exact absurd haccepted hrefused

theorem logMaxSize_five : ConfParser.client.AcceptsAsked .little (str "5" ++ [newline]) 5
    fun _ => 0 :=
  (logMaxSize_asked_iff .little .client (by decide) (by decide) _).mpr
    (.inl ⟨by decide, by decide⟩)

/-- 4097 MB are accepted, and are one. -/
theorem logMaxSize_wraps :
    ¬ ConfParser.server.AcceptsAsked .little (str "4097" ++ [newline]) 4097 (fun _ => 0) ∧
      (confLine .little serverSettings (str "LogMaxSize=4097" ++ [newline])
        fun _ => 0).ret = mySuccess ∧
      loadInt .little 68 (confLine .little serverSettings (str "LogMaxSize=4097" ++ [newline])
        fun _ => 0).conf = 1048576 := by
  have hret : (confLine .little serverSettings (str "LogMaxSize=" ++ (str "4097" ++ [newline]))
      fun _ => 0).ret = mySuccess := by decide
  have hload : loadInt .little 68 (confLine .little serverSettings
      (str "LogMaxSize=" ++ (str "4097" ++ [newline])) fun _ => 0).conf = 1048576 := by
    decide
  refine ⟨fun h => ?_, hret, hload⟩
  have hasked := (h hret).2.1
  have hfalse : (1048576 : ℤ) = 4097 * 1048576 := hload.symm.trans hasked
  exact absurd hfalse (by decide)

end MyWorkEnv

import MyWorkEnv.Lib.ByteMemory
import MyWorkEnv.Lib.ByteOrder
import MyWorkEnv.Lib.Lines
import MyWorkEnv.Lib.Snprintf
import MyWorkEnv.MyUtils.CommonUtil

/-!
# Configuration files

`_ServerParseConf` and `_ClientParseConf` read a file with `fgets` into `line`,
skip what begins with `#`, and else look for their keys one after the other,
anywhere in `line`. The first that occurs decides what is done with the text
behind it. The two differ in their keys, and in the tests of what is stored.

The structure that is filled is bytes, with the offsets of its fields, and what
lies behind it in memory follows. A step says which bytes it has read or
written.
-/

namespace MyWorkEnv

open ByteMemory CString FixedWidth Snprintf

/-- `sizeof(line)` -/
def sizeofLine : ℕ := 128

theorem one_lt_sizeofLine : 1 < sizeofLine := by decide

/-- What is done with the text behind a key. Either `scale` times the number is stored in the
`int` at `pos`, which is then tested if there is a `test`; or the text is printed into the 64
bytes at `pos`, and its length tested. -/
inductive ConfValue where
  | int (pos : ℕ) (scale : ℤ) (test : Option (ℤ → Bool))
  | string (pos : ℕ) (refuses : ℤ → Bool)

structure ConfSetting where
  key : List UInt8
  value : ConfValue

/-- The code of a step, the structure after it, and the bytes it has read or written. -/
structure ConfStep where
  ret : ℤ
  conf : Memory
  spans : List Span

section Source

-- of the host
variable (e : Endian)

def storeInt (pos : ℕ) (v : ℤ) (conf : Memory) : Memory :=
  writeBytes conf pos (store e 4 (BitVec.ofInt 32 v).toNat)

def loadInt (pos : ℕ) (conf : Memory) : ℤ :=
  (BitVec.ofNat 32 (load e (readBytes conf pos 4))).toInt

/-- `if ('\n' == path[len - 1]) path[len - 1] = '\0'`, where `pos` is that of `path[len - 1]`. -/
def dropNewline (pos : ℕ) (conf : Memory) : Memory :=
  if conf pos = newline then writeBytes conf pos [0] else conf

def ConfValue.apply (text : List UInt8) (conf : Memory) : ConfValue → ConfStep
  | .int pos scale none => ⟨mySuccess, storeInt e pos (atoi text * scale) conf, [⟨pos, 4⟩]⟩
  | .int pos scale (some test) =>
      let conf := storeInt e pos (atoi text * scale) conf
      ⟨if test (loadInt e pos conf) then mySuccess else -myEio, conf, [⟨pos, 4⟩, ⟨pos, 4⟩]⟩
  | .string pos refuses =>
      let printed := snprintfStr 64 (cStr text) ++ [0]
      let conf := writeBytes conf pos printed
      -- `snprintf` returns the length of all of the text
      let len := (cStr text).length
      if refuses len then ⟨-myEio, conf, [⟨pos, printed.length⟩]⟩
      else
        ⟨mySuccess, dropNewline (pos + len - 1) conf,
          [⟨pos, printed.length⟩, ⟨pos + len - 1, 1⟩]⟩

/-- The first key that occurs in the line, and the text behind it. -/
def findSetting (settings : List ConfSetting) (line : List UInt8) :
    Option (ConfValue × List UInt8) :=
  settings.findSome? fun s => (strstr line s.key).map fun ptr => (s.value, ptr.drop s.key.length)

/-- The body of the loop. -/
def confLine (settings : List ConfSetting) (line : List UInt8) (conf : Memory) : ConfStep :=
  if line.head? = some 35 then ⟨mySuccess, conf, []⟩
  else
    match findSetting settings line with
    | none => ⟨mySuccess, conf, []⟩
    | some (value, text) => value.apply e text conf

/-- The loop, for what `fgets` gives. -/
def confLoop (settings : List ConfSetting) : List (List UInt8) → Memory → ℤ × Memory
  | [], conf => (mySuccess, conf)
  | line :: lines, conf =>
      let r := confLine e settings line conf
      if r.ret ≠ mySuccess then (r.ret, r.conf) else confLoop settings lines r.conf

/-- `file` is `none` if it cannot be opened. -/
def parseConf (settings : List ConfSetting) (file : Option (List UInt8)) (conf : Memory) :
    ℤ × Memory :=
  match file with
  | none => (-myEio, conf)
  | some text => confLoop e settings (fgetsAll sizeofLine one_lt_sizeofLine text) conf

/-! ## The server's file -/

/-- `MY_LOG_LEVEL_INFO` to `MY_LOG_LEVEL_ERROR` -/
def isLogLevel (v : ℤ) : Bool := decide (0 ≤ v) && decide (v ≤ 3)

/-- The keys of `_ServerParseConf`, with the fields of `SERVER_CONF_PARAM`. -/
def serverSettings : List ConfSetting :=
  [⟨str "LogLevel=", .int 0 1 (some isLogLevel)⟩,
    ⟨str "LogPath=", .string 4 fun len => len == 0⟩,
    ⟨str "LogMaxSize=", .int 68 (1024 * 1024) (some fun v => decide (0 < v))⟩,
    ⟨str "LogMaxNum=", .int 72 1 (some fun v => decide (0 < v))⟩,
    ⟨str "LogHealthIntervalS=", .int 76 1 none⟩,
    ⟨str "MsgHealthIntervalS=", .int 80 1 none⟩,
    ⟨str "TPoolHealthIntervalS=", .int 84 1 none⟩,
    ⟨str "CmdLineHealthIntervalS=", .int 88 1 none⟩,
    ⟨str "MHHealthIntervalS=", .int 92 1 none⟩,
    ⟨str "MemHealthIntervalS=", .int 96 1 none⟩,
    ⟨str "TimerHealthIntervalS=", .int 100 1 none⟩,
    ⟨str "TPoolSize=", .int 104 1 (some fun v => decide (0 ≤ v))⟩,
    ⟨str "TPoolDefaultTimeout=", .int 108 1 (some fun v => decide (0 ≤ v))⟩,
    ⟨str "TPoolTaskQueueMaxLength=", .int 112 1 (some fun v => decide (0 ≤ v))⟩]

def serverParseConf (file : Option (List UInt8)) (conf : Memory) : ℤ × Memory :=
  parseConf e serverSettings file conf

/-! ## The client's file -/

/-- The keys of `_ClientParseConf`, with the fields of `CLIENT_CONF_PARAM`. -/
def clientSettings : List ConfSetting :=
  [⟨str "ServerIp=", .string 0 fun len => decide (len ≤ 0)⟩,
    ⟨str "LogLevel=", .int 64 1 (some isLogLevel)⟩,
    ⟨str "LogMaxSize=", .int 132 (1024 * 1024) (some fun v => decide (0 < v))⟩,
    ⟨str "LogMaxNum=", .int 136 1 (some fun v => decide (0 < v))⟩,
    ⟨str "LogPath=", .string 68 fun len => decide (len ≤ 0)⟩]

def clientParseConf (file : Option (List UInt8)) (conf : Memory) : ℤ × Memory :=
  parseConf e clientSettings file conf

/-! ## Both -/

inductive ConfParser where
  | server
  | client

namespace ConfParser

def settings : ConfParser → List ConfSetting
  | .server => serverSettings
  | .client => clientSettings

/-- The size of the structure. -/
def sizeofConf : ConfParser → ℕ
  | .server => 116
  | .client => 140

def parse : ConfParser → Option (List UInt8) → Memory → ℤ × Memory
  | .server => serverParseConf e
  | .client => clientParseConf e

theorem parse_eq (p : ConfParser) : p.parse e = parseConf e p.settings := by
  cases p with
  | server => rfl
  | client => rfl

end ConfParser

end Source

/-! ## Byte by byte -/

section Bytes

variable {e : Endian} {settings : List ConfSetting} {conf conf' : Memory} {i pos : ℕ} {v : ℤ}
  {text line : List UInt8} {lines : List (List UInt8)}

/-- What was stored is loaded, as an `int`. -/
theorem loadInt_storeInt : loadInt e pos (storeInt e pos v conf) = (BitVec.ofInt 32 v).toInt := by
  have hread : readBytes (storeInt e pos v conf) pos 4 =
      store e 4 (BitVec.ofInt 32 v).toNat := by
    have hlength := length_store e 4 (BitVec.ofInt 32 v).toNat
    have hsame := @readBytes_write conf pos (store e 4 (BitVec.ofInt 32 v).toNat)
    rwa [hlength] at hsame
  have hlt := (BitVec.ofInt 32 v).isLt
  rw [loadInt, hread, load_store, Nat.mod_eq_of_lt (by omega), BitVec.ofNat_toNat,
    BitVec.setWidth_eq]

theorem dropNewline_of_ne (h : i ≠ pos) : dropNewline pos conf i = conf i := by
  unfold dropNewline
  split_ifs
  · refine writeBytes_of_outside ?_
    rw [List.length_singleton]
    omega
  · rfl

theorem dropNewline_congr (h : conf i = conf' i) :
    dropNewline pos conf i = dropNewline pos conf' i := by
  by_cases hi : i = pos
  · subst hi
    unfold dropNewline
    rw [h]
    split_ifs
    · exact writeBytes_congr h
    · exact h
  · rw [dropNewline_of_ne hi, dropNewline_of_ne hi, h]

theorem ConfValue.apply_congr (value : ConfValue) (h : conf i = conf' i) :
    (value.apply e text conf).conf i = (value.apply e text conf').conf i := by
  cases value with
  | int pos scale test => cases test <;> exact writeBytes_congr h
  | string pos refuses =>
      simp only [ConfValue.apply]
      split_ifs
      · exact writeBytes_congr h
      · exact dropNewline_congr (writeBytes_congr h)

theorem confLine_congr (h : conf i = conf' i) :
    (confLine e settings line conf).conf i = (confLine e settings line conf').conf i := by
  unfold confLine
  split_ifs
  · exact h
  · cases findSetting settings line with
    | none => exact h
    | some found => exact found.1.apply_congr h

/-- A loop that comes to its end has gone on behind the first line. -/
theorem confLoop_cons (hret : (confLoop e settings (line :: lines) conf).1 = mySuccess) :
    confLoop e settings (line :: lines) conf =
      confLoop e settings lines (confLine e settings line conf).conf := by
  rw [confLoop] at hret ⊢
  split_ifs at hret ⊢ with hstop
  · exact absurd hret hstop
  · rfl

/-- What a byte is in the end depends on what it was, and on nothing else in memory. -/
theorem confLoop_congr (h : conf i = conf' i)
    (hret : (confLoop e settings lines conf).1 = mySuccess)
    (hret' : (confLoop e settings lines conf').1 = mySuccess) :
    (confLoop e settings lines conf).2 i = (confLoop e settings lines conf').2 i := by
  induction lines generalizing conf conf' with
  | nil => exact h
  | cons line lines ih =>
      have hrun := confLoop_cons hret
      have hrun' := confLoop_cons hret'
      rw [hrun] at hret ⊢
      rw [hrun'] at hret' ⊢
      exact ih (confLine_congr h) hret hret'

/-- A setting has a byte that does not keep anything of what it was. -/
theorem ConfValue.apply_overwrites (value : ConfValue) (text : List UInt8) :
    ∃ i, ∀ conf conf' : Memory,
      (value.apply e text conf).conf i = (value.apply e text conf').conf i := by
  cases value with
  | int pos scale test =>
      refine ⟨pos, fun conf conf' => ?_⟩
      have hinside : storeInt e pos (atoi text * scale) conf pos =
          storeInt e pos (atoi text * scale) conf' pos :=
        writeBytes_inside conf conf' le_rfl (by rw [length_store]; omega)
      cases test <;> exact hinside
  | string pos refuses =>
      refine ⟨pos, fun conf conf' => ?_⟩
      have hinside : writeBytes conf pos (snprintfStr 64 (cStr text) ++ [0]) pos =
          writeBytes conf' pos (snprintfStr 64 (cStr text) ++ [0]) pos := by
        refine writeBytes_inside conf conf' le_rfl ?_
        rw [List.length_append, List.length_singleton]
        omega
      simp only [ConfValue.apply]
      split_ifs
      · exact hinside
      · exact dropNewline_congr hinside

end Bytes

end MyWorkEnv

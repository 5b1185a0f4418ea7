import Mathlib.Data.List.Basic
import Mathlib.Data.List.Count
import Mathlib.Tactic

/-!
# Exact transfers over partial reads and writes

A program that loops on `recv` until it has `n` bytes, or on `send` until a
buffer is out, is a `ReadLoops` or a `WriteLoops`: a chain of exact transfers, each
with the result to give when the loop is cut short. One kernel answer is one
`step`; a step that merely delivers a chunk, or fails with an errno the loop
retries, changes neither the result nor the bytes that remain to be moved
(`ReadLoops.eval_step`, `WriteLoops.step_benign`). Hence how the kernel splits the
transfers does not matter (`ReadLoops.run_eq_eval`, `WriteLoops.run_benign`), and
with infinitely many positive answers every program comes to its end
(`ReadLoops.run_of_grants`, `WriteLoops.run_of_grants`).
-/

namespace Transfer

variable {β R : Type}

/-- Why a transfer loop was cut short: the call returned `0`, or it failed. -/
inductive Halt where
  | closed
  | error (errno : ℕ)
deriving DecidableEq, Repr

/-- An answer to a read: `upTo k` hands over at most `k + 1` bytes. -/
inductive ReadAnswer where
  | upTo (k : ℕ)
  | fail (errno : ℕ)
deriving DecidableEq, Repr

/-- An answer to a write: `wrote k` accepts at most `k` bytes. -/
inductive WriteAnswer where
  | wrote (k : ℕ)
  | fail (errno : ℕ)
deriving DecidableEq, Repr

/-- The inbound side of a stream: what is still to come, and how it ends. -/
structure Inbound (β : Type) where
  bytes : List β
  fin : Halt

/-! ## Readers -/

/-- `read n halt next` reads exactly `n` bytes and goes on with them; `halt`
is the result when only `got` of them came. -/
inductive ReadLoops (β R : Type) where
  | done (r : R)
  | read (n : ℕ) (halt : List β → Halt → R) (next : List β → ReadLoops β R)

namespace ReadLoops

/-- A loop for zero bytes is never entered. -/
def settle : ReadLoops β R → ReadLoops β R
  | .done r => .done r
  | .read 0 _ next => (next []).settle
  | .read (n + 1) halt next => .read (n + 1) halt next

/-- The program left after `got` has been read by the current loop. -/
def advance (got : List β) (n : ℕ) (halt : List β → Halt → R)
    (next : List β → ReadLoops β R) : ReadLoops β R :=
  (ReadLoops.read (n - got.length) (fun more => halt (got ++ more))
    (fun more => next (got ++ more))).settle

/-- One read call, asking for everything the current loop still lacks. -/
def step (retry : ℕ → Bool) (p : ReadLoops β R) (a : ReadAnswer) (inb : Inbound β) :
    ReadLoops β R × Inbound β :=
  match p with
  | .done r => (.done r, inb)
  | .read n halt next =>
      match a with
      | .fail e => if retry e then (p, inb) else (.done (halt [] (.error e)), inb)
      | .upTo k =>
          if inb.bytes = [] then (.done (halt [] inb.fin), inb)
          else
            let got := inb.bytes.take (min (k + 1) n)
            (advance got n halt next, ⟨inb.bytes.drop (min (k + 1) n), inb.fin⟩)

/-- Run on a list of answers; `none` while the program is still in a loop. -/
def run (retry : ℕ → Bool) : List ReadAnswer → ReadLoops β R → Inbound β →
    Option (R × List ReadAnswer × Inbound β)
  | [], p, inb =>
      match p.settle with
      | .done r => some (r, [], inb)
      | .read _ _ _ => none
  | a :: as, p, inb =>
      match p.settle with
      | .done r => some (r, a :: as, inb)
      | q@(.read _ _ _) => run retry as (q.step retry a inb).1 (q.step retry a inb).2

/-- What the program makes of the stream, whatever the answers. -/
def eval : ReadLoops β R → Inbound β → R × Inbound β
  | .done r, inb => (r, inb)
  | .read n halt next, inb =>
      if n ≤ inb.bytes.length then
        (next (inb.bytes.take n)).eval ⟨inb.bytes.drop n, inb.fin⟩
      else (halt inb.bytes inb.fin, ⟨[], inb.fin⟩)

@[simp] theorem eval_settle (p : ReadLoops β R) (inb : Inbound β) :
    p.settle.eval inb = p.eval inb := by
  induction p with
  | done r => rfl
  | read n halt next ih =>
      cases n with
      | zero => simp [settle, eval, ih]
      | succ n => rfl

/-- A stream that begins with exactly the bytes a loop wants. -/
theorem eval_read_append {n : ℕ} {bs : List β} (h : bs.length = n) (rest : List β)
    (fin : Halt) (halt : List β → Halt → R) (next : List β → ReadLoops β R) :
    (ReadLoops.read n halt next).eval ⟨bs ++ rest, fin⟩ = (next bs).eval ⟨rest, fin⟩ := by
  subst h
  simp [eval]

/-- A stream that ends before a loop has what it wants. -/
theorem eval_read_short {n : ℕ} {bs : List β} (h : bs.length < n) (fin : Halt)
    (halt : List β → Halt → R) (next : List β → ReadLoops β R) :
    (ReadLoops.read n halt next).eval ⟨bs, fin⟩ = (halt bs fin, ⟨[], fin⟩) := by
  simp [eval, Nat.not_le.mpr h]

theorem settle_settle (p : ReadLoops β R) : p.settle.settle = p.settle := by
  induction p with
  | done r => rfl
  | read n halt next ih =>
      cases n with
      | zero => simp [settle, ih]
      | succ n => rfl

/-- A settled program in a loop still lacks at least one byte. -/
theorem settle_read_pos {p : ReadLoops β R} {n : ℕ} {halt : List β → Halt → R}
    {next : List β → ReadLoops β R} (h : p.settle = .read n halt next) : 0 < n := by
  induction p with
  | done r => simp [settle] at h
  | read m halt' next' ih =>
      cases m with
      | zero => exact ih [] h
      | succ m =>
          simp only [settle, ReadLoops.read.injEq] at h
          omega

/-- Delivering a chunk moves the program and the stream together. -/
theorem eval_advance {m n : ℕ} (halt : List β → Halt → R) (next : List β → ReadLoops β R)
    (inb : Inbound β) (hm : m ≤ n) :
    (advance (inb.bytes.take m) n halt next).eval ⟨inb.bytes.drop m, inb.fin⟩ =
      (ReadLoops.read n halt next).eval inb := by
  obtain ⟨bs, fin⟩ := inb
  rw [advance, eval_settle]
  simp only [eval, List.length_take, List.length_drop]
  by_cases hle : m ≤ bs.length
  · have hmin : min m bs.length = m := min_eq_left hle
    rw [hmin]
    by_cases hn : n ≤ bs.length
    · rw [if_pos (by omega), if_pos hn]
      have htake : bs.take m ++ (bs.drop m).take (n - m) = bs.take n := by
        rw [← List.take_add, Nat.add_sub_cancel' hm]
      have hdrop : (bs.drop m).drop (n - m) = bs.drop n := by
        rw [List.drop_drop, Nat.add_sub_cancel' hm]
      rw [htake, hdrop]
    · rw [if_neg (by omega), if_neg hn, List.take_append_drop]
  · have htake : bs.take m = bs := List.take_of_length_le (by omega)
    have hdrop : bs.drop m = [] := List.drop_of_length_le (by omega)
    have hn : ¬ n ≤ bs.length := by omega
    rw [htake, hdrop, if_neg hn, if_neg (by omega), List.append_nil]

/-- **One step.** Apart from a failure the loop does not retry, an answer
changes nothing about what the program makes of the stream. -/
theorem eval_step {retry : ℕ → Bool} {a : ReadAnswer}
    (ha : ∀ e, a = .fail e → retry e = true) (p : ReadLoops β R) (inb : Inbound β)
    (hp : p.settle = p) :
    (p.step retry a inb).1.eval (p.step retry a inb).2 = p.eval inb := by
  cases p with
  | done r => rfl
  | read n halt next =>
      cases a with
      | fail e => simp [step, ha e rfl]
      | upTo k =>
          simp only [step]
          by_cases hb : inb.bytes = []
          · have hn : 0 < n := settle_read_pos hp
            rw [if_pos hb]
            obtain ⟨bs, fin⟩ := inb
            simp only at hb
            subst hb
            simp [eval, Nat.not_le.mpr hn]
          · rw [if_neg hb]
            exact eval_advance halt next inb (min_le_right _ _)

/-- A read that delivers leaves the program to make of the rest, and of
whatever comes later, what it would have made of the whole. -/
theorem eval_step_append (retry : ℕ → Bool) (p : ReadLoops β R) (k : ℕ) {bs : List β}
    (hbs : bs ≠ []) (more : List β) (fin fin' : Halt) :
    (p.step retry (.upTo k) ⟨bs, fin⟩).1.eval
        ⟨(p.step retry (.upTo k) ⟨bs, fin⟩).2.bytes ++ more, fin'⟩ =
      p.eval ⟨bs ++ more, fin'⟩ := by
  cases p with
  | done r => rfl
  | read n halt next =>
      simp only [step]
      rw [if_neg hbs]
      have hm : min (min (k + 1) n) bs.length ≤ n := by omega
      have htake : bs.take (min (k + 1) n) =
          (bs ++ more).take (min (min (k + 1) n) bs.length) := by
        rw [List.take_append_of_le_length (min_le_right _ _), List.take_eq_take_min]
      have hdrop : bs.drop (min (k + 1) n) ++ more =
          (bs ++ more).drop (min (min (k + 1) n) bs.length) := by
        rw [List.drop_append_of_le_length (min_le_right _ _), List.drop_eq_drop_min]
      rw [htake, hdrop]
      exact eval_advance halt next ⟨bs ++ more, fin'⟩ hm

/-- Cut short for a reason in `W`, the program gives a result in `Q`. -/
def HaltsIn (W : Halt → Prop) (Q : R → Prop) : ReadLoops β R → Prop
  | .done _ => True
  | .read _ halt next =>
      (∀ got why, W why → Q (halt got why)) ∧ ∀ got, (next got).HaltsIn W Q

theorem HaltsIn.settle {W : Halt → Prop} {Q : R → Prop} {p : ReadLoops β R}
    (h : p.HaltsIn W Q) : p.settle.HaltsIn W Q := by
  induction p with
  | done r => trivial
  | read n halt next ih =>
      cases n with
      | zero => exact ih [] (h.2 [])
      | succ n => exact h

theorem HaltsIn.advance {W : Halt → Prop} {Q : R → Prop} {n : ℕ}
    {halt : List β → Halt → R} {next : List β → ReadLoops β R}
    (h : (ReadLoops.read n halt next).HaltsIn W Q) (got : List β) :
    (advance got n halt next).HaltsIn W Q := by
  refine HaltsIn.settle ⟨?_, ?_⟩
  · intro more why hwhy
    exact h.1 (got ++ more) why hwhy
  · intro more
    exact h.2 (got ++ more)

theorem settle_advance (got : List β) (n : ℕ) (halt : List β → Halt → R)
    (next : List β → ReadLoops β R) :
    (advance got n halt next).settle = advance got n halt next :=
  settle_settle _

/-- No answer fails with an errno the loop does not retry. -/
def Benign (retry : ℕ → Bool) (as : List ReadAnswer) : Prop :=
  ∀ e, ReadAnswer.fail e ∈ as → retry e = true

/-- Does the answer deliver bytes? -/
def isGrant : ReadAnswer → Bool
  | .upTo _ => true
  | .fail _ => false

def grants (as : List ReadAnswer) : ℕ := as.countP isGrant

theorem Benign.tail {retry : ℕ → Bool} {a : ReadAnswer} {as : List ReadAnswer}
    (h : Benign retry (a :: as)) : Benign retry as :=
  fun e he => h e (List.mem_cons_of_mem _ he)

theorem Benign.head {retry : ℕ → Bool} {a : ReadAnswer} {as : List ReadAnswer}
    (h : Benign retry (a :: as)) : ∀ e, a = .fail e → retry e = true :=
  fun e he => h e (by simp [he])

/-- What a step leaves in the stream, in length. -/
theorem step_length_le (retry : ℕ → Bool) (p : ReadLoops β R) (a : ReadAnswer)
    (inb : Inbound β) : (p.step retry a inb).2.bytes.length ≤ inb.bytes.length := by
  cases p with
  | done r => exact le_rfl
  | read n halt next =>
      cases a with
      | fail e =>
          simp only [step]
          split <;> exact le_rfl
      | upTo k =>
          simp only [step]
          split
          · exact le_rfl
          · simp

/-- Runs that end, from their end: the program is done, or it goes on from one answer. -/
@[elab_as_elim]
theorem run_induction {retry : ℕ → Bool} {as' : List ReadAnswer} {inb' : Inbound β} {r : R}
    {motive : List ReadAnswer → ReadLoops β R → Inbound β → Prop}
    (hdone : ∀ p, p.settle = .done r → motive as' p inb')
    (hread : ∀ a as p inb n halt next, p.settle = .read n halt next →
      run retry as ((read n halt next).step retry a inb).1
        ((read n halt next).step retry a inb).2 = some (r, as', inb') →
      motive as ((read n halt next).step retry a inb).1
        ((read n halt next).step retry a inb).2 → motive (a :: as) p inb)
    {as : List ReadAnswer} {p : ReadLoops β R} {inb : Inbound β}
    (h : run retry as p inb = some (r, as', inb')) : motive as p inb := by
  induction as generalizing p inb with
  | nil =>
      rw [run] at h
      cases hs : p.settle with
      | done r' =>
          simp only [hs, Option.some.injEq, Prod.mk.injEq] at h
          obtain ⟨rfl, rfl, rfl⟩ := h
          exact hdone p hs
      | read n halt next => simp [hs] at h
  | cons a as ih =>
      rw [run] at h
      cases hs : p.settle with
      | done r' =>
          simp only [hs, Option.some.injEq, Prod.mk.injEq] at h
          obtain ⟨rfl, rfl, rfl⟩ := h
          exact hdone p hs
      | read n halt next =>
          rw [hs] at h
          exact hread a as p inb n halt next hs h (ih h)

/-- **Fragmentation does not matter.** A run that ends gives what `eval`
gives, for any two ways of answering alike. -/
theorem run_eq_eval {retry : ℕ → Bool} {as as' : List ReadAnswer} {p : ReadLoops β R}
    {inb inb' : Inbound β} {r : R} (ha : Benign retry as)
    (h : run retry as p inb = some (r, as', inb')) : p.eval inb = (r, inb') := by
  revert ha
  refine run_induction (fun p hs _ => ?_) (fun a as p inb n halt next hs _ ih ha => ?_) h
  · rw [← eval_settle p, hs, eval]
  · have hstep := eval_step ha.head (ReadLoops.read n halt next) inb
      (by rw [← hs, settle_settle])
    rw [← eval_settle p, hs, ← hstep]
    exact ih ha.tail

/-- A grant either ends the program or takes a byte off the stream. -/
theorem step_grant (retry : ℕ → Bool) {n : ℕ} (halt : List β → Halt → R)
    (next : List β → ReadLoops β R) (k : ℕ) (inb : Inbound β) (hn : 0 < n) :
    (∃ r, ((ReadLoops.read n halt next).step retry (.upTo k) inb).1 = .done r) ∨
      ((ReadLoops.read n halt next).step retry (.upTo k) inb).2.bytes.length <
        inb.bytes.length := by
  simp only [step]
  by_cases hb : inb.bytes = []
  · rw [if_pos hb]
    exact Or.inl ⟨_, rfl⟩
  · rw [if_neg hb]
    have hpos : 0 < inb.bytes.length := List.length_pos_iff.mpr hb
    right
    simp only [List.length_drop]
    omega

theorem run_done (retry : ℕ → Bool) (as : List ReadAnswer) (r : R) (inb : Inbound β) :
    run retry as (.done r) inb = some (r, as, inb) := by
  cases as <;> rfl

/-- **Progress.** One grant more than there are bytes suffices, and a run uses
up at most that many. -/
theorem run_of_grants {retry : ℕ → Bool} {as : List ReadAnswer} {p : ReadLoops β R}
    {inb : Inbound β} (ha : Benign retry as) (hg : inb.bytes.length < grants as) :
    ∃ r as' inb', run retry as p inb = some (r, as', inb') ∧ Benign retry as' ∧
      grants as + inb'.bytes.length ≤ grants as' + inb.bytes.length + 1 := by
  induction as generalizing p inb with
  | nil => simp [grants] at hg
  | cons a as ih =>
      rw [run]
      cases hs : p.settle with
      | done r => exact ⟨r, a :: as, inb, rfl, ha, by omega⟩
      | read n halt next =>
          have hn : 0 < n := settle_read_pos hs
          cases a with
          | fail e =>
              have hr : retry e = true := ha.head e rfl
              have hstep : (ReadLoops.read n halt next).step retry (.fail e) inb =
                  (.read n halt next, inb) := by simp [step, hr]
              have hg' : grants (.fail e :: as) = grants as := by
                simp [grants, isGrant]
              simp only [hstep]
              rw [hg'] at hg ⊢
              exact ih ha.tail hg
          | upTo k =>
              have hg' : grants (.upTo k :: as) = grants as + 1 :=
                List.countP_cons_of_pos rfl
              rw [hg'] at hg ⊢
              rcases step_grant retry halt next k inb hn with ⟨r, hr⟩ | hlt
              · have hle := step_length_le retry (.read n halt next) (.upTo k) inb
                simp only [hr, run_done]
                exact ⟨r, as, _, rfl, ha.tail, by omega⟩
              · obtain ⟨r, as', inb', hrun, hb, hle⟩ :=
                  ih (p := ((ReadLoops.read n halt next).step retry (.upTo k) inb).1)
                    ha.tail (lt_of_lt_of_le hlt (by omega))
                exact ⟨r, as', inb', hrun, hb, by omega⟩

theorem HaltsIn.step_upTo {W : Halt → Prop} {Q : R → Prop} {p : ReadLoops β R}
    (h : p.HaltsIn W Q) (retry : ℕ → Bool) (k : ℕ) (inb : Inbound β) :
    (p.step retry (.upTo k) inb).1.HaltsIn W Q := by
  cases p with
  | done r => trivial
  | read n halt next =>
      simp only [step]
      split_ifs
      · trivial
      · exact h.advance _

/-- The answers left are the last ones. -/
theorem run_suffix {retry : ℕ → Bool} {as as' : List ReadAnswer} {p : ReadLoops β R}
    {inb inb' : Inbound β} {r : R} (h : run retry as p inb = some (r, as', inb')) :
    as' <:+ as := by
  refine run_induction (fun p _ => ?_) (fun a as p inb n halt next _ _ ih => ?_) h
  · exact List.suffix_refl as'
  · exact ih.trans (List.suffix_cons a as)

/-- A run that ends with its last answer, and had one it does not retry, was
cut short by that one. -/
theorem run_of_failure {retry : ℕ → Bool} {as : List ReadAnswer} {W : Halt → Prop}
    {Q : R → Prop} {p : ReadLoops β R} {inb inb' : Inbound β} {r : R} (hp : p.HaltsIn W Q)
    (hW : ∀ e, ReadAnswer.fail e ∈ as → retry e = false → W (.error e))
    (ha : ¬ Benign retry as) (h : run retry as p inb = some (r, [], inb')) : Q r := by
  revert hp hW ha
  refine run_induction (fun p _ _ _ ha => ?_)
    (fun a as p inb n halt next hs hrun ih hp hW ha => ?_) h
  · exact absurd (fun e he => absurd he List.not_mem_nil) ha
  · have hW' : ∀ e, ReadAnswer.fail e ∈ as → retry e = false → W (.error e) :=
      fun e he => hW e (List.mem_cons_of_mem _ he)
    have hp' := hp.settle
    rw [hs] at hp'
    cases a with
    | upTo k =>
        have ha' : ¬ Benign retry as := fun hb => ha fun e he =>
          hb e ((List.mem_cons.mp he).resolve_left (by simp))
        exact ih (hp'.step_upTo retry k inb) hW' ha'
    | fail e =>
        cases hr : retry e with
        | true =>
            have ha' : ¬ Benign retry as := by
              intro hb
              apply ha
              intro e' he'
              rcases List.mem_cons.mp he' with heq | hmem
              · rw [ReadAnswer.fail.inj heq, hr]
              · exact hb e' hmem
            have hstep : (ReadLoops.read n halt next).step retry (.fail e) inb =
                (.read n halt next, inb) := by simp [step, hr]
            rw [hstep] at ih
            exact ih hp' hW' ha'
        | false =>
            have hstep : (ReadLoops.read n halt next).step retry (.fail e) inb =
                (.done (halt [] (.error e)), inb) := by simp [step, hr]
            rw [hstep, run_done, Option.some.injEq, Prod.mk.injEq] at hrun
            rw [← hrun.1]
            exact hp'.1 [] _ (hW e (by simp) hr)

end ReadLoops

/-! ## Writers -/

/-- `write bs halt next` sends all of `bs` and goes on; `halt` is the result
when the loop is cut short. -/
inductive WriteLoops (β R : Type) where
  | done (r : R)
  | write (bs : List β) (halt : Halt → R) (next : WriteLoops β R)

namespace WriteLoops

/-- An empty buffer makes no call. -/
def settle : WriteLoops β R → WriteLoops β R
  | .done r => .done r
  | .write [] _ next => next.settle
  | .write (b :: bs) halt next => .write (b :: bs) halt next

/-- One write call, offering everything the current loop still has; the
second component is what the call put on the stream. -/
def step (retry : ℕ → Bool) (p : WriteLoops β R) (a : WriteAnswer) :
    WriteLoops β R × List β :=
  match p with
  | .done r => (.done r, [])
  | .write bs halt next =>
      match a with
      | .fail e => if retry e then (p, []) else (.done (halt (.error e)), [])
      | .wrote 0 => (.done (halt .closed), [])
      | .wrote (k + 1) =>
          ((WriteLoops.write (bs.drop (k + 1)) halt next).settle, bs.take (k + 1))

/-- Run on a list of answers, collecting what each call put on the stream. -/
def run (retry : ℕ → Bool) : List WriteAnswer → WriteLoops β R →
    Option (R × List (List β) × List WriteAnswer)
  | [], p =>
      match p.settle with
      | .done r => some (r, [], [])
      | .write _ _ _ => none
  | a :: as, p =>
      match p.settle with
      | .done r => some (r, [], a :: as)
      | q@(.write _ _ _) =>
          match run retry as (q.step retry a).1 with
          | none => none
          | some (r, chunks, as') => some (r, (q.step retry a).2 :: chunks, as')

/-- Everything the program sends if nothing goes wrong. -/
def bytes : WriteLoops β R → List β
  | .done _ => []
  | .write bs _ next => bs ++ next.bytes

/-- Its result if nothing goes wrong. -/
def final : WriteLoops β R → R
  | .done r => r
  | .write _ _ next => next.final

@[simp] theorem bytes_settle (p : WriteLoops β R) : p.settle.bytes = p.bytes := by
  induction p with
  | done r => rfl
  | write bs halt next ih =>
      cases bs with
      | nil => simp [settle, bytes, ih]
      | cons b bs => rfl

@[simp] theorem final_settle (p : WriteLoops β R) : p.settle.final = p.final := by
  induction p with
  | done r => rfl
  | write bs halt next ih =>
      cases bs with
      | nil => simp [settle, final, ih]
      | cons b bs => rfl

theorem settle_write_ne_nil {p : WriteLoops β R} {bs : List β} {halt : Halt → R}
    {next : WriteLoops β R} (h : p.settle = .write bs halt next) : bs ≠ [] := by
  induction p with
  | done r => simp [settle] at h
  | write bs' halt' next' ih =>
      cases bs' with
      | nil => exact ih h
      | cons b bs' =>
          simp only [settle, WriteLoops.write.injEq] at h
          rw [← h.1]
          simp

/-- A positive count, or an errno the loop retries. -/
def BenignAnswer (retry : ℕ → Bool) (a : WriteAnswer) : Prop :=
  a ≠ .wrote 0 ∧ ∀ e, a = .fail e → retry e = true

instance BenignAnswer.decidable (retry : ℕ → Bool) :
    ∀ a, Decidable (BenignAnswer retry a)
  | .wrote 0 => .isFalse fun h => h.1 rfl
  | .wrote (_ + 1) => .isTrue ⟨by simp, by simp⟩
  | .fail e => decidable_of_iff (retry e = true) ⟨fun h => ⟨by simp, by simp [h]⟩,
      fun h => h.2 e rfl⟩

def Benign (retry : ℕ → Bool) (as : List WriteAnswer) : Prop :=
  ∀ a ∈ as, BenignAnswer retry a

def isGrant : WriteAnswer → Bool
  | .wrote k => k != 0
  | .fail _ => false

def grants (as : List WriteAnswer) : ℕ := as.countP isGrant

/-- **One step.** A benign answer moves a prefix of the remaining bytes onto
the stream and keeps the result. -/
theorem step_benign {retry : ℕ → Bool} {a : WriteAnswer} (ha : BenignAnswer retry a)
    (p : WriteLoops β R) :
    (p.step retry a).2 ++ (p.step retry a).1.bytes = p.bytes ∧
      (p.step retry a).1.final = p.final := by
  cases p with
  | done r => exact ⟨rfl, rfl⟩
  | write bs halt next =>
      cases a with
      | fail e => simp [step, ha.2 e rfl]
      | wrote k =>
          cases k with
          | zero => exact absurd rfl ha.1
          | succ k =>
              simp only [step, bytes_settle, final_settle, bytes, final, and_true]
              rw [← List.append_assoc, List.take_append_drop]

/-- Runs that end, from their end: the program is done, or it goes on from one answer. -/
@[elab_as_elim]
theorem run_induction {retry : ℕ → Bool} {as' : List WriteAnswer} {r : R}
    {motive : List WriteAnswer → WriteLoops β R → List (List β) → Prop}
    (hdone : ∀ p, p.settle = .done r → motive as' p [])
    (hwrite : ∀ a as p chunks bs halt next, p.settle = .write bs halt next →
      run retry as ((write bs halt next).step retry a).1 = some (r, chunks, as') →
      motive as ((write bs halt next).step retry a).1 chunks →
      motive (a :: as) p (((write bs halt next).step retry a).2 :: chunks))
    {as : List WriteAnswer} {p : WriteLoops β R} {chunks : List (List β)}
    (h : run retry as p = some (r, chunks, as')) : motive as p chunks := by
  induction as generalizing p chunks with
  | nil =>
      rw [run] at h
      cases hs : p.settle with
      | done r' =>
          simp only [hs, Option.some.injEq, Prod.mk.injEq] at h
          obtain ⟨rfl, rfl, rfl⟩ := h
          exact hdone p hs
      | write bs halt next => simp [hs] at h
  | cons a as ih =>
      rw [run] at h
      cases hs : p.settle with
      | done r' =>
          simp only [hs, Option.some.injEq, Prod.mk.injEq] at h
          obtain ⟨rfl, rfl, rfl⟩ := h
          exact hdone p hs
      | write bs halt next =>
          rw [hs] at h
          simp only at h
          cases hrun : run retry as ((WriteLoops.write bs halt next).step retry a).1 with
          | none => simp [hrun] at h
          | some o =>
              obtain ⟨r', chunks', as''⟩ := o
              simp only [hrun, Option.some.injEq, Prod.mk.injEq] at h
              obtain ⟨rfl, rfl, rfl⟩ := h
              exact hwrite a as p chunks' bs halt next hs hrun (ih hrun)

/-- **Fragmentation does not matter.** A run on benign answers puts exactly
the program's bytes on the stream. -/
theorem run_benign {retry : ℕ → Bool} {as as' : List WriteAnswer} {p : WriteLoops β R}
    {r : R} {chunks : List (List β)} (ha : Benign retry as)
    (h : run retry as p = some (r, chunks, as')) :
    chunks.flatten = p.bytes ∧ r = p.final := by
  revert ha
  refine run_induction (fun p hs _ => ?_) (fun a as p chunks bs halt next hs _ ih ha => ?_) h
  · rw [← bytes_settle p, ← final_settle p, hs]
    exact ⟨rfl, rfl⟩
  · obtain ⟨hbytes, hfinal⟩ := step_benign (ha a (by simp)) (WriteLoops.write bs halt next)
    obtain ⟨hc, hr⟩ := ih fun b hb => ha b (List.mem_cons_of_mem _ hb)
    rw [← bytes_settle p, ← final_settle p, hs, ← hbytes, ← hfinal, List.flatten_cons, hc]
    exact ⟨rfl, hr⟩

/-- A grant takes a byte off what remains. -/
theorem step_grant (retry : ℕ → Bool) {bs : List β} (halt : Halt → R)
    (next : WriteLoops β R) (k : ℕ) (hbs : bs ≠ []) :
    ((WriteLoops.write bs halt next).step retry (.wrote (k + 1))).1.bytes.length <
      (WriteLoops.write bs halt next).bytes.length := by
  have hpos : 0 < bs.length := List.length_pos_iff.mpr hbs
  simp only [step, bytes_settle, bytes, List.length_append, List.length_drop]
  omega

/-- **Progress.** As many grants as there are bytes suffice, and a run uses up
at most that many. -/
theorem run_of_grants {retry : ℕ → Bool} {as : List WriteAnswer} {p : WriteLoops β R}
    (ha : Benign retry as) (hg : p.bytes.length ≤ grants as) :
    ∃ r chunks as', run retry as p = some (r, chunks, as') ∧ Benign retry as' ∧
      grants as ≤ grants as' + p.bytes.length := by
  induction as generalizing p with
  | nil =>
      rw [run]
      cases hs : p.settle with
      | done r => exact ⟨r, [], [], rfl, ha, by omega⟩
      | write bs halt next =>
          have hne := settle_write_ne_nil hs
          rw [← bytes_settle p, hs, bytes] at hg
          simp [grants, hne] at hg
  | cons a as ih =>
      have hat : Benign retry as := fun b hb => ha b (List.mem_cons_of_mem _ hb)
      rw [run]
      cases hs : p.settle with
      | done r => exact ⟨r, [], a :: as, rfl, ha, by omega⟩
      | write bs halt next =>
          have hne := settle_write_ne_nil hs
          rw [← bytes_settle p, hs] at hg ⊢
          cases a with
          | fail e =>
              have hr : retry e = true := (ha _ (by simp)).2 e rfl
              have hstep : (WriteLoops.write bs halt next).step retry (.fail e) =
                  (.write bs halt next, []) := by simp [step, hr]
              have hg' : grants (.fail e :: as) = grants as := by simp [grants, isGrant]
              rw [hg'] at hg ⊢
              obtain ⟨r, chunks, as', hrun, hb, hle⟩ := ih hat hg
              simp only [hstep, hrun]
              exact ⟨r, [] :: chunks, as', rfl, hb, hle⟩
          | wrote k =>
              cases k with
              | zero => exact absurd rfl (ha _ (by simp)).1
              | succ k =>
                  have hlt := step_grant retry halt next k hne
                  have hg' : grants (.wrote (k + 1) :: as) = grants as + 1 := by
                    simp [grants, isGrant]
                  rw [hg'] at hg ⊢
                  obtain ⟨r, chunks, as', hrun, hb, hle⟩ :=
                    ih (p := ((WriteLoops.write bs halt next).step retry (.wrote (k + 1))).1)
                      hat (by omega)
                  simp only [hrun]
                  exact ⟨r, _ :: chunks, as', rfl, hb, by omega⟩

/-- The answers left are the last ones. -/
theorem run_suffix {retry : ℕ → Bool} {as as' : List WriteAnswer} {p : WriteLoops β R}
    {r : R} {chunks : List (List β)} (h : run retry as p = some (r, chunks, as')) :
    as' <:+ as := by
  refine run_induction (fun p _ => ?_) (fun a as p chunks bs halt next _ _ ih => ?_) h
  · exact List.suffix_refl as'
  · exact ih.trans (List.suffix_cons a as)

theorem run_done (retry : ℕ → Bool) (as : List WriteAnswer) (r : R) :
    run retry as (.done r : WriteLoops β R) = some (r, [], as) := by
  cases as <;> rfl

theorem run_settle (retry : ℕ → Bool) (as : List WriteAnswer) (p : WriteLoops β R) :
    run retry as p.settle = run retry as p := by
  have hidem : p.settle.settle = p.settle := by
    induction p with
    | done r => rfl
    | write bs halt next ih =>
        cases bs with
        | nil => exact ih
        | cons b bs => rfl
  cases as <;> rw [run, run, hidem]

/-- What becomes of one loop: its bytes are out with these answers left, or it is cut
short, or it waits for more answers. -/
inductive Outcome where
  | waiting
  | cut (why : Halt)
  | out (left : List WriteAnswer)

/-- A loop with `n` bytes to send. -/
def outcome (retry : ℕ → Bool) : ℕ → List WriteAnswer → Outcome
  | 0, as => .out as
  | _ + 1, [] => .waiting
  | n + 1, .fail e :: as => if retry e then outcome retry (n + 1) as else .cut (.error e)
  | _ + 1, .wrote 0 :: _ => .cut .closed
  | n + 1, .wrote (k + 1) :: as => outcome retry (n - k) as

/-- **One loop.** It ends the run, or the rest runs on the answers it leaves. -/
theorem run_write (retry : ℕ → Bool) (as : List WriteAnswer) (bs : List β) (halt : Halt → R)
    (next : WriteLoops β R) :
    (run retry as (.write bs halt next)).map Prod.fst = match outcome retry bs.length as with
      | .waiting => none
      | .cut why => some (halt why)
      | .out left => (run retry left next).map Prod.fst := by
  induction as generalizing bs with
  | nil =>
      cases bs with
      | nil => rw [← run_settle, settle, run_settle, List.length_nil, outcome]
      | cons b bs => rfl
  | cons a as ih =>
      cases bs with
      | nil => rw [← run_settle, settle, run_settle, List.length_nil, outcome]
      | cons b bs =>
          have hrun : (run retry (a :: as) (.write (b :: bs) halt next)).map Prod.fst =
              (run retry as ((write (b :: bs) halt next).step retry a).1).map Prod.fst := by
            rw [run, settle]
            cases hnext : run retry as ((write (b :: bs) halt next).step retry a).1 with
            | none => simp [hnext]
            | some o => simp [hnext]
          rw [hrun]
          cases a with
          | fail e =>
              rw [step, List.length_cons, outcome]
              split_ifs
              · exact ih (b :: bs)
              · rw [run_done]
                rfl
          | wrote k =>
              cases k with
              | zero =>
                  rw [step, run_done]
                  rfl
              | succ k =>
                  have hlen : ((b :: bs).drop (k + 1)).length = bs.length - k := by simp
                  rw [step, run_settle, ih, hlen]
                  rfl

/-- Cut short for a reason in `W`, the program gives a result in `Q`. -/
def HaltsIn (W : Halt → Prop) (Q : R → Prop) : WriteLoops β R → Prop
  | .done _ => True
  | .write _ halt next => (∀ why, W why → Q (halt why)) ∧ next.HaltsIn W Q

theorem HaltsIn.settle {W : Halt → Prop} {Q : R → Prop} {p : WriteLoops β R}
    (h : p.HaltsIn W Q) : p.settle.HaltsIn W Q := by
  induction p with
  | done r => trivial
  | write bs halt next ih =>
      cases bs with
      | nil => exact ih h.2
      | cons b bs => exact h

/-- A step goes on with the program, or ends it with a result in `Q`. -/
theorem HaltsIn.step {retry : ℕ → Bool} {W : Halt → Prop} {Q : R → Prop} {bs : List β}
    {halt : Halt → R} {next : WriteLoops β R} (hp : (write bs halt next).HaltsIn W Q)
    {a : WriteAnswer} (hclosed : W .closed) (ha : ∀ e, a = .fail e → W (.error e)) :
    (((write bs halt next).step retry a).1.HaltsIn W Q ∧
        ((write bs halt next).step retry a).1.final = (write bs halt next).final) ∨
      ∃ q, ((write bs halt next).step retry a).1 = .done q ∧ Q q := by
  cases a with
  | fail e =>
      simp only [WriteLoops.step]
      split_ifs
      · exact Or.inl ⟨hp, rfl⟩
      · exact Or.inr ⟨_, rfl, hp.1 _ (ha e rfl)⟩
  | wrote k =>
      cases k with
      | zero => exact Or.inr ⟨_, rfl, hp.1 _ hclosed⟩
      | succ k =>
          left
          simp only [WriteLoops.step, final_settle]
          exact ⟨HaltsIn.settle hp, rfl⟩

/-- Whatever the answers, a run that ends was cut short or came to its end. -/
theorem run_final_or {retry : ℕ → Bool} {as as' : List WriteAnswer} {W : Halt → Prop}
    {Q : R → Prop} {p : WriteLoops β R} {r : R} {chunks : List (List β)}
    (hp : p.HaltsIn W Q) (hclosed : W .closed)
    (hW : ∀ e, WriteAnswer.fail e ∈ as → W (.error e))
    (h : run retry as p = some (r, chunks, as')) : r = p.final ∨ Q r := by
  revert hp hW
  refine run_induction (fun p hs _ _ => ?_)
    (fun a as p chunks bs halt next hs hrun ih hp hW => ?_) h
  · left
    rw [← final_settle p, hs]
    rfl
  · have hp' := hp.settle
    rw [hs] at hp'
    have hW' : ∀ e, WriteAnswer.fail e ∈ as → W (.error e) :=
      fun e he => hW e (List.mem_cons_of_mem _ he)
    have ha : ∀ e, a = .fail e → W (.error e) := fun e he => hW e (by simp [he])
    rcases hp'.step hclosed ha with ⟨hgoes, hfinal⟩ | ⟨q, hq, hQ⟩
    · rw [← final_settle p, hs, ← hfinal]
      exact ih hgoes hW'
    · rw [hq, run_done, Option.some.injEq, Prod.mk.injEq] at hrun
      rw [← hrun.1]
      exact Or.inr hQ

end WriteLoops

/-! ## Endless schedules -/

/-- The first `n` answers of an endless schedule. -/
def firstAnswers {α : Type} (σ : ℕ → α) (n : ℕ) : List α := (List.range n).map σ

/-- A property that recurs for ever is met as often as one likes. -/
theorem exists_countP_firstAnswers {α : Type} {σ : ℕ → α} {good : α → Bool}
    (h : ∀ i, ∃ j, i ≤ j ∧ good (σ j) = true) (m : ℕ) :
    ∃ n, m ≤ (firstAnswers σ n).countP good := by
  induction m with
  | zero => exact ⟨0, Nat.zero_le _⟩
  | succ m ih =>
      obtain ⟨n, hn⟩ := ih
      obtain ⟨j, hj, hgood⟩ := h n
      refine ⟨j + 1, ?_⟩
      have hprefix : (firstAnswers σ n).countP good ≤ (firstAnswers σ j).countP good := by
        apply List.Sublist.countP_le
        exact (List.range_sublist.mpr hj).map σ
      simp only [firstAnswers, List.range_succ, List.map_append, List.countP_append,
        List.map_cons, List.map_nil, List.countP_singleton, hgood, if_true] at *
      omega

/-- Every read failure is retried, and bytes are delivered again and again. -/
structure FairReads (retry : ℕ → Bool) (σ : ℕ → ReadAnswer) : Prop where
  benign : ∀ i e, σ i = .fail e → retry e = true
  recurs : ∀ i, ∃ j, i ≤ j ∧ ReadLoops.isGrant (σ j) = true

/-- Every write failure is retried, no write returns zero, and bytes are
accepted again and again. -/
structure FairWrites (retry : ℕ → Bool) (σ : ℕ → WriteAnswer) : Prop where
  benign : ∀ i, WriteLoops.BenignAnswer retry (σ i)
  recurs : ∀ i, ∃ j, i ≤ j ∧ WriteLoops.isGrant (σ j) = true

theorem FairReads.firstAnswers_benign {retry : ℕ → Bool} {σ : ℕ → ReadAnswer}
    (h : FairReads retry σ) (n : ℕ) : ReadLoops.Benign retry (firstAnswers σ n) := by
  intro e he
  obtain ⟨i, -, hi⟩ := List.mem_map.mp he
  exact h.benign i e hi

theorem FairWrites.firstAnswers_benign {retry : ℕ → Bool} {σ : ℕ → WriteAnswer}
    (h : FairWrites retry σ) (n : ℕ) : WriteLoops.Benign retry (firstAnswers σ n) := by
  intro a ha
  obtain ⟨i, -, rfl⟩ := List.mem_map.mp ha
  exact h.benign i

theorem FairReads.exists_grants {retry : ℕ → Bool} {σ : ℕ → ReadAnswer}
    (h : FairReads retry σ) (m : ℕ) : ∃ n, m ≤ ReadLoops.grants (firstAnswers σ n) :=
  exists_countP_firstAnswers h.recurs m

theorem FairWrites.exists_grants {retry : ℕ → Bool} {σ : ℕ → WriteAnswer}
    (h : FairWrites retry σ) (m : ℕ) : ∃ n, m ≤ WriteLoops.grants (firstAnswers σ n) :=
  exists_countP_firstAnswers h.recurs m

end Transfer

/-
  ItbCpp.Loop.Mismatch
  ────────────────────
  **THE EVIDENCE OF A MISMATCH** (`loop/worker.cpp`).

  A round trip is judged by the sizes and `memcmp`; what is reported of a
  mismatch comes from `first_difference` and `hex_window`, which look at the
  buffers again.  A read outside of a buffer has no value here.

    • `mismatched_iff` — the test is that the buffers differ,
    • `firstDifference_spec` — the offset reported is the length of their
      longest common prefix,
    • `hexWindow_eq` — a window is the text of the bytes from there on,
    • `mismatch_evidence` — and the two windows are never the same.
-/
import ItbCpp.Lib.CNumber
import ItbCpp.Lib.Hex
import ItbCpp.Loop.Threads

namespace ItbCpp.Loop

/-! ## §1. The code. -/

/-- `memcmp` over `n` bytes. -/
def memcmp : Nat → Bytes → Bytes → Option Int
  | 0, _, _ => some 0
  | n + 1, x :: a, y :: b => if x = y then memcmp n a b else some ((x.toNat : Int) - y.toNat)
  | _ + 1, _, _ => none

/-- The test of `iterate`. -/
def mismatched (plaintext got : Bytes) : Option Bool :=
  if got.length ≠ plaintext.length then some true
  else (memcmp plaintext.length plaintext got).map fun c => decide (c ≠ 0)

/-- The loop of `first_difference`, from `i` on. -/
def differenceFrom (a b : Bytes) (n i : Nat) : Option Nat :=
  if i < n then
    a[i]?.bind fun x => b[i]?.bind fun y =>
      if x ≠ y then some i else differenceFrom a b n (i + 1)
  else some n
termination_by n - i

/-- `first_difference`. -/
def firstDifference (a b : Bytes) : Option Nat :=
  let n := if a.length < b.length then a.length else b.length
  differenceFrom a b n 0

/-- The loop of `hex_window`, from `i` on. -/
def windowFrom (buf : Bytes) (end_ i : Nat) (out : Bytes) : Option Bytes :=
  if i < end_ then buf[i]?.bind fun b => windowFrom buf end_ (i + 1) (out ++ Hex.byte b)
  else some out
termination_by end_ - i

/-- `hex_window`. -/
def hexWindow (buf : Bytes) (off : Nat) : Option Bytes :=
  if off ≥ buf.length then some (text "-")
  else
    let end_ := if off + 16 < buf.length then off + 16 else buf.length
    windowFrom buf end_ off []

/-- What is reported of a mismatch. -/
structure Evidence where
  off : Nat
  want : Bytes
  got : Bytes
  deriving DecidableEq

/-- The offset and the two windows. -/
def evidence (plaintext got : Bytes) : Option Evidence := do
  let off ← firstDifference plaintext got
  let want ← hexWindow plaintext off
  let shown ← hexWindow got off
  pure { off, want, got := shown }

/-- The line that is printed of them. -/
def mismatchLine (id iter : Nat) (shape : Shape) (plaintext got : Bytes) (e : Evidence) : Bytes :=
  text "DATA MISMATCH " ++ place id iter ++ text " shape=" ++ text shape.name ++
    text ": want " ++ CNumber.natDecimal plaintext.length ++ text " bytes, got " ++
    CNumber.natDecimal got.length ++ text " bytes, first difference at offset " ++
    CNumber.natDecimal e.off ++ text ": want " ++ e.want ++ text " got " ++ e.got

/-- The counters of a round trip that matched. -/
def countTrip (got : Bytes) : Task Bool := do
  ask (.setSelf fun w => { w with iters := w.iters + 1 })
  ask (.setSelf fun w => { w with bytesEnc := w.bytesEnc + w.plaintext.length })
  ask (.setSelf fun w => { w with bytesDec := w.bytesDec + got.length })
  pure true

/-- What follows the round trip, with the test of the source. -/
def settleCompared (got : Bytes) : Task Bool := do
  let w ← ask .self
  match mismatched w.plaintext got with
  | some false => countTrip got
  | _ => do
      -- the line, and `std::_Exit(3)`
      ask (.exit 3)
      Thread.spin

/-! ## §2. The test. -/

theorem memcmp_spec (a : Bytes) : ∀ b : Bytes, b.length = a.length →
    ∃ c, memcmp a.length a b = some c ∧ (c = 0 ↔ a = b) := by
  induction a with
  | nil =>
      intro b hlen
      rw [List.length_eq_zero_iff.mp hlen]
      exact ⟨0, rfl, by simp⟩
  | cons x a ih =>
      intro b hlen
      cases b with
      | nil => cases hlen
      | cons y b =>
          have hlen : b.length = a.length := Nat.succ.inj hlen
          by_cases hxy : x = y
          · obtain ⟨c, hc, hiff⟩ := ih b hlen
            refine ⟨c, ?_, ?_⟩
            · rw [List.length_cons, memcmp, if_pos hxy, hc]
            · rw [hiff, hxy]
              simp
          · refine ⟨(x.toNat : Int) - y.toNat, ?_, ?_⟩
            · rw [List.length_cons, memcmp, if_neg hxy]
            · have hne : x.toNat ≠ y.toNat := fun h => hxy (UInt8.toNat_inj.mp h)
              simp only [List.cons.injEq, hxy, false_and, iff_false]
              omega

/-- **The test is that the buffers differ.** -/
theorem mismatched_iff (plaintext got : Bytes) :
    mismatched plaintext got = some (decide (plaintext ≠ got)) := by
  unfold mismatched
  by_cases hlen : got.length = plaintext.length
  · obtain ⟨c, hc, hiff⟩ := memcmp_spec plaintext got hlen
    rw [if_neg (not_not.mpr hlen), hc, Option.map_some]
    simp [hiff]
  · have hne : plaintext ≠ got := fun h => hlen (by rw [h])
    rw [if_pos hlen]
    simp [hne]

/-- `iterate` goes on as the rest of this development has it. -/
theorem settle_eq (got : Bytes) : settle got = settleCompared got := by
  unfold settle settleCompared
  refine congrArg (ask .self >>= ·) (funext fun w => ?_)
  rw [mismatched_iff]
  by_cases h : got = w.plaintext
  · rw [if_neg (not_not.mpr h)]
    simp [h, countTrip]
  · have h' : ¬ w.plaintext = got := fun heq => h heq.symm
    rw [if_pos h]
    simp [h']

/-- Once the worker's record is there, the thread leaves by `std::_Exit(3)`. -/
def TakesExit (m : Task Bool) (w : Worker) : Prop :=
  ∃ k k', m = .ask .self k ∧ k w = .ask (.exit 3) k'

/-- **The exit is taken exactly when the buffers differ.** -/
theorem settle_exit_iff (w : Worker) (got : Bytes) :
    TakesExit (settleCompared got) w ↔ w.plaintext ≠ got := by
  have hsettle : settleCompared got = .ask .self fun w =>
      if got ≠ w.plaintext then .ask (.exit 3) fun _ => .spin else countTrip got :=
    (settle_eq got).symm
  constructor
  · intro h heq
    obtain ⟨k, k', hk, hexit⟩ := h
    rw [hsettle] at hk
    obtain ⟨-, hbody⟩ := Thread.ask.inj hk
    have hw := congrFun (eq_of_heq hbody) w
    rw [if_neg (not_not.mpr heq.symm), hexit] at hw
    -- a matched trip goes on with the counters
    cases hw
  · intro hne
    refine ⟨_, fun _ => .spin, hsettle, ?_⟩
    exact if_pos (Ne.symm hne)

/-! ## §3. The first difference. -/

/-- `p` is the longest list that both begin with. -/
def LongestCommon {α : Type} (p a b : List α) : Prop :=
  p <+: a ∧ p <+: b ∧ ∀ q, q <+: a → q <+: b → q.length ≤ p.length

section Difference

variable {a b : Bytes}

/-- The loop: up to the offset nothing differs, and there something does
unless it is the end. -/
theorem differenceFrom_spec {n : Nat} (ha : n ≤ a.length) (hb : n ≤ b.length) (i : Nat)
    (hi : i ≤ n) :
    ∃ off, differenceFrom a b n i = some off ∧ i ≤ off ∧ off ≤ n ∧
      (∀ j, i ≤ j → j < off → a[j]? = b[j]?) ∧ (off < n → a[off]? ≠ b[off]?) := by
  induction hk : n - i generalizing i with
  | zero =>
      unfold differenceFrom
      rw [if_neg (by omega)]
      exact ⟨n, rfl, hi, Nat.le_refl n, fun j hij hj => by omega, fun h => by omega⟩
  | succ k ih =>
      have hx : a[i]? = some a[i] := List.getElem?_eq_getElem (by omega)
      have hy : b[i]? = some b[i] := List.getElem?_eq_getElem (by omega)
      unfold differenceFrom
      rw [if_pos (by omega), hx, hy, Option.bind_some, Option.bind_some]
      by_cases hxy : a[i] = b[i]
      · rw [if_neg (not_not.mpr hxy)]
        obtain ⟨off, hoff, hle, hn, hsame, hlast⟩ := ih (i + 1) (by omega) (by omega)
        refine ⟨off, hoff, by omega, hn, ?_, hlast⟩
        intro j hij hj
        rcases Nat.eq_or_lt_of_le hij with heq | hlt
        · rw [← heq, hx, hy, hxy]
        · exact hsame j hlt hj
      · rw [if_pos hxy]
        refine ⟨i, rfl, Nat.le_refl i, hi, fun j hij hj => by omega, ?_⟩
        intro _
        rw [hx, hy]
        simpa using hxy

/-- **The offset is the length of the longest common prefix.** -/
theorem firstDifference_spec (a b : Bytes) :
    ∃ off, firstDifference a b = some off ∧ LongestCommon (a.take off) a b ∧
      off ≤ a.length ∧ off ≤ b.length ∧
      (off < a.length → off < b.length → a[off]? ≠ b[off]?) := by
  obtain ⟨n, hn⟩ : ∃ n, n = if a.length < b.length then a.length else b.length := ⟨_, rfl⟩
  have ha : n ≤ a.length := by split at hn <;> omega
  have hb : n ≤ b.length := by split at hn <;> omega
  have hmin : n = a.length ∨ n = b.length := by split at hn <;> omega
  obtain ⟨off, hoff, -, hle, hsame, hlast⟩ := differenceFrom_spec ha hb 0 (Nat.zero_le n)
  have htake : a.take off = b.take off := by
    apply List.ext_getElem?
    intro j
    rw [List.getElem?_take, List.getElem?_take]
    split
    · exact hsame j (Nat.zero_le j) ‹_›
    · rfl
  have hlen : (a.take off).length = off := List.length_take_of_le (by omega)
  refine ⟨off, ?_, ⟨List.take_prefix off a, ?_, ?_⟩, by omega, by omega, ?_⟩
  · unfold firstDifference
    rw [← hn]
    exact hoff
  · rw [htake]
    exact List.take_prefix off b
  · intro q hqa hqb
    rw [hlen]
    by_contra hlong
    have hqa' := hqa.length_le
    have hqb' := hqb.length_le
    obtain ⟨ta, hta⟩ := hqa
    obtain ⟨tb, htb⟩ := hqb
    -- a longer one would hold the byte that differs
    refine hlast (by omega) ?_
    rw [← hta, ← htb, List.getElem?_append_left (by omega), List.getElem?_append_left (by omega)]
  · intro hoffa hoffb
    exact hlast (by omega)

end Difference

/-! ## §4. The windows. -/

/-- The text of at most 16 bytes from `off` on, or `-`. -/
def windowText (buf : Bytes) (off : Nat) : Bytes :=
  if off ≥ buf.length then text "-" else Hex.encode ((buf.drop off).take 16)

theorem windowFrom_eq {buf : Bytes} {end_ : Nat} (hend : end_ ≤ buf.length) (i : Nat)
    (out : Bytes) :
    windowFrom buf end_ i out = some (out ++ Hex.encode ((buf.drop i).take (end_ - i))) := by
  induction hk : end_ - i generalizing i out with
  | zero =>
      unfold windowFrom
      rw [if_neg (by omega), List.take_zero, Hex.encode_nil, List.append_nil]
  | succ k ih =>
      have hi : i < buf.length := by omega
      unfold windowFrom
      rw [if_pos (by omega), List.getElem?_eq_getElem hi, Option.bind_some,
        ih (i + 1) _ (by omega), List.drop_eq_getElem_cons hi, List.take_succ_cons,
        List.append_assoc]
      rfl

/-- **A window stays inside its buffer** and is the text of the bytes there. -/
theorem hexWindow_eq (buf : Bytes) (off : Nat) :
    hexWindow buf off = some (windowText buf off) := by
  unfold hexWindow windowText
  by_cases hoff : off ≥ buf.length
  · rw [if_pos hoff, if_pos hoff]
  · rw [if_neg hoff, if_neg hoff]
    by_cases hfull : off + 16 < buf.length
    · rw [if_pos hfull]
      show windowFrom buf (off + 16) off [] = _
      rw [windowFrom_eq (by omega), List.nil_append, Nat.add_sub_cancel_left]
    · rw [if_neg hfull]
      show windowFrom buf buf.length off [] = _
      rw [windowFrom_eq (Nat.le_refl _), List.nil_append,
        List.take_of_length_le (by rw [List.length_drop]),
        List.take_of_length_le (by rw [List.length_drop]; omega)]

/-- A window with bytes begins with the one at the offset. -/
theorem windowText_cons {buf : Bytes} {off : Nat} (h : off < buf.length) :
    ∃ bs, windowText buf off = Hex.encode (buf[off] :: bs) := by
  refine ⟨(buf.drop (off + 1)).take 15, ?_⟩
  unfold windowText
  rw [if_neg (by omega), List.drop_eq_getElem_cons h, List.take_succ_cons]

/-- Bytes are never printed as `-`. -/
theorem encode_ne_dash (b : UInt8) (bs : Bytes) : Hex.encode (b :: bs) ≠ text "-" := by
  intro h
  have hlen := congrArg List.length h
  rw [Hex.length_encode, List.length_cons] at hlen
  have hdash : (text "-").length = 1 := rfl
  omega

/-- **The windows differ**, where the buffers do or one of them has ended. -/
theorem windowText_ne {a b : Bytes} {off : Nat} (hoff : off < max a.length b.length)
    (hdiff : off < a.length → off < b.length → a[off]? ≠ b[off]?) :
    windowText a off ≠ windowText b off := by
  have hdash : ∀ c : Bytes, ¬ off < c.length → windowText c off = text "-" := by
    intro c hc
    exact if_pos (by omega)
  by_cases ha : off < a.length
  · obtain ⟨as, has⟩ := windowText_cons ha
    rw [has]
    by_cases hb : off < b.length
    · obtain ⟨bs, hbs⟩ := windowText_cons hb
      rw [hbs]
      refine Hex.encode_cons_ne ?_ as bs
      intro heq
      refine hdiff ha hb ?_
      rw [List.getElem?_eq_getElem ha, List.getElem?_eq_getElem hb, heq]
    · rw [hdash b hb]
      exact encode_ne_dash _ as
  · have hb : off < b.length := by omega
    obtain ⟨bs, hbs⟩ := windowText_cons hb
    rw [hdash a ha, hbs]
    exact (encode_ne_dash _ bs).symm

/-! ## §5. The evidence. -/

/-- The line that `iterate` prints before it leaves. -/
def mismatchReport (id iter : Nat) (shape : Shape) (plaintext got : Bytes) : Option Bytes :=
  (evidence plaintext got).map (mismatchLine id iter shape plaintext got)

/-- **THE EVIDENCE OF A MISMATCH IS CONSISTENT.**  For every pair of buffers the
exit is taken exactly when they differ.  Then the offset that is printed is the
length of their longest common prefix and below the longer length, the windows
are what `hex_window` makes of the two buffers there: the bytes from there on, at
most 16, or `-`, and never the same text. -/
theorem mismatch_evidence (w : Worker) (got : Bytes) :
    settle got = settleCompared got ∧
    (TakesExit (settleCompared got) w ↔ w.plaintext ≠ got) ∧
    (w.plaintext ≠ got → ∃ e p,
      (∀ id iter shape, mismatchReport id iter shape w.plaintext got =
        some (mismatchLine id iter shape w.plaintext got e)) ∧
      evidence w.plaintext got = some e ∧
      firstDifference w.plaintext got = some e.off ∧
      LongestCommon p w.plaintext got ∧ e.off = p.length ∧
      e.off < max w.plaintext.length got.length ∧
      hexWindow w.plaintext e.off = some e.want ∧ hexWindow got e.off = some e.got ∧
      e.want = windowText w.plaintext e.off ∧ e.got = windowText got e.off ∧
      e.want ≠ e.got) := by
  refine ⟨settle_eq got, settle_exit_iff w got, ?_⟩
  intro hne
  obtain ⟨off, hoff, hcommon, hle, hle', hdiff⟩ := firstDifference_spec w.plaintext got
  have hlen : (w.plaintext.take off).length = off := List.length_take_of_le hle
  have hbelow : off < max w.plaintext.length got.length := by
    by_contra hend
    -- with nothing left of either, the prefix is both of them
    have htake := hcommon.2.1
    rw [List.take_of_length_le (by omega)] at htake
    exact hne (htake.eq_of_length (by omega))
  have hevidence : evidence w.plaintext got =
      some ⟨off, windowText w.plaintext off, windowText got off⟩ := by
    simp only [evidence, hoff, hexWindow_eq, Option.bind_eq_bind, Option.bind_some,
      Option.pure_def]
  refine ⟨⟨off, windowText w.plaintext off, windowText got off⟩, w.plaintext.take off,
    fun id iter shape => ?_, hevidence, hoff, hcommon, hlen.symm, hbelow, hexWindow_eq _ _,
    hexWindow_eq _ _, rfl, rfl, windowText_ne hbelow hdiff⟩
  unfold mismatchReport
  rw [hevidence]
  rfl

/-- A byte was lost at the end: the window of what was got is `-`. -/
theorem mismatch_evidence_short :
    TakesExit (settleCompared [1]) { plaintext := [1, 2] } ∧
      ∃ e, evidence [1, 2] [1] = some e ∧ e.got = text "-" ∧ e.want ≠ e.got := by
  obtain ⟨-, hexit, hevidence⟩ := mismatch_evidence { plaintext := [1, 2] } [1]
  have hne : ({ plaintext := [1, 2] } : Worker).plaintext ≠ [1] := by decide
  obtain ⟨e, p, -, he, -, hcommon, hlen, -, -, -, -, hgot, hdiff⟩ := hevidence hne
  refine ⟨hexit.mpr hne, e, he, ?_, hdiff⟩
  -- both begin with the one byte that was got
  have hone : 1 ≤ e.off := by
    rw [hlen]
    exact hcommon.2.2 [1] ⟨[2], rfl⟩ ⟨[], rfl⟩
  rw [hgot]
  exact if_pos hone

end ItbCpp.Loop

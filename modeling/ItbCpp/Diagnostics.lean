/-
  ItbCpp.Diagnostics
  ──────────────────
  **DIAGNOSTICS ARE NEVER CUT** (`src/error.cpp`).

  `last_error` asks with 2 KiB first and once more at the size the library
  reports.  The text belongs to the whole process, so another thread may
  put a different one in its place between the two calls.

    • `LastErrorLib` — what `ITB_LastError` is relied on for,
    • `hears_lastError` — one complete text or none, whatever the others do,
    • `hears_fail` — the same of the text an exception carries,
    • `diagnostics_uncut` — both, and a text that stays is returned in full.
-/
import ItbCpp.Stepwise
import ItbCpp.Lib.Protocol

namespace ItbCpp

/-! ## §1. What is relied on of the library. -/

/-- `ITB_LastError`, with `diag s` the text that is current in state `s`: it
is written with its NUL when both fit, and its size is reported when they
do not. -/
structure LastErrorLib {σ : Type} (L : Lib σ) (diag : σ → Bytes) : Prop where
  nulFree : ∀ s, 0 ∉ diag s
  fits : ∀ s cap, (diag s).length + 1 ≤ cap →
    (L (.lastError cap) s).1.rc = 0 ∧ diag s ++ [0] <+: (L (.lastError cap) s).1.out
  short : ∀ s cap, cap < (diag s).length + 1 →
    (L (.lastError cap) s).1.rc = Status.bufferTooSmall.code ∧
      (L (.lastError cap) s).1.len = (diag s).length + 1

/-- What `last_error` goes through: it calls `ITB_LastError` only, every call
finds the library in some state, and nothing is said of what lies between two
of them.  It stands at the texts that were current at its calls, the latest
last. -/
def hearing {σ : Type} (L : Lib σ) (diag : σ → Bytes) :
    Protocol Ask Ask.Answer (List Bytes) where
  asks _ q := ∃ cap, q = .ffi (.lastError cap)
  told
    | ts, .ffi c, r, ts' => ∃ s, r = (L c s).1 ∧ ts' = ts ++ [diag s]
    | ts, .emit _, _, ts' => ts' = ts
  spins _ := False

/-- What `last_error` may give after calls that met the texts `ts`: nothing,
or the last of them; and if they were all the same, that text. -/
structure Heard (ts : List Bytes) (d : Bytes) : Prop where
  complete : d = [] ∨ ts.getLast? = some d
  full : ∀ t, (∀ x ∈ ts, x = t) → d = t

/-! ## §2. Reading the buffer. -/

section Reading

variable {σ : Type} {L : Lib σ} {diag : σ → Bytes}

/-- A text and its NUL in a buffer that holds both: the C string there is the
text. -/
theorem takeWhile_overlay {t out : Bytes} {cap : Nat} (hnul : 0 ∉ t) (hcap : t.length + 1 ≤ cap)
    (hout : t ++ [0] <+: out) : (Buffer.overlay (zeros cap) out).takeWhile (· != 0) = t := by
  obtain ⟨rest, rfl⟩ := hout
  have hfront : ∃ more, Buffer.overlay (zeros cap) (t ++ [0] ++ rest) = t ++ 0 :: more := by
    have hlen : (t ++ [0]).length ≤ (zeros cap).length := by
      simpa [zeros] using hcap
    have hout : (t ++ [0]).length ≤ (t ++ [0] ++ rest).length := by simp
    have htake : (Buffer.overlay (zeros cap) (t ++ [0] ++ rest)).take (t ++ [0]).length =
        t ++ [0] := (Buffer.take_overlay hout hlen).trans (List.take_left' rfl)
    refine ⟨(Buffer.overlay (zeros cap) (t ++ [0] ++ rest)).drop (t ++ [0]).length, ?_⟩
    conv => lhs; rw [← List.take_append_drop (t ++ [0]).length (Buffer.overlay _ _), htake]
    simp
  obtain ⟨more, hmore⟩ := hfront
  have hall : ∀ b ∈ t, (b != 0) = true := by
    intro b hb
    have hne : b ≠ 0 := fun h0 => hnul (h0 ▸ hb)
    simpa using hne
  rw [hmore, List.takeWhile_append_of_pos hall]
  simp

/-- A call that has room for the text reads it. -/
theorem LastErrorLib.reads (hL : LastErrorLib L diag) {s : σ} {cap : Nat}
    (hcap : (diag s).length + 1 ≤ cap) :
    (Buffer.overlay (zeros cap) (L (.lastError cap) s).1.out).takeWhile (· != 0) = diag s :=
  takeWhile_overlay (hL.nulFree s) hcap (hL.fits s cap hcap).2

/-- **`last_error`, whatever the others do.** -/
theorem hears_lastError (hL : LastErrorLib L diag) :
    Call.lastError.wp (hearing L diag) ⟨fun d ts => Heard ts d, fun _ _ => False⟩ [] := by
  unfold Call.lastError
  rw [Thread.wp_bind]
  refine ⟨⟨2048, rfl⟩, fun r ts hr => ?_⟩
  obtain ⟨s, rfl, rfl⟩ := hr
  show Thread.wp _ (if _ then _ else if _ then _ else _) _ _
  rw [List.nil_append]
  have hlast : Heard [diag s] (diag s) :=
    ⟨Or.inr rfl, fun t ht => ht _ (List.mem_singleton_self _)⟩
  -- the 2 KiB hold the text and its NUL, or the library says what would
  by_cases hcap : (diag s).length + 1 ≤ 2048
  · rw [if_pos (hL.fits s 2048 hcap).1, hL.reads hcap]
    exact hlast
  · obtain ⟨hrc, hlen⟩ := hL.short s 2048 (by omega)
    have hne : ¬ (L (.lastError 2048) s).1.rc = 0 := by
      rw [hrc]
      decide
    rw [if_neg hne, if_pos ⟨hrc, by omega⟩, hlen, Thread.wp_bind]
    refine ⟨⟨_, rfl⟩, fun r' ts' hr' => ?_⟩
    obtain ⟨s', rfl, rfl⟩ := hr'
    show Thread.wp _ (if _ then _ else _) _ _
    -- the text of the second call may be another one, and longer
    by_cases hcap' : (diag s').length + 1 ≤ (diag s).length + 1
    · rw [if_pos (hL.fits s' _ hcap').1, hL.reads hcap']
      exact ⟨Or.inr rfl, fun t ht => ht _ (by simp)⟩
    · obtain ⟨hrc', -⟩ := hL.short s' _ (Nat.lt_of_not_le hcap')
      have hne' : ¬ (L (.lastError ((diag s).length + 1)) s').1.rc = 0 := by
        rw [hrc']
        decide
      rw [if_neg hne']
      refine ⟨Or.inl rfl, fun t ht => ?_⟩
      have hs : diag s = t := ht _ (by simp)
      have hs' : diag s' = t := ht _ (by simp)
      rw [hs, hs'] at hcap'
      exact (hcap' (Nat.le_refl _)).elim

/-- **The text an exception carries.** -/
theorem hears_fail (hL : LastErrorLib L diag) (rc : Int) (what : String) :
    (Call.fail rc what : Call Unit).wp (hearing L diag)
      ⟨fun _ _ => False, fun x ts => ∃ d, Heard ts d ∧ x = .error
        { status := toStatus rc,
          what := text what ++ text ": status " ++ text (toString rc) ++ text ": " ++ d }⟩ [] := by
  unfold Call.fail
  rw [Thread.wp_bind]
  refine (hears_lastError hL).mono (fun d ts hd => ?_) fun _ _ h => h.elim
  exact ⟨d, hd, rfl⟩

/-- With nobody else around, and the text left alone by the call itself. -/
theorem lastError_alone (hL : LastErrorLib L diag)
    (hstays : ∀ cap s, diag (L (.lastError cap) s).2 = diag s) (w : World σ) :
    ∃ w', lastError L w = .ok (diag w.lib) w' := by
  -- every call so far has met the text that is still there
  let S : World σ → List Bytes → Prop := fun v ts =>
    diag v.lib = diag w.lib ∧ ∀ x ∈ ts, x = diag w.lib
  have hserve : ∀ q v ts, S v ts → (hearing L diag).asks ts q →
      ∃ a v' ts', Ask.serve L q v = .ok a v' ∧ (hearing L diag).told ts q a ts' ∧ S v' ts' := by
    intro q v ts hS hask
    obtain ⟨cap, rfl⟩ := hask
    refine ⟨_, _, ts ++ [diag v.lib], rfl, ⟨v.lib, rfl, rfl⟩, (hstays cap v.lib).trans hS.1, ?_⟩
    intro x hx
    rcases List.mem_append.mp hx with hx | hx
    · exact hS.2 x hx
    · exact (List.mem_singleton.mp hx).trans hS.1
  have hnil : S w [] := ⟨rfl, fun x hx => (by cases hx)⟩
  rcases (hears_lastError hL).run hserve (fun _ h => h) hnil with
    ⟨d, w', ts, hrun, hd, hS⟩ | ⟨x, w', ts, -, hx, -⟩
  · obtain rfl : d = diag w.lib := hd.full _ hS.2
    rw [← Call.alone_lastError]
    exact ⟨w', hrun⟩
  · exact hx.elim

end Reading

/-! ## §3. The results. -/

section Results

variable {σ : Type} {L : Lib σ} {diag : σ → Bytes}

/-- **Diagnostics are never cut.**  A text that stays is returned in full,
whatever its length.  If other threads put other texts in its place between
the two library calls, `last_error` returns nothing or the text that was
current at its last call, and that text whole; it always returns.  The same
goes for the text that an exception of the binding carries. -/
theorem diagnostics_uncut (hL : LastErrorLib L diag) :
    ((∀ cap s, diag (L (.lastError cap) s).2 = diag s) → ∀ w : World σ,
      ∃ w', lastError L w = .ok (diag w.lib) w') ∧
    Call.lastError.wp (hearing L diag) ⟨fun d ts => Heard ts d, fun _ _ => False⟩ [] ∧
    ∀ (rc : Int) (what : String), (Call.fail rc what : Call Unit).wp (hearing L diag)
      ⟨fun _ _ => False, fun x ts => ∃ d, Heard ts d ∧ x = .error
        { status := toStatus rc,
          what := text what ++ text ": status " ++ text (toString rc) ++ text ": " ++ d }⟩ [] :=
  ⟨fun hstays w => lastError_alone hL hstays w, hears_lastError hL,
    fun rc what => hears_fail hL rc what⟩

/-- A library that does nothing but keep a text. -/
def keeper : Lib { t : Bytes // 0 ∉ t } := fun c s =>
  match c with
  | .lastError cap =>
      if s.val.length + 1 ≤ cap then
        ({ rc := 0, len := s.val.length + 1, out := s.val ++ [0] }, s)
      else ({ rc := Status.bufferTooSmall.code, len := s.val.length + 1 }, s)
  | _ => ({ rc := 0 }, s)

theorem keeper_lastErrorLib : LastErrorLib keeper Subtype.val where
  nulFree s := s.property
  fits s cap hcap := by
    unfold keeper
    dsimp only
    rw [if_pos hcap]
    exact ⟨rfl, List.prefix_refl _⟩
  short s cap hcap := by
    unfold keeper
    dsimp only
    rw [if_neg (Nat.not_le_of_lt hcap)]
    exact ⟨rfl, rfl⟩

theorem nulFree_replicate {n : Nat} : (0 : UInt8) ∉ List.replicate n 65 := by
  intro h
  cases List.eq_of_mem_replicate h

/-- A text longer than the buffer, kept by it. -/
theorem diagnostics_uncut_keeper :
    ∃ w', lastError keeper ⟨⟨List.replicate 5000 65, nulFree_replicate⟩, []⟩ =
      .ok (List.replicate 5000 65) w' := by
  refine (diagnostics_uncut keeper_lastErrorLib).1 (fun cap s => ?_) _
  unfold keeper
  dsimp only
  split <;> rfl

end Results

end ItbCpp

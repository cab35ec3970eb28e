/-
  ItbCpp.Opts
  ───────────
  **THE OPTS BUILDER** (`src/opts.cpp`).

  `Opts` accumulates key=value pairs into the query string that
  `Pipeline::init` hands over as a C string.  The builder is an instance of
  the URL-encoded form writer of `Lib.FormUrl`: its safe class is
  `urlSafe`, and the reader of that library gets every pair back.

    • `query_eq_render` — the accumulated string is the rendered form,
    • `opts_roundTrip` — reading it gives the pairs back, in order, and
      the NUL-terminated hand-over loses nothing.
-/
import ItbCpp.Ffi
import ItbCpp.Lib.FormUrl
import Mathlib.Data.List.Induction

namespace ItbCpp

/-! ## §1. The builder. -/

/-- Unreserved URL characters plus `,`. -/
def urlSafe (b : UInt8) : Bool :=
  (b ≥ 65 && b ≤ 90) || (b ≥ 97 && b ≤ 122) || (b ≥ 48 && b ≤ 57) ||
    b == 45 || b == 46 || b == 95 || b == 126 || b == 44

/-- The digit table `hex` of `encode_into`, indexed. -/
def hex (v : UInt8) : UInt8 := (text "0123456789ABCDEF").getD v.toNat 0

/-- `encode_into`: append `s`, escaping what is not safe. -/
def encodeInto (dst s : Bytes) : Bytes :=
  s.foldl (fun dst b =>
    if urlSafe b then dst ++ [b]
    else dst ++ [(37 : UInt8)] ++ [hex (b >>> 4)] ++ [hex (b &&& 15)]) dst

/-- `itb::Opts`. -/
structure Opts where
  query : Bytes := []
  deriving DecidableEq, Repr

/-- `Opts::set`. -/
def Opts.set (o : Opts) (key value : Bytes) : Opts :=
  let q := if o.query ≠ [] then o.query ++ [38] else o.query
  let q := encodeInto q key
  let q := q ++ [61]
  { query := encodeInto q value }

/-- The builder after a sequence of `set` calls. -/
def Opts.ofPairs (ps : List (Bytes × Bytes)) : Opts :=
  ps.foldl (fun o p => o.set p.1 p.2) {}

/-! ## §2. The builder renders a form. -/

theorem hex_eq_hexDigit (b : UInt8) :
    hex (b >>> 4) = FormUrl.hexDigit (b >>> 4) ∧
      hex (b &&& 15) = FormUrl.hexDigit (b &&& 15) := by
  have all : ∀ n : Fin 256,
      hex (UInt8.ofFin n >>> 4) = FormUrl.hexDigit (UInt8.ofFin n >>> 4) ∧
        hex (UInt8.ofFin n &&& 15) = FormUrl.hexDigit (UInt8.ofFin n &&& 15) := by
    decide +kernel
  exact all b.toFin

theorem encodeInto_eq (dst s : Bytes) :
    encodeInto dst s = dst ++ FormUrl.percentEncode urlSafe s := by
  induction s generalizing dst with
  | nil => simp [encodeInto, FormUrl.percentEncode]
  | cons b s ih =>
      show encodeInto (if urlSafe b then dst ++ [b] else _) s = _
      rw [ih]
      show _ = dst ++ (FormUrl.percentByte urlSafe b ++ FormUrl.percentEncode urlSafe s)
      obtain ⟨hhi, hlo⟩ := hex_eq_hexDigit b
      cases hb : urlSafe b <;> simp [FormUrl.percentByte, hb, hhi, hlo]

theorem Opts.set_query (o : Opts) (key value : Bytes) :
    (o.set key value).query =
      (if o.query ≠ [] then o.query ++ [38] else o.query) ++
        FormUrl.renderPair urlSafe (key, value) := by
  simp [Opts.set, encodeInto_eq, FormUrl.renderPair]

/-- Appending a part to a joined list of parts. -/
theorem intercalate_snoc (ps : List Bytes) (p : Bytes) (hps : ps ≠ []) :
    [38].intercalate (ps ++ [p]) = [38].intercalate ps ++ [38] ++ p := by
  induction ps with
  | nil => exact absurd rfl hps
  | cons a ps ih =>
      cases ps with
      | nil => simp
      | cons b ps =>
          have := ih (by simp)
          simp only [List.cons_append, List.intercalate_cons_cons] at this ⊢
          rw [this]
          simp

theorem render_ne_nil (ps : List (Bytes × Bytes)) (hps : ps ≠ []) :
    FormUrl.render urlSafe ps ≠ [] := by
  intro h
  have hparse : FormUrl.parse (FormUrl.render urlSafe ps) = some ps :=
    FormUrl.parse_render rfl rfl rfl rfl ps
  rw [h] at hparse
  exact hps (Option.some.inj hparse).symm

/-- **The builder renders the form of its pairs.** -/
theorem query_eq_render (ps : List (Bytes × Bytes)) :
    (Opts.ofPairs ps).query = FormUrl.render urlSafe ps := by
  induction ps using List.reverseRecOn with
  | nil => rfl
  | append_singleton ps p ih =>
      have hstep : Opts.ofPairs (ps ++ [p]) = (Opts.ofPairs ps).set p.1 p.2 := by
        simp [Opts.ofPairs]
      rw [hstep, Opts.set_query, ih]
      -- the first pair gets no separator, every later one an `&`
      cases hps : ps with
      | nil => simp [FormUrl.render]
      | cons q qs =>
          rw [← hps]
          have hne : ps ≠ [] := by simp [hps]
          rw [if_pos (render_ne_nil ps hne)]
          simp only [FormUrl.render, List.map_append, List.map_cons, List.map_nil]
          rw [intercalate_snoc _ _ (by simpa using hne)]

/-! ## §3. The characters of a query. -/

/-- A character of a query: URL-safe, `%`, `=` or `&`. -/
def isQueryChar (b : UInt8) : Bool := urlSafe b || b == 37 || b == 61 || b == 38

theorem urlSafe_of_hexValue {b : UInt8} (h : FormUrl.hexValue b ≠ none) : urlSafe b = true := by
  -- all 256 bytes
  have all : ∀ n : Fin 256, FormUrl.hexValue (UInt8.ofFin n) ≠ none →
      urlSafe (UInt8.ofFin n) = true := by
    decide +kernel
  exact all b.toFin h

theorem isQueryChar_percentEncode {s : Bytes} {b : UInt8}
    (h : b ∈ FormUrl.percentEncode urlSafe s) : isQueryChar b = true := by
  rcases FormUrl.mem_percentEncode h with h | h | h
  · simp [isQueryChar, h]
  · simp [isQueryChar, h]
  · simp [isQueryChar, urlSafe_of_hexValue h]

theorem isQueryChar_encodeInto {dst s : Bytes} (hdst : ∀ b ∈ dst, isQueryChar b = true) :
    ∀ b ∈ encodeInto dst s, isQueryChar b = true := by
  intro b hb
  rw [encodeInto_eq] at hb
  rcases List.mem_append.mp hb with hb | hb
  · exact hdst b hb
  · exact isQueryChar_percentEncode hb

theorem isQueryChar_snoc {dst : Bytes} {c : UInt8} (hc : isQueryChar c = true)
    (hdst : ∀ b ∈ dst, isQueryChar b = true) : ∀ b ∈ dst ++ [c], isQueryChar b = true := by
  intro b hb
  rcases List.mem_append.mp hb with hb | hb
  · exact hdst b hb
  · rw [List.mem_singleton.mp hb]
    exact hc

/-- One `set` call keeps the query inside its alphabet. -/
theorem isQueryChar_set {o : Opts} (ho : ∀ b ∈ o.query, isQueryChar b = true)
    (key value : Bytes) : ∀ b ∈ (o.set key value).query, isQueryChar b = true := by
  refine isQueryChar_encodeInto (isQueryChar_snoc rfl (isQueryChar_encodeInto ?_))
  split
  · exact isQueryChar_snoc rfl ho
  · exact ho

theorem isQueryChar_ofPairs (ps : List (Bytes × Bytes)) :
    ∀ b ∈ (Opts.ofPairs ps).query, isQueryChar b = true := by
  induction ps using List.reverseRecOn with
  | nil => simp [Opts.ofPairs]
  | append_singleton ps p ih =>
      have hstep : Opts.ofPairs (ps ++ [p]) = (Opts.ofPairs ps).set p.1 p.2 := by
        simp [Opts.ofPairs]
      rw [hstep]
      exact isQueryChar_set ih p.1 p.2

/-! ## §4. The hand-over. -/

/-- A string without NUL crosses as it is. -/
theorem ffiStr_read_of_notMem {s : Bytes} (h : 0 ∉ s) : (ffiStr s).read = s := by
  have hall : ∀ b ∈ s, (b != 0) = true := by
    intro b hb
    simp only [bne_iff_ne, ne_eq]
    intro heq
    subst heq
    exact h hb
  show (s ++ [0]).takeWhile (· != 0) = s
  rw [List.takeWhile_append_of_pos hall]
  simp

theorem zero_notMem_query (ps : List (Bytes × Bytes)) : 0 ∉ (Opts.ofPairs ps).query := by
  intro h
  have := isQueryChar_ofPairs ps 0 h
  exact absurd this (by decide)

/-- Reading a query gives its pairs back. -/
theorem parse_query (ps : List (Bytes × Bytes)) :
    FormUrl.parse (Opts.ofPairs ps).query = some ps := by
  rw [query_eq_render]
  exact FormUrl.parse_render rfl rfl rfl rfl ps

/-- **THE OPTS ROUND TRIP.**  For every sequence of `set` calls with
arbitrary bytes: an independent form reader gets the pairs back in order;
the query consists of URL-safe characters, `%`, `=` and `&` and holds no
NUL, so what the library reads through the C string is the query; and two
different lists of pairs never give the same query. -/
theorem opts_roundTrip (ps : List (Bytes × Bytes)) :
    FormUrl.parse (Opts.ofPairs ps).query = some ps ∧
      (∀ b ∈ (Opts.ofPairs ps).query,
        urlSafe b = true ∨ b = 37 ∨ b = 61 ∨ b = 38) ∧
      0 ∉ (Opts.ofPairs ps).query ∧
      (ffiStr (Opts.ofPairs ps).query).read = (Opts.ofPairs ps).query ∧
      ∀ qs, (Opts.ofPairs qs).query = (Opts.ofPairs ps).query → qs = ps := by
  refine ⟨parse_query ps, ?_, zero_notMem_query ps,
    ffiStr_read_of_notMem (zero_notMem_query ps), ?_⟩
  · intro b hb
    have := isQueryChar_ofPairs ps b hb
    simpa [isQueryChar, or_assoc] using this
  · intro qs hq
    have h := parse_query qs
    rw [hq, parse_query ps] at h
    exact (Option.some.inj h).symm

example : (Opts.ofPairs [(text "a&", text ""), (text "", [0, 255])]).query =
    text "a%26=&=%00%FF" := by decide

end ItbCpp

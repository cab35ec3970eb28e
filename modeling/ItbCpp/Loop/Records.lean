/-
  ItbCpp.Loop.Records
  ───────────────────
  **JSON READ BY SEARCHING** (`loop/main.cpp`).

  The harness has no JSON parser.  It searches the registry of hash names
  for a quoted name, and a profile record for a quoted key.

    • `hash_exact_iff` — the registry is searched exactly, unless the name
      looked for runs over a comma of the registry's text,
    • `records_structural` — in a record a quoted key and a colon stand
      nowhere but at that key, so the searches are lookups.
-/
import ItbCpp.Agreement
import ItbCpp.Lib.CNumber
import ItbCpp.Lib.Delimited
import ItbCpp.Loop.Startup

namespace ItbCpp.Loop

open CNumber (isDigit cString int64Min int64Max decimal)
open Delimited (findAfter)

/-! ## §1. The code. -/

/-- A text in quotation marks. -/
def quoted (s : Bytes) : Bytes := 34 :: (s ++ [34])

section Search

variable {σ : Type} (L : Lib σ)

/-- `hash_registered`. -/
def hashRegistered (name : Bytes) : Prog Exn (World σ) Bool := do
  match ← caught (hashNames L) with
  | .error _ => pure false
  | .ok json => pure (decide (quoted name <:+: json))

end Search

/-- What the searches look for: the key in quotation marks and a colon. -/
def needle (key : Bytes) : Bytes := quoted key ++ [58]

/-- `record_int`. -/
def recordInt (json key : Bytes) : Int :=
  match findAfter (needle key) json with
  | none => 0
  | some rest => (CNumber.strtoll (cString rest)).value

/-- `record_str`. -/
def recordStr (json key : Bytes) : Bytes :=
  match findAfter (needle key ++ [34]) json with
  | none => text "-"
  | some rest =>
      let value := rest.takeWhile (· != 34)
      if 34 ∉ rest ∨ value = [] then text "-" else value

/-- `record_bool`. -/
def recordBool (json key : Bytes) : Bool := decide (needle key ++ text "true" <:+: json)

/-! ## §2. What the library renders. -/

/-- `[a-z0-9_]` -/
def isKeyByte (c : UInt8) : Bool := (97 ≤ c && c ≤ 122) || isDigit c || c == 95

/-- `[a-z0-9-]` -/
def isWordByte (c : UInt8) : Bool := (97 ≤ c && c ≤ 122) || isDigit c || c == 45

/-- A key of a record. -/
abbrev Key : Type := { k : Bytes // ∀ c ∈ k, isKeyByte c = true }

/-- A name, and a string of a record. -/
abbrev Word : Type := { s : Bytes // ∀ c ∈ s, isWordByte c = true }

/-- A value of a record. -/
inductive Value where
  | int (n : Int) (fits : int64Min ≤ n ∧ n ≤ int64Max)
  | bool (b : Bool)
  | str (s : Word)
  | arr (l : List Word)

/-- A compact array of strings. -/
def renderWords (l : List Word) : Bytes :=
  91 :: ([44].intercalate (l.map fun s => quoted s.val) ++ [93])

/-- A compact value. -/
def Value.render : Value → Bytes
  | .int n _ => decimal n
  | .bool true => text "true"
  | .bool false => text "false"
  | .str s => quoted s.val
  | .arr l => renderWords l

/-- The registry of hash names. -/
structure Registry where
  names : List Word
  distinct : names.Nodup

/-- A profile record. -/
structure Record where
  entries : List (Key × Value)
  distinct : (entries.map Prod.fst).Nodup

/-- A key and its value. -/
def renderEntry (e : Key × Value) : Bytes := needle e.1.val ++ e.2.render

/-- A compact object. -/
def Record.render (r : Record) : Bytes :=
  123 :: ([44].intercalate (r.entries.map renderEntry) ++ [125])

/-! ## §3. The registry. -/

/-- The registry's text between its first and its last quotation mark, cut
at every one in between. -/
def Registry.parts (reg : Registry) : List Bytes := (reg.names.map Subtype.val).intersperse [44]

/-- A text with a comma in it, whose parts between quotation marks are
consecutive parts of the registry's text. -/
def Registry.Straddles (reg : Registry) (v : Bytes) : Prop :=
  44 ∈ v ∧ v.splitOn 34 <:+: reg.parts

section Registry

variable {reg : Registry} {v : Bytes}

theorem notMem_word {c : UInt8} (hc : isWordByte c = false) (s : Word) : c ∉ s.val := by
  intro h
  rw [s.property c h] at hc
  cases hc

theorem notMem_key {c : UInt8} (hc : isKeyByte c = false) (k : Key) : c ∉ k.val := by
  intro h
  rw [k.property c h] at hc
  cases hc

/-- The text of an array from its first quotation mark on, cut at every
one. -/
theorem flatMap_parts (n : Word) (ns : List Word) :
    (((n :: ns).map Subtype.val).intersperse [44] ++ [[93]]).flatMap (34 :: ·) =
      [44].intercalate ((n :: ns).map fun s => quoted s.val) ++ [93] := by
  induction ns generalizing n with
  | nil => simp [quoted]
  | cons m ns ih =>
      have hnext := ih m
      simp only [List.map_cons] at hnext ⊢
      rw [List.intersperse_cons_cons, List.cons_append, List.cons_append, List.flatMap_cons,
        List.flatMap_cons, hnext, List.intercalate_cons_cons]
      simp [quoted]

theorem renderWords_cons (n : Word) (ns : List Word) :
    renderWords (n :: ns) =
      [34].intercalate ([91] :: (((n :: ns).map Subtype.val).intersperse [44] ++ [[93]])) := by
  rw [Delimited.intercalate_cons, flatMap_parts]
  rfl

theorem mem_parts {p : Bytes} (h : p ∈ reg.parts) : p = [44] ∨ ∃ n ∈ reg.names, n.val = p := by
  have hmem : ∀ {l : List Bytes}, p ∈ l.intersperse [44] → p = [44] ∨ p ∈ l := by
    intro l
    induction l with
    | nil => intro h; cases h
    | cons a l ih =>
        cases l with
        | nil => intro h; exact Or.inr h
        | cons b l =>
            intro h
            rw [List.intersperse_cons_cons] at h
            rcases List.mem_cons.mp h with rfl | h
            · exact Or.inr List.mem_cons_self
            · rcases List.mem_cons.mp h with h | h
              · exact Or.inl h
              · exact (ih h).imp_right (List.mem_cons_of_mem a)
  rcases hmem h with h | h
  · exact Or.inl h
  · exact Or.inr (List.mem_map.mp h)

/-- **What the search finds.** -/
theorem quoted_infix_iff : quoted v <:+: renderWords reg.names ↔ v.splitOn 34 <:+: reg.parts := by
  have hparts : ∀ p ∈ reg.parts, 34 ∉ p := by
    intro p hp
    rcases mem_parts hp with rfl | ⟨n, -, rfl⟩
    · decide
    · exact notMem_word (by decide) n
  unfold Registry.parts at hparts ⊢
  cases hnames : reg.names with
  | nil =>
      constructor
      · intro h
        have hquote : (34 : UInt8) ∈ renderWords [] := h.subset List.mem_cons_self
        exact absurd hquote (by decide)
      · intro h
        exact absurd (List.infix_nil.mp h) (List.splitOn_ne_nil 34 v)
  | cons n ns =>
      rw [hnames] at hparts
      rw [renderWords_cons]
      exact Delimited.infix_iff_splitOn (by decide) (by decide) hparts

theorem name_mem_parts {n : Word} (h : n ∈ reg.names) : n.val ∈ reg.parts := by
  have hmem : ∀ {l : List Bytes}, n.val ∈ l → n.val ∈ l.intersperse [44] := by
    intro l
    induction l with
    | nil => exact id
    | cons a l ih =>
        cases l with
        | nil => exact id
        | cons b l =>
            intro h
            rw [List.intersperse_cons_cons]
            rcases List.mem_cons.mp h with h | h
            · exact h ▸ List.mem_cons_self
            · exact List.mem_cons_of_mem _ (List.mem_cons_of_mem _ (ih h))
  exact hmem (List.mem_map_of_mem h)

/-- Of two parts in a row one is a comma. -/
theorem comma_of_adjacent {l : List Bytes} {a b : Bytes} {pre post : List Bytes}
    (h : pre ++ a :: b :: post = l.intersperse [44]) : a = [44] ∨ b = [44] := by
  induction l using List.twoStepInduction generalizing pre with
  | nil => simp at h
  | singleton x =>
      have hlen := congrArg List.length h
      rw [List.intersperse_singleton, List.length_append] at hlen
      simp at hlen
      omega
  | cons_cons x y l _ ih =>
      rw [List.intersperse_cons_cons] at h
      cases pre with
      | nil =>
          injection h with _ h
          injection h with hb
          exact Or.inr hb
      | cons x' pre =>
          injection h with _ h
          cases pre with
          | nil =>
              injection h with ha
              exact Or.inl ha
          | cons s pre =>
              injection h with _ h
              exact ih y h

/-- Without a comma in it a run of parts is one name. -/
theorem splitOn_parts (h : 44 ∉ v) : v.splitOn 34 <:+: reg.parts ↔ ∃ n ∈ reg.names, n.val = v := by
  constructor
  · intro hrun
    obtain ⟨p, ps, hps⟩ := List.exists_cons_of_ne_nil (List.splitOn_ne_nil 34 v)
    have hv : [34].intercalate (p :: ps) = v := by
      rw [← hps, List.intercalate_splitOn]
    have hno : ∀ x ∈ p :: ps, x ≠ [44] := by
      intro x hx hcomma
      subst hcomma
      refine h ?_
      rw [← hv, Delimited.intercalate_cons]
      rcases List.mem_cons.mp hx with rfl | hx
      · simp
      · exact List.mem_append_right _ (List.mem_flatMap.mpr ⟨[44], hx, by simp⟩)
    cases ps with
    | nil =>
        rw [hps] at hrun
        rw [List.intercalate_singleton] at hv
        rcases mem_parts (hrun.subset List.mem_cons_self) with hcomma | hname
        · exact (hno p List.mem_cons_self hcomma).elim
        · rw [hv] at hname
          exact hname
    | cons p' ps =>
        obtain ⟨pre, post, hsplit⟩ := hrun
        rw [hps] at hsplit
        have hadjacent : pre ++ p :: p' :: (ps ++ post) = reg.parts := by
          rw [← hsplit]
          simp
        rcases comma_of_adjacent hadjacent with hcomma | hcomma
        · exact (hno p List.mem_cons_self hcomma).elim
        · exact (hno p' (List.mem_cons_of_mem _ List.mem_cons_self) hcomma).elim
  · intro hname
    obtain ⟨n, hn, rfl⟩ := hname
    rw [List.splitOn_eq_singleton (notMem_word (by decide) n)]
    obtain ⟨pre, post, hsplit⟩ := List.append_of_mem (name_mem_parts hn)
    exact ⟨pre, post, by rw [hsplit]; simp⟩

/-- **What the search takes for a name**: the names, and the texts that run over
a comma between them. -/
theorem found_iff :
    quoted v <:+: renderWords reg.names ↔ (∃ n ∈ reg.names, n.val = v) ∨ reg.Straddles v := by
  rw [quoted_infix_iff]
  unfold Registry.Straddles
  by_cases hcomma : 44 ∈ v
  · constructor
    · exact fun hrun => Or.inr ⟨hcomma, hrun⟩
    · rintro (⟨n, -, rfl⟩ | h)
      -- no name has a comma in it
      · exact (notMem_word (by decide) n hcomma).elim
      · exact h.2
  · rw [splitOn_parts hcomma]
    exact ⟨Or.inl, fun h => h.resolve_right fun h' => hcomma h'.1⟩

/-- `hash_registered`, on the registry that the library renders. -/
theorem hashRegistered_run {σ : Type} {L : Lib σ}
    (hL : AnswersExactly L BlobFn.hashNames.call (renderWords reg.names)) (v : Bytes)
    (w : World σ) :
    ∃ w', hashRegistered L v w = .ok (decide (quoted v <:+: renderWords reg.names)) w' := by
  obtain ⟨w', hrun⟩ := (bufCall_follows L w .hashNames "hash_names").whole _ hL
  have hcaught : caught (hashNames L) w = .ok (.ok (renderWords reg.names)) w' :=
    Prog.handle_ok (Prog.bind_ok hrun)
  refine ⟨w', ?_⟩
  unfold hashRegistered
  rw [Prog.bind_ok hcaught]
  rfl

/-- **The registry is searched exactly** if and only if the text looked for
does not run over a comma of it. -/
theorem hash_exact_iff {σ : Type} {L : Lib σ}
    (hL : AnswersExactly L BlobFn.hashNames.call (renderWords reg.names)) (v : Bytes)
    (w : World σ) :
    ((∃ w', hashRegistered L v w = .ok true w') ↔ ∃ n ∈ reg.names, n.val = v) ↔
      ¬ reg.Straddles v := by
  obtain ⟨w', hrun⟩ := hashRegistered_run hL v w
  have hfound : (∃ w', hashRegistered L v w = .ok true w') ↔ v.splitOn 34 <:+: reg.parts := by
    rw [hrun, ← quoted_infix_iff]
    constructor
    · intro h
      obtain ⟨w'', h⟩ := h
      injection h with h
      exact of_decide_eq_true h
    · intro h
      exact ⟨w', by rw [decide_eq_true h]⟩
  rw [hfound]
  by_cases hcomma : 44 ∈ v
  · -- no name has a comma in it
    have hno : ¬ ∃ n ∈ reg.names, n.val = v := by
      intro h
      obtain ⟨n, -, rfl⟩ := h
      exact notMem_word (by decide) n hcomma
    unfold Registry.Straddles
    rw [iff_false_right hno]
    simp [hcomma]
  · have hnot : ¬ reg.Straddles v := fun h => hcomma h.1
    exact iff_of_true (splitOn_parts hcomma) hnot

end Registry

/-- Two names. -/
def twoNames : Registry where
  names := [⟨text "blake3", List.all_eq_true.mp (by decide)⟩,
    ⟨text "areion512", List.all_eq_true.mp (by decide)⟩]
  distinct := by decide

/-- A library that renders them. -/
def twoNamesLib : Lib Unit := fun c s =>
  match c with
  | .hashNames cap => ((Outcome.output (renderWords twoNames.names)).reply cap, s)
  | _ => ({ rc := 0 }, s)

theorem twoNamesLib_answers :
    AnswersExactly twoNamesLib BlobFn.hashNames.call (renderWords twoNames.names) :=
  answersExactly_of_reply fun _ _ => rfl

/-- One of them. -/
theorem hash_exact_iff_registered :
    (∃ w', hashRegistered twoNamesLib (text "blake3") ⟨(), []⟩ = .ok true w') ↔
      ∃ n ∈ twoNames.names, n.val = text "blake3" := by
  refine (hash_exact_iff twoNamesLib_answers _ _).mpr ?_
  intro h
  exact absurd h.1 (by decide)

/-- `--hash ,` passes the validation. -/
theorem hash_comma :
    (∃ w', hashRegistered twoNamesLib (text ",") ⟨(), []⟩ = .ok true w') ∧
      ¬ ∃ n ∈ twoNames.names, n.val = text "," := by
  constructor
  · obtain ⟨w', hrun⟩ := hashRegistered_run twoNamesLib_answers (text ",") ⟨(), []⟩
    refine ⟨w', ?_⟩
    rw [hrun]
    have hin : quoted (text ",") <:+: renderWords twoNames.names := by decide
    rw [decide_eq_true hin]
  · decide

/-! ## §4. Where a quoted key can stand. -/

/-- The rest of a record behind a value. -/
def fields (es : List (Key × Value)) : Bytes :=
  es.flatMap (fun e => 44 :: renderEntry e) ++ [125]

section Keys

variable {k : Key} {a b : Bytes}

/-- What comes behind a value: a comma or the closing brace. -/
theorem fields_head (es : List (Key × Value)) :
    ∃ c t, fields es = c :: t ∧ (c = 44 ∨ c = 125) := by
  cases es with
  | nil => exact ⟨125, [], rfl, Or.inr rfl⟩
  | cons e es => exact ⟨44, _, rfl, Or.inl rfl⟩

theorem fields_cons (e : Key × Value) (es : List (Key × Value)) :
    fields (e :: es) = 44 :: (renderEntry e ++ fields es) := by
  simp [fields]

theorem needle_append (k b : Bytes) : needle k ++ b = 34 :: (k ++ 34 :: 58 :: b) := by
  simp [needle, quoted]

/-- A key that is looked for stands behind whatever has no quotation mark. -/
theorem needle_skip {x z : Bytes} (hx : 34 ∉ x) (h : a ++ (needle k.val ++ b) = x ++ z) :
    ∃ a', a' ++ (needle k.val ++ b) = z := by
  rw [needle_append] at h ⊢
  obtain ⟨a', -, hz⟩ := Delimited.skip hx h
  exact ⟨a', hz⟩

/-- At a string it stands at that string, with a colon behind it, or behind
the string: what follows is neither a quotation mark nor a byte of a key. -/
theorem needle_at_string {w : Bytes} (hw : 34 ∉ w) {c : UInt8} {z : Bytes}
    (hquote : c ≠ 34) (hkey : isKeyByte c = false)
    (h : a ++ (needle k.val ++ b) = quoted w ++ c :: z) :
    (k.val = w ∧ c = 58 ∧ b = z) ∨ ∃ a', a' ++ (needle k.val ++ b) = c :: z := by
  have hk : 34 ∉ k.val := notMem_key (by decide) k
  have hquoted : quoted w ++ c :: z = 34 :: (w ++ 34 :: c :: z) := by
    simp [quoted]
  rw [hquoted, needle_append] at h
  cases a with
  | nil =>
      injection h with _ h
      obtain ⟨hw, hrest⟩ := Delimited.append_cons_inj hk hw h
      injection hrest with hc hz
      exact Or.inl ⟨hw, hc.symm, hz⟩
  | cons x a =>
      injection h with _ h
      obtain ⟨a', -, h⟩ := Delimited.skip hw h
      cases a' with
      | nil =>
          -- it would begin at the closing quotation mark
          injection h with _ h
          exfalso
          cases hval : k.val with
          | nil =>
              rw [hval] at h
              injection h with hc
              exact hquote hc.symm
          | cons d t =>
              rw [hval] at h
              injection h with hc
              have hd := k.property d (by rw [hval]; exact List.mem_cons_self)
              rw [hc, hkey] at hd
              cases hd
      | cons y a' =>
          injection h with _ h
          exact Or.inr ⟨a', by rw [needle_append]; exact h⟩

/-- A string that is not followed by a colon is passed. -/
theorem needle_past_string {w : Word} {c : UInt8} {z : Bytes} (hquote : c ≠ 34)
    (hkey : isKeyByte c = false) (hcolon : c ≠ 58)
    (h : a ++ (needle k.val ++ b) = quoted w.val ++ c :: z) :
    ∃ a', a' ++ (needle k.val ++ b) = c :: z := by
  rcases needle_at_string (notMem_word (by decide) w) hquote hkey h with ⟨-, hc, -⟩ | hback
  · exact (hcolon hc).elim
  · exact hback

/-- No key stands in the strings of an array. -/
theorem needle_past_words (ws : List Word) {z : Bytes}
    (h : a ++ (needle k.val ++ b) = (ws.map fun s => quoted s.val).flatMap (44 :: ·) ++ 93 :: z) :
    ∃ a', a' ++ (needle k.val ++ b) = z := by
  induction ws generalizing a with
  | nil => exact needle_skip (x := [93]) (by decide) h
  | cons w ws ih =>
      have hcons : ((w :: ws).map fun s => quoted s.val).flatMap (44 :: ·) ++ 93 :: z =
          [44] ++ (quoted w.val ++
            ((ws.map fun s => quoted s.val).flatMap (44 :: ·) ++ 93 :: z)) := by
        simp
      rw [hcons] at h
      obtain ⟨a', h⟩ := needle_skip (by decide) h
      -- behind the string stands a comma or the bracket
      cases ws with
      | nil =>
          obtain ⟨a'', h⟩ := needle_past_string (by decide) (by decide) (by decide) h
          exact ih h
      | cons w' ws =>
          obtain ⟨a'', h⟩ := needle_past_string (by decide) (by decide) (by decide) h
          exact ih h

/-- No key stands in a value. -/
theorem needle_past_value {v : Value} {es : List (Key × Value)}
    (h : a ++ (needle k.val ++ b) = v.render ++ fields es) :
    ∃ a', a' ++ (needle k.val ++ b) = fields es := by
  cases v with
  | int n fits =>
      refine needle_skip (fun hquote => ?_) h
      rcases CNumber.mem_decimal hquote with hdigit | hminus
      · exact absurd hdigit (by decide)
      · exact absurd hminus (by decide)
  | bool y =>
      cases y with
      | false => exact needle_skip (by decide) h
      | true => exact needle_skip (by decide) h
  | str s =>
      obtain ⟨c, t, hfields, hc⟩ := fields_head es
      rw [hfields] at h ⊢
      rcases hc with rfl | rfl
      · exact needle_past_string (by decide) (by decide) (by decide) h
      · exact needle_past_string (by decide) (by decide) (by decide) h
  | arr l =>
      cases l with
      | nil => exact needle_skip (by decide) h
      | cons w ws =>
          have hcons : (Value.arr (w :: ws)).render ++ fields es =
              [91] ++ (quoted w.val ++
                ((ws.map fun s => quoted s.val).flatMap (44 :: ·) ++ 93 :: fields es)) := by
            simp [Value.render, renderWords, Delimited.intercalate_cons]
          rw [hcons] at h
          obtain ⟨a', h⟩ := needle_skip (by decide) h
          cases ws with
          | nil =>
              obtain ⟨a'', h⟩ := needle_past_string (by decide) (by decide) (by decide) h
              exact needle_past_words [] h
          | cons w' ws =>
              obtain ⟨a'', h⟩ := needle_past_string (by decide) (by decide) (by decide) h
              exact needle_past_words (w' :: ws) h

/-- A key stands at the entry that has it, or behind. -/
theorem needle_at_entry {e : Key × Value} {es : List (Key × Value)}
    (h : a ++ (needle k.val ++ b) = renderEntry e ++ fields es) :
    (k = e.1 ∧ b = e.2.render ++ fields es) ∨ ∃ a', a' ++ (needle k.val ++ b) = fields es := by
  have hentry : renderEntry e ++ fields es = quoted e.1.val ++ 58 :: (e.2.render ++ fields es) := by
    simp [renderEntry, needle]
  rw [hentry] at h
  rcases needle_at_string (notMem_key (by decide) e.1) (by decide) (by decide) h with
    ⟨hk, -, hb⟩ | ⟨a', h⟩
  · exact Or.inl ⟨Subtype.ext hk, hb⟩
  · obtain ⟨a'', h⟩ := needle_skip (x := [58]) (by decide) h
    exact Or.inr (needle_past_value h)

/-- A key stands at an entry that has it. -/
theorem needle_in_fields {es : List (Key × Value)} (h : a ++ (needle k.val ++ b) = fields es) :
    ∃ pre v post, es = pre ++ (k, v) :: post ∧ b = v.render ++ fields post := by
  induction es generalizing a with
  | nil =>
      obtain ⟨a', h⟩ := needle_skip (x := [125]) (z := []) (by decide) h
      rw [needle_append] at h
      simp at h
  | cons e es ih =>
      rw [fields_cons] at h
      obtain ⟨a', h⟩ := needle_skip (x := [44]) (by decide) h
      rcases needle_at_entry h with ⟨hk, hb⟩ | ⟨a'', h⟩
      · exact ⟨[], e.2, es, by rw [hk]; rfl, hb⟩
      · obtain ⟨pre, v, post, hes, hb⟩ := ih h
        exact ⟨e :: pre, v, post, by rw [hes]; rfl, hb⟩

theorem Record.render_cons {r : Record} {e : Key × Value} {es : List (Key × Value)}
    (h : r.entries = e :: es) : r.render = 123 :: (renderEntry e ++ fields es) := by
  unfold Record.render
  rw [h, List.map_cons, Delimited.intercalate_cons]
  simp [fields, List.flatMap_map]

/-- **A quoted key and a colon stand nowhere but at that key.** -/
theorem needle_found {r : Record} (h : r.render = a ++ (needle k.val ++ b)) :
    ∃ v post, r.entries.lookup k = some v ∧ b = v.render ++ fields post := by
  have hsplit : ∃ pre v post, r.entries = pre ++ (k, v) :: post ∧ b = v.render ++ fields post := by
    cases hes : r.entries with
    | nil =>
        unfold Record.render at h
        rw [hes] at h
        obtain ⟨a', h⟩ := needle_skip (x := [123, 125]) (z := []) (by decide) h.symm
        rw [needle_append] at h
        simp at h
    | cons e es =>
        rw [Record.render_cons hes] at h
        obtain ⟨a', h⟩ := needle_skip (x := [123]) (by decide) h.symm
        rcases needle_at_entry h with ⟨hk, hb⟩ | ⟨a'', h⟩
        · exact ⟨[], e.2, es, by rw [hk]; rfl, hb⟩
        · obtain ⟨pre, v, post, hes', hb⟩ := needle_in_fields h
          exact ⟨e :: pre, v, post, by rw [hes']; rfl, hb⟩
  obtain ⟨pre, v, post, hes, hb⟩ := hsplit
  refine ⟨v, post, List.lookup_eq_some_iff.mpr ⟨pre, post, hes, fun p hp => ?_⟩, hb⟩
  -- the key is at no other entry
  have hdistinct := r.distinct
  rw [hes, List.map_append, List.map_cons, List.nodup_append] at hdistinct
  have hne := hdistinct.2.2 p.1 (List.mem_map_of_mem hp) k List.mem_cons_self
  simpa using hne.symm

/-- And there they stand. -/
theorem needle_stands {r : Record} {v : Value} (h : r.entries.lookup k = some v) :
    ∃ a post, r.render = a ++ (needle k.val ++ (v.render ++ fields post)) := by
  obtain ⟨pre, post, hes, -⟩ := List.lookup_eq_some_iff.mp h
  cases pre with
  | nil =>
      refine ⟨[123], post, ?_⟩
      rw [Record.render_cons hes]
      simp [renderEntry]
  | cons e pre =>
      refine ⟨123 :: (renderEntry e ++ pre.flatMap (fun e => 44 :: renderEntry e) ++ [44]),
        post, ?_⟩
      rw [Record.render_cons hes]
      simp [fields, renderEntry]

end Keys

/-! ## §5. The searches are lookups. -/

/-- A non-empty string, or a dash. -/
def shown : Option Value → Bytes
  | some (.str s) => if s.val = [] then text "-" else s.val
  | _ => text "-"

/-- An integer, or 0. -/
def number : Option Value → Int
  | some (.int n _) => n
  | _ => 0

section Lookups

variable (r : Record) (k : Key)

/-- A search for the key with `x` behind it. -/
theorem findAfter_record {x : Bytes} :
    (∃ v post b, r.entries.lookup k = some v ∧ v.render ++ fields post = x ++ b ∧
        findAfter (needle k.val ++ x) r.render = some b) ∨
      (findAfter (needle k.val ++ x) r.render = none ∧
        ∀ v, r.entries.lookup k = some v → ∃ post, ∀ b, v.render ++ fields post ≠ x ++ b) := by
  cases hfind : findAfter (needle k.val ++ x) r.render with
  | some b =>
      obtain ⟨a, ha⟩ := Delimited.findAfter_eq_some hfind
      rw [List.append_assoc] at ha
      obtain ⟨v, post, hlookup, hb⟩ := needle_found ha
      exact Or.inl ⟨v, post, b, hlookup, hb.symm, rfl⟩
  | none =>
      refine Or.inr ⟨rfl, fun v hlookup => ?_⟩
      obtain ⟨a, post, hstands⟩ := needle_stands hlookup
      refine ⟨post, fun b hb => ?_⟩
      refine Delimited.findAfter_eq_none hfind a b ?_
      rw [List.append_assoc, ← hb]
      exact hstands

/-- An integer is read up to what follows it. -/
theorem strtoll_int {n : Int} (fits : int64Min ≤ n ∧ n ≤ int64Max) (es : List (Key × Value)) :
    (CNumber.strtoll (cString (decimal n ++ fields es))).value = n := by
  have hnul : 0 ∉ decimal n := by
    intro h0
    rcases CNumber.mem_decimal h0 with hdigit | hminus
    · exact absurd hdigit (by decide)
    · exact absurd hminus (by decide)
  have hstops : CNumber.Stops isDigit (cString (fields es)) := by
    obtain ⟨c, t, hfields, hc⟩ := fields_head es
    rw [hfields]
    rcases hc with rfl | rfl
    · exact CNumber.stops_cons (by decide) _
    · exact CNumber.stops_cons (by decide) _
  rw [CNumber.cString_append hnul]
  obtain ⟨x, hscan, -, hvalue⟩ := CNumber.scanInt_decimal n hstops
  unfold CNumber.strtoll CNumber.strtoSigned
  rw [hscan]
  dsimp only
  rw [hvalue, if_neg (Int.not_lt.mpr fits.1), if_neg (Int.not_lt.mpr fits.2)]

/-- Where no integer stands, none is read. -/
theorem strtoll_other {c : UInt8} (hspace : CNumber.isSpace c = false) (hdigit : isDigit c = false)
    (hminus : c ≠ 45) (hplus : c ≠ 43) (hnul : 0 ∉ [c]) (t : Bytes) :
    (CNumber.strtoll (cString ([c] ++ t))).value = 0 := by
  rw [CNumber.cString_append hnul]
  unfold CNumber.strtoll CNumber.strtoSigned
  rw [List.singleton_append, CNumber.scanInt_none hspace hdigit hminus hplus]

theorem recordInt_lookup : recordInt r.render k.val = number (r.entries.lookup k) := by
  unfold recordInt
  rcases findAfter_record r k (x := []) with ⟨v, post, b, hlookup, rfl, hfind⟩ | ⟨hnone, hlost⟩
  · rw [List.append_nil] at hfind
    rw [hfind, hlookup]
    cases v with
    | int n fits => exact strtoll_int fits post
    | bool y =>
        cases y with
        | false => exact strtoll_other (by decide) (by decide) (by decide) (by decide) (by decide) _
        | true => exact strtoll_other (by decide) (by decide) (by decide) (by decide) (by decide) _
    | str s => exact strtoll_other (by decide) (by decide) (by decide) (by decide) (by decide) _
    | arr l => exact strtoll_other (by decide) (by decide) (by decide) (by decide) (by decide) _
  · rw [List.append_nil] at hnone
    rw [hnone]
    cases hlookup : r.entries.lookup k with
    | none => rfl
    | some v =>
        obtain ⟨post, hno⟩ := hlost v hlookup
        exact (hno _ rfl).elim

theorem recordStr_lookup : recordStr r.render k.val = shown (r.entries.lookup k) := by
  unfold recordStr
  rcases findAfter_record r k (x := [34]) with ⟨v, post, b, hlookup, hb, hfind⟩ | ⟨hnone, hlost⟩
  · rw [hfind, hlookup]
    dsimp only
    cases v with
    | int n fits =>
        -- an integer does not begin with a quotation mark
        rcases CNumber.decimal_head hb with hdigit | hminus
        · exact absurd hdigit (by decide)
        · exact absurd hminus (by decide)
    | bool y =>
        exfalso
        cases y with
        | false => exact absurd (List.cons.inj hb).1 (by decide)
        | true => exact absurd (List.cons.inj hb).1 (by decide)
    | arr l => exact absurd (List.cons.inj hb).1 (by decide)
    | str s =>
        have hrest : b = s.val ++ 34 :: fields post := by
          have hcons : (s.val ++ [34]) ++ fields post = b := (List.cons.inj hb).2
          rw [← hcons, List.append_assoc]
          rfl
        have hstring : b.takeWhile (· != 34) = s.val := by
          rw [hrest]
          refine CNumber.takeWhile_run (fun c hc => ?_) (CNumber.stops_cons rfl _)
          have hne : c ≠ 34 := fun heq => notMem_word (by decide) s (heq ▸ hc)
          simpa using hne
        have hclosed : 34 ∈ b := by
          rw [hrest]
          simp
        rw [hstring]
        simp [shown, hclosed]
  · rw [hnone]
    cases hlookup : r.entries.lookup k with
    | none => rfl
    | some v =>
        obtain ⟨post, hno⟩ := hlost v hlookup
        cases v with
        | str s => exact (hno (s.val ++ [34] ++ fields post) rfl).elim
        | int n fits => rfl
        | bool y => rfl
        | arr l => rfl

theorem recordBool_lookup :
    recordBool r.render k.val = true ↔ r.entries.lookup k = some (.bool true) := by
  unfold recordBool
  rw [decide_eq_true_iff]
  constructor
  · intro h
    obtain ⟨a, b, hab⟩ := h
    have hstands : r.render = a ++ (needle k.val ++ (text "true" ++ b)) := by
      rw [← hab]
      simp
    obtain ⟨v, post, hlookup, hb⟩ := needle_found hstands
    rw [hlookup]
    cases v with
    | int n fits =>
        rcases CNumber.decimal_head hb.symm with hdigit | hminus
        · exact absurd hdigit (by decide)
        · exact absurd hminus (by decide)
    | bool y =>
        cases y with
        | false => exact absurd (List.cons.inj hb).1 (by decide)
        | true => rfl
    | str s => exact absurd (List.cons.inj hb).1 (by decide)
    | arr l => exact absurd (List.cons.inj hb).1 (by decide)
  · intro hlookup
    obtain ⟨a, post, hstands⟩ := needle_stands hlookup
    refine ⟨a, fields post, ?_⟩
    rw [hstands]
    simp [Value.render]

/-- A probe for a key. -/
theorem mentions_lookup {probe : String} (h : text probe = needle k.val) :
    (!mentions r.render probe) = true ↔ r.entries.lookup k = none := by
  have hfound : mentions r.render probe = true ↔ ∃ v, r.entries.lookup k = some v := by
    unfold mentions
    rw [h, decide_eq_true_iff]
    constructor
    · intro hin
      obtain ⟨a, b, hab⟩ := hin
      rw [List.append_assoc] at hab
      obtain ⟨v, post, hlookup, -⟩ := needle_found hab.symm
      exact ⟨v, hlookup⟩
    · intro hsome
      obtain ⟨v, hlookup⟩ := hsome
      obtain ⟨a, post, hstands⟩ := needle_stands hlookup
      exact ⟨a, v.render ++ fields post, by rw [hstands, List.append_assoc]⟩
  rw [Bool.not_eq_true', ← Bool.not_eq_true, hfound, Option.eq_none_iff_forall_ne_some, not_exists]

end Lookups

/-- The keys that `fill_keystream_layers` probes for. -/
def paletteKey : Key := ⟨text "palette", List.all_eq_true.mp (by decide)⟩

def segmentKey : Key := ⟨text "segment", List.all_eq_true.mp (by decide)⟩

def outerKey : Key := ⟨text "outer", List.all_eq_true.mp (by decide)⟩

/-- **Searching a record is looking it up.**  In every compactly encoded
profile record and for every key, the three accessors give the value of the
key, each what it makes of a value of another kind or of none; and the probes
of `fill_keystream_layers` tell which keys are absent. -/
theorem records_structural (r : Record) (k : Key) :
    recordStr r.render k.val = shown (r.entries.lookup k) ∧
      recordInt r.render k.val = number (r.entries.lookup k) ∧
      (recordBool r.render k.val = true ↔ r.entries.lookup k = some (.bool true)) ∧
      (lacksPalette r.render = true ↔ r.entries.lookup paletteKey = none) ∧
      (lacksSegment r.render = true ↔ r.entries.lookup segmentKey = none) ∧
      (lacksOuter r.render = true ↔ r.entries.lookup outerKey = none) :=
  ⟨recordStr_lookup r k, recordInt_lookup r k, recordBool_lookup r k,
    mentions_lookup r paletteKey (by decide), mentions_lookup r segmentKey (by decide),
    mentions_lookup r outerKey (by decide)⟩

end ItbCpp.Loop

/-
  ItbCpp.Eitb
  ───────────
  **THE COMMAND-LINE DEMONSTRATOR** (`eitb/eitb.cpp`).

  `eitb encrypt` prints the session blob in hexadecimal, and `eitb decrypt`
  takes it back as an argument.  The program runs over the library and over
  the system, each of them a machine that may answer as it likes.

    • `blobOfHex_eq_ok` — the decoder of `cmd_decrypt` is `Hex.decode`, with the
      empty string left out,
    • `stderr_encrypt` — what `eitb encrypt` prints to standard error,
    • `decrypt_rejected` — all that `eitb decrypt` does of a text that is not
      a blob's,
    • `blobHex_roundTrip` — the two commands are inverse to each other.
-/
import ItbCpp.Lib.Hex
import ItbCpp.Stream
import Mathlib.Data.List.DropRight

namespace ItbCpp.Eitb

/-! ## §1. The process. -/

/-- What the program calls beside the binding's entries that can fail. -/
inductive SysCall where
  /-- `itb::set_memory_limit`, `itb::set_gc_percent` -/
  | setMemoryLimit (bytes : Int) | setGcPercent (pct : Int)
  /-- `std::filesystem::create_directories` -/
  | createDirectories (path : Bytes)
  /-- one file is open at a time -/
  | fopen (path : Bytes) (mode : String)
  | fread (n : Nat)
  | ferror
  | fwrite (b : Bytes)
  | fclose
  | stdout (b : Bytes) | stderr (b : Bytes)
  deriving DecidableEq

/-- One answer of the system: whether the call went well, what was read, how
much was written, and the message of an error code. -/
structure SysReply where
  ok : Bool := true
  bytes : Bytes := []
  count : Nat := 0
  message : Bytes := []

/-- The system: an arbitrary machine over a hidden state. -/
abbrev Sys (φ : Type) := SysCall → φ → SysReply × φ

/-- The binding's world, the state of the system, and the calls made so far. -/
structure Proc (σ φ : Type) where
  world : World σ
  sys : φ
  done : List SysCall

section Commands

variable {σ φ : Type} (L : Lib σ) (S : Sys φ) (junk : Nat → Nat → UInt8)

/-- One call. -/
def call (c : SysCall) : Prog Exn (Proc σ φ) SysReply := fun p =>
  .ok (S c p.sys).1 { p with sys := (S c p.sys).2, done := p.done ++ [c] }

/-- An entry of the binding. -/
def onWorld {α : Type} (m : Prog Exn (World σ) α) : Prog Exn (Proc σ φ) α :=
  Prog.zoom Proc.world (fun w p => { p with world := w }) m

/-- `printf`. -/
def print (b : Bytes) : Prog Exn (Proc σ φ) Unit := do
  let _ ← call S (.stdout b)
  pure ()

/-- `fprintf(stderr, …)`. -/
def printErr (b : Bytes) : Prog Exn (Proc σ φ) Unit := do
  let _ ← call S (.stderr b)
  pure ()

/-! ## §2. Files. -/

/-- The loop of `read_file`. -/
def freadLoop (out : Bytes) : Nat → Prog Exn (Proc σ φ) Bytes
  | 0 => fun p => .running p
  | fuel + 1 => do
      let r ← call S (.fread 65536)
      let chunk := r.bytes.take 65536
      let out := out ++ chunk
      if chunk.length = 0 then pure out else freadLoop out fuel

/-- `read_file`: the bytes, or nothing once the message is printed. -/
def readFile (path : Bytes) (fuel : Nat) : Prog Exn (Proc σ φ) (Option Bytes) := do
  let f ← call S (.fopen path "rb")
  if !f.ok then do
    printErr S (text "eitb: cannot open " ++ path ++ text "\n")
    pure none
  else do
    let out ← freadLoop S [] fuel
    let bad ← call S .ferror
    let _ ← call S .fclose
    if !bad.ok then do
      printErr S (text "eitb: read error on " ++ path ++ text "\n")
      pure none
    else pure (some out)

/-- `std::filesystem::path::parent_path`. -/
def parentPath (path : Bytes) : Bytes :=
  let dir := path.rdropWhile (· != 47)
  -- the separators go with the name; of those at the root one is left, and a
  -- path of separators is its own parent
  let parent := dir.rdropWhile (· == 47)
  if parent = [] then if dir = path then dir else dir.take 1 else parent

/-- `ensure_parent_dir`. -/
def ensureParentDir (out : Bytes) : Prog Exn (Proc σ φ) Nat := do
  let parent := parentPath out
  if parent = [] then pure 0
  else do
    let ec ← call S (.createDirectories parent)
    if !ec.ok then do
      printErr S (text "eitb: mkdir " ++ parent ++ text ": " ++ ec.message ++ text "\n")
      pure 1
    else pure 0

/-- How much `fwrite` wrote; for an empty buffer it is not called. -/
def fwriteAll (buf : Bytes) : Prog Exn (Proc σ φ) Nat :=
  if buf ≠ [] then do
    let r ← call S (.fwrite buf)
    pure r.count
  else pure 0

/-- `write_file`. -/
def writeFile (path buf : Bytes) : Prog Exn (Proc σ φ) Nat := do
  if (← ensureParentDir S path) ≠ 0 then pure 1
  else do
    let f ← call S (.fopen path "wb")
    if !f.ok then do
      printErr S (text "eitb: cannot create " ++ path ++ text "\n")
      pure 1
    else do
      let written ← fwriteAll S buf
      if written ≠ buf.length then do
        let _ ← call S .fclose
        printErr S (text "eitb: write error on " ++ path ++ text "\n")
        pure 1
      else do
        let closed ← call S .fclose
        if !closed.ok then do
          printErr S (text "eitb: close error on " ++ path ++ text "\n")
          pure 1
        else pure 0

/-! ## §3. The commands. -/

/-- `is_streaming_profile`. -/
def isStreamingProfile (profile : Bytes) : Bool := (text "streaming-").isPrefixOf profile

/-- `cap_go_runtime`. -/
def capGoRuntime : Prog Exn (Proc σ φ) Unit := do
  -- `4LL << 30`
  let _ ← call S (.setMemoryLimit 4294967296)
  let _ ← call S (.setGcPercent 100)
  pure ()

/-- What both commands print at their end. -/
def summaryLine (verb : String) (infile outfile src out : Bytes) : Bytes :=
  text verb ++ text " " ++ infile ++ text " -> " ++ outfile ++ text " (" ++
    text (toString src.length) ++ text " -> " ++ text (toString out.length) ++ text " bytes)\n"

/-- The loop that prints the blob. -/
def printBlob : Bytes → Prog Exn (Proc σ φ) Unit
  | [] => pure ()
  | b :: blob => do
      printErr S (Hex.byte b)
      printBlob blob

/-- `cmd_encrypt`. -/
def cmdEncrypt (profile infile outfile : Bytes) (fuel : Nat) : Prog Exn (Proc σ φ) Nat := do
  capGoRuntime S
  match ← readFile S infile fuel with
  | none => pure 1
  | some plain => do
      let pipe ← onWorld (Pipeline.init L profile {})
      Prog.ensuring (do
          let wire ← onWorld
            (if isStreamingProfile profile then pipe.encryptStreamPump L junk plain fuel
              else pipe.encryptMessage L junk plain)
          let rc ← writeFile S outfile wire
          if rc = 0 then do
            let blob ← onWorld (pipe.save L)
            printBlob S blob
            printErr S (text "\n")
            print S (summaryLine "encrypted" infile outfile plain wire)
            pure rc
          else pure rc)
        (onWorld (pipe.destroy L))

/-- `hex_nibble`. -/
def hexNibble (c : UInt8) : Int :=
  if 48 ≤ c ∧ c ≤ 57 then (c.toNat : Int) - 48
  else if 97 ≤ c ∧ c ≤ 102 then (c.toNat : Int) - 97 + 10
  else if 65 ≤ c ∧ c ≤ 70 then (c.toNat : Int) - 65 + 10
  else -1

/-- One turn of the loop of `cmd_decrypt`. -/
def blobByte (hex : Bytes) (i : Nat) : Option UInt8 :=
  let hi := hexNibble (hex.getD (2 * i) 0)
  let lo := hexNibble (hex.getD (2 * i + 1) 0)
  if hi < 0 ∨ lo < 0 then none else some (UInt8.ofNat (hi.toNat <<< 4 ||| lo.toNat))

/-- The decoder of `cmd_decrypt`: the blob, or the message it ends with. -/
def blobOfHex (hex : Bytes) : Except Bytes Bytes :=
  if hex.length = 0 ∨ hex.length % 2 ≠ 0 then
    .error (text "eitb: blob hex has odd or zero length\n")
  else
    match (List.range (hex.length / 2)).mapM (blobByte hex) with
    | none => .error (text "eitb: invalid blob hex\n")
    | some blob => .ok blob

/-- `cmd_decrypt`, once it has the blob. -/
def decryptWith (blob profile infile outfile : Bytes) (fuel : Nat) :
    Prog Exn (Proc σ φ) Nat := do
  match ← readFile S infile fuel with
  | none => pure 1
  | some wire => do
      -- the profile only selects the pair of entries
      let pipe ← onWorld (Pipeline.load L blob [] [])
      Prog.ensuring (do
          let plain ← onWorld
            (if isStreamingProfile profile then pipe.decryptStreamPump L junk wire fuel
              else pipe.decryptMessage L junk wire)
          let rc ← writeFile S outfile plain
          if rc = 0 then do
            print S (summaryLine "decrypted" infile outfile wire plain)
            pure rc
          else pure rc)
        (onWorld (pipe.destroy L))

/-- `cmd_decrypt`. -/
def cmdDecrypt (profile blobHex infile outfile : Bytes) (fuel : Nat) :
    Prog Exn (Proc σ φ) Nat := do
  capGoRuntime S
  match blobOfHex blobHex with
  | .error msg => do
      printErr S msg
      pure 1
  | .ok blob => decryptWith L S junk blob profile infile outfile fuel

/-- `itb::version`. -/
def version : Prog Exn (World σ) Bytes := do
  let r ← ffi L (.version 64)
  check L r.rc "version"
  pure ((Buffer.overlay (zeros 64) r.out).takeWhile (· != 0))

/-- `cmd_version`. -/
def cmdVersion : Prog Exn (Proc σ φ) Nat := do
  let v ← onWorld (version L)
  print S (text "libitb3 " ++ v ++ text "\n")
  print S (text "itb-cpp 0.8.3\n")
  pure 0

/-- The quoted runs that `cmd_profiles` prints. -/
def quotedRuns (json : Bytes) : List Bytes :=
  -- behind the opening quote; without a closing one there is no run
  let rest := (json.dropWhile (· != 34)).tail
  if 34 ∈ rest then rest.takeWhile (· != 34) :: quotedRuns (rest.dropWhile (· != 34)).tail
  else []
termination_by json.length
decreasing_by
  rename_i hclose
  have hrest : 0 < (json.dropWhile (· != 34)).tail.length := List.length_pos_of_mem hclose
  have hopen := (List.dropWhile_sublist (l := json) (· != 34)).length_le
  have hend := (List.dropWhile_sublist (l := (json.dropWhile (· != 34)).tail) (· != 34)).length_le
  simp only [List.length_tail] at hrest hend ⊢
  omega

/-- The loop of `cmd_profiles`. -/
def printLines : List Bytes → Prog Exn (Proc σ φ) Unit
  | [] => pure ()
  | b :: bs => do
      print S (b.takeWhile (· != 0) ++ text "\n")
      printLines bs

/-- `cmd_profiles`. -/
def cmdProfiles : Prog Exn (Proc σ φ) Nat := do
  let json ← onWorld (profiles L)
  printLines S (quotedRuns json)
  pure 0

/-- `usage`. -/
def usage : Prog Exn (Proc σ φ) Nat := do
  printErr S (text ("usage: eitb version\n" ++
    "       eitb profiles\n" ++
    "       eitb encrypt <profile> <in-file> <out-file>\n" ++
    "       eitb decrypt <profile> <blob-hex> <in-file> <out-file>\n"))
  pure 2

/-- `what()` of a caught exception, as `%s` prints it. -/
def whatOf : Exn → Bytes
  | .error e => e.what.takeWhile (· != 0)
  | .invalidArgument b => b.takeWhile (· != 0)

/-- The dispatch of `main`.  An argument is its bytes before the NUL. -/
def dispatch (argv : List Bytes) (fuel : Nat) : Prog Exn (Proc σ φ) Nat :=
  match argv with
  | [_, cmd] =>
      if cmd = text "version" then cmdVersion L S
      else if cmd = text "profiles" then cmdProfiles L S
      else usage S
  | [_, cmd, profile, infile, outfile] =>
      if cmd = text "encrypt" then cmdEncrypt L S junk profile infile outfile fuel
      else usage S
  | [_, cmd, profile, blobHex, infile, outfile] =>
      if cmd = text "decrypt" then cmdDecrypt L S junk profile blobHex infile outfile fuel
      else usage S
  | _ => usage S

/-- `main`: the exit code. -/
def main (argv : List Bytes) (fuel : Nat) : Prog Exn (Proc σ φ) Nat :=
  Prog.handle (dispatch L S junk argv fuel) fun e => do
    printErr S (text "eitb: " ++ whatOf e ++ text "\n")
    pure 1

end Commands

/-! ## §4. The decoder. -/

/-- The nibble of a digit, and -1 for anything else. -/
theorem hexNibble_eq (c : UInt8) :
    hexNibble c = if Hex.isDigit c then ((Hex.digitValue c).toNat : Int) else -1 := by
  have all : ∀ n : Fin 256, hexNibble (UInt8.ofFin n) =
      if Hex.isDigit (UInt8.ofFin n) then ((Hex.digitValue (UInt8.ofFin n)).toNat : Int)
      else -1 := by decide +kernel
  exact all c.toFin

/-- Two nibbles make a byte. -/
theorem byte_of_nibbles {x y : UInt8} (hx : x < 16) (hy : y < 16) :
    UInt8.ofNat (x.toNat <<< 4 ||| y.toNat) = x <<< 4 ||| y := by
  have all : ∀ m n : Fin 16, UInt8.ofNat (m.val <<< 4 ||| n.val) =
      UInt8.ofNat m.val <<< 4 ||| UInt8.ofNat n.val := by decide +kernel
  have h := all ⟨x.toNat, UInt8.lt_iff_toNat_lt.mp hx⟩ ⟨y.toNat, UInt8.lt_iff_toNat_lt.mp hy⟩
  rw [UInt8.ofNat_toNat, UInt8.ofNat_toNat] at h
  exact h

theorem blobByte_zero (hi lo : UInt8) (rest : Bytes) :
    blobByte (hi :: lo :: rest) 0 = if Hex.isDigit hi && Hex.isDigit lo then
      some (Hex.digitValue hi <<< 4 ||| Hex.digitValue lo) else none := by
  show (if hexNibble hi < 0 ∨ hexNibble lo < 0 then none else
    some (UInt8.ofNat ((hexNibble hi).toNat <<< 4 ||| (hexNibble lo).toNat))) = _
  rw [hexNibble_eq hi, hexNibble_eq lo]
  by_cases hhi : Hex.isDigit hi = true
  · by_cases hlo : Hex.isDigit lo = true
    · have hsum := byte_of_nibbles (Hex.digit_digitValue hhi).1 (Hex.digit_digitValue hlo).1
      rw [if_pos hhi, if_pos hlo, if_neg (by omega), Int.toNat_natCast, Int.toNat_natCast, hsum,
        hhi, hlo]
      rfl
    · rw [if_neg hlo, if_pos (Or.inr (by decide))]
      simp [hlo]
  · rw [if_neg hhi, if_pos (Or.inl (by decide))]
    simp [hhi]

theorem blobByte_succ (hi lo : UInt8) (rest : Bytes) (i : Nat) :
    blobByte (hi :: lo :: rest) (i + 1) = blobByte rest i := rfl

/-- The loop, a pair of characters on. -/
theorem mapM_blobByte_cons (hi lo : UInt8) (rest : Bytes) (n : Nat) :
    (List.range (n + 1)).mapM (blobByte (hi :: lo :: rest)) =
      if Hex.isDigit hi && Hex.isDigit lo then
        ((List.range n).mapM (blobByte rest)).map fun bs =>
          (Hex.digitValue hi <<< 4 ||| Hex.digitValue lo) :: bs
      else none := by
  rw [List.range_succ_eq_map, List.mapM_cons, List.mapM_map, blobByte_zero]
  have hrest : blobByte (hi :: lo :: rest) ∘ Nat.succ = blobByte rest :=
    funext (blobByte_succ hi lo rest)
  split
  · rw [hrest]
    cases (List.range n).mapM (blobByte rest) <;> rfl
  · rfl

/-- **The loop reads two digits at a time.** -/
theorem mapM_blobByte (hex : Bytes) : hex.length % 2 = 0 →
    (List.range (hex.length / 2)).mapM (blobByte hex) = Hex.decode hex := by
  induction hex using Hex.decode.induct with
  | case1 =>
      intro _
      rfl
  | case2 c =>
      intro h
      cases h
  | case3 hi lo rest hdigits ih =>
      intro h
      have hlen : (hi :: lo :: rest).length = rest.length + 2 := rfl
      have hhalf : (hi :: lo :: rest).length / 2 = rest.length / 2 + 1 := by omega
      rw [hhalf, mapM_blobByte_cons, ih (by omega), Hex.decode]
  | case4 hi lo rest hdigits =>
      intro _
      have hlen : (hi :: lo :: rest).length = rest.length + 2 := rfl
      have hhalf : (hi :: lo :: rest).length / 2 = rest.length / 2 + 1 := by omega
      rw [hhalf, mapM_blobByte_cons, if_neg hdigits, Hex.decode, if_neg hdigits]

/-- **The decoder of `cmd_decrypt`**, the empty string apart. -/
theorem blobOfHex_eq_ok {hex blob : Bytes} :
    blobOfHex hex = .ok blob ↔ hex ≠ [] ∧ Hex.decode hex = some blob := by
  unfold blobOfHex
  by_cases hguard : hex.length = 0 ∨ hex.length % 2 ≠ 0
  · rw [if_pos hguard]
    constructor
    · intro h
      cases h
    · intro h
      obtain ⟨hne, hdecode⟩ := h
      have hlen := Hex.length_of_decode hdecode
      have hpos := List.length_pos_iff.mpr hne
      omega
  · have heven : hex.length % 2 = 0 := by omega
    have hne : hex ≠ [] := by
      intro hnil
      exact hguard (Or.inl (by rw [hnil]; rfl))
    rw [if_neg hguard, mapM_blobByte hex heven]
    cases Hex.decode hex with
    | none => simp
    | some bs => simp [hne]

/-- What some calls print to standard error; whether the stream takes it is up
to the system. -/
def stderrText (cs : List SysCall) : Bytes :=
  cs.flatMap fun c =>
    match c with
    | .stderr b => b
    | _ => []

section Runs

variable {σ φ α : Type} {L : Lib σ} {S : Sys φ} {junk : Nat → Nat → UInt8} {p q : Proc σ φ}
  {s t : Bytes}

/-- Between the two the program printed `t` to standard error. -/
def Says (p q : Proc σ φ) (t : Bytes) : Prop :=
  ∃ cs, q.done = p.done ++ cs ∧ stderrText cs = t

theorem Says.refl (p : Proc σ φ) : Says p p [] := ⟨[], (List.append_nil _).symm, rfl⟩

theorem Says.trans {r : Proc σ φ} (h : Says p q s) (h' : Says q r t) : Says p r (s ++ t) := by
  obtain ⟨cs, hq, rfl⟩ := h
  obtain ⟨cs', hr, rfl⟩ := h'
  refine ⟨cs ++ cs', ?_, List.flatMap_append⟩
  rw [hr, hq, List.append_assoc]

theorem Says.quiet {r : Proc σ φ} (h : Says p q s) (h' : Says q r []) : Says p r s := by
  have hboth := h.trans h'
  rwa [List.append_nil] at hboth

variable {β : Type} {f : α → Prog Exn (Proc σ φ) β} {Q : Prog.Post Exn (Proc σ φ) β}

/-- The rule for a call and what follows it. -/
theorem wp_call {f : SysReply → Prog Exn (Proc σ φ) β} (c : SysCall)
    (h : ∀ r q, Says p q (stderrText [c]) → Prog.wp (f r) Q q) :
    Prog.wp (call S c >>= f) Q p := by
  rw [Prog.wp_bind]
  exact h _ _ ⟨[c], rfl, rfl⟩

/-- The rule for a message and what follows it. -/
theorem wp_printErr {f : Unit → Prog Exn (Proc σ φ) β} (b : Bytes)
    (h : ∀ q, Says p q b → Prog.wp (f ()) Q q) : Prog.wp (printErr S b >>= f) Q p := by
  unfold printErr
  rw [Prog.bind_bind]
  refine wp_call _ fun r q hq => h q ?_
  simpa [stderrText] using hq

/-- The rule for a message and the exit code 1, where only a 0 promises
anything. -/
theorem wp_failed {P : Proc σ φ → Prop} {T : Exn → Proc σ φ → Prop} {R : Proc σ φ → Prop}
    (b : Bytes) : Prog.wp (do printErr S b; pure 1) ⟨fun rc q => rc = 0 → P q, T, R⟩ p := by
  refine wp_printErr b fun q _ => ?_
  intro hzero
  cases hzero

/-- The rule for an entry of the binding and what follows it. -/
theorem wp_onWorld {m : Prog Exn (World σ) α}
    (h : ∀ a w q, m p.world = .ok a w → Says p q [] → Prog.wp (f a) Q q)
    (hthrew : ∀ e q, Q.threw e q) (hrun : ∀ q, Q.running q) :
    Prog.wp (onWorld m >>= f) Q p := by
  unfold onWorld
  rw [Prog.wp_bind, Prog.wp_zoom]
  unfold Prog.wp
  cases hm : m p.world with
  | ok a w => exact h a w _ hm (Says.refl p)
  | threw e w => exact hthrew e _
  | running w => exact hrun _

/-- A message that something went wrong. -/
def Notice (msg : Bytes) : Prop := text "eitb: " <+: msg ∨ text "usage: " <+: msg

theorem Notice.append {a : Bytes} (h : Notice a) (b : Bytes) : Notice (a ++ b) :=
  h.imp (fun h => h.trans (List.prefix_append a b)) fun h => h.trans (List.prefix_append a b)

/-- Silence if it went well, and one notice if it did not. -/
def Reports (p q : Proc σ φ) (fine : Prop) : Prop :=
  (fine → Says p q []) ∧ (¬ fine → ∃ msg, Says p q msg ∧ Notice msg)

theorem Reports.of_silence {fine : Prop} (h : Says p q []) (hfine : fine) : Reports p q fine :=
  ⟨fun _ => h, fun hbad => (hbad hfine).elim⟩

theorem Reports.after {r : Proc σ φ} {fine : Prop} (h : Reports q r fine) (hq : Says p q []) :
    Reports p r fine :=
  ⟨fun hfine => hq.trans (h.1 hfine), fun hbad => (h.2 hbad).imp fun _ h => ⟨hq.trans h.1, h.2⟩⟩

/-- The rule for a notice that ends a function. -/
theorem wp_notice {a : α} {msg : Bytes} {fine : α → Prop}
    {T : Exn → Proc σ φ → Prop} {R : Proc σ φ → Prop} (hq : Says p q []) (hmsg : Notice msg)
    (hbad : ¬ fine a) :
    Prog.wp (do printErr S msg; pure a) ⟨fun a q => Reports p q (fine a), T, R⟩ q := by
  refine wp_printErr msg fun q' hq' => ?_
  exact ⟨fun hfine => (hbad hfine).elim, fun _ => ⟨msg, hq.trans hq', hmsg⟩⟩

/-- A loop of reads is silent. -/
theorem wp_freadLoop (fuel : Nat) : ∀ (out : Bytes) (p : Proc σ φ),
    Prog.wp (freadLoop S out fuel) ⟨fun _ q => Says p q [], fun _ _ => False, fun _ => True⟩ p := by
  induction fuel with
  | zero =>
      intro out p
      exact trivial
  | succ fuel ih =>
      intro out p
      unfold freadLoop
      refine wp_call _ fun r q hq => ?_
      dsimp only
      rw [Prog.wp_ite]
      split
      · exact hq
      · exact (ih _ q).mono_ok fun _ _ h => hq.quiet h

/-- `read_file` says when there is nothing to be had. -/
theorem wp_readFile_reports (path : Bytes) (fuel : Nat) (p : Proc σ φ) :
    Prog.wp (readFile S path fuel)
      ⟨fun r q => Reports p q (r ≠ none), fun _ _ => False, fun _ => True⟩ p := by
  unfold readFile
  refine wp_call _ fun r q hq => ?_
  rw [Prog.wp_ite]
  split
  · exact wp_notice hq (.append (.append (.inl (by decide)) _) _) fun hsome => hsome rfl
  · rw [Prog.wp_bind]
    refine (wp_freadLoop fuel [] q).mono_ok fun out q₁ h₁ => ?_
    refine wp_call _ fun bad q₂ h₂ => ?_
    refine wp_call _ fun _ q₃ h₃ => ?_
    have hsilent : Says p q₃ [] := ((hq.quiet h₁).quiet h₂).quiet h₃
    rw [Prog.wp_ite]
    split
    · exact wp_notice hsilent (.append (.append (.inl (by decide)) _) _) fun hsome => hsome rfl
    · exact .of_silence hsilent nofun

/-- A file that is read is read in silence. -/
theorem wp_readFile (path : Bytes) (fuel : Nat) (p : Proc σ φ) :
    Prog.wp (readFile S path fuel)
      ⟨fun r q => r ≠ none → Says p q [], fun _ _ => True, fun _ => True⟩ p :=
  (wp_readFile_reports path fuel p).mono (fun _ _ h => h.1) (fun _ _ h => h.elim) fun _ h => h

theorem wp_ensureParentDir (out : Bytes) (p : Proc σ φ) :
    Prog.wp (ensureParentDir S out)
      ⟨fun rc q => Reports p q (rc = 0), fun _ _ => False, fun _ => False⟩ p := by
  unfold ensureParentDir
  dsimp only
  rw [Prog.wp_ite]
  split
  · exact .of_silence (Says.refl _) rfl
  · refine wp_call _ fun ec q hq => ?_
    rw [Prog.wp_ite]
    split
    · exact wp_notice hq (.append (.append (.append (.append (.inl (by decide)) _) _) _) _) nofun
    · exact .of_silence hq rfl

theorem wp_fwriteAll (buf : Bytes) (p : Proc σ φ) :
    Prog.wp (fwriteAll S buf) ⟨fun _ q => Says p q [], fun _ _ => False, fun _ => False⟩ p := by
  unfold fwriteAll
  rw [Prog.wp_ite]
  split
  · exact wp_call _ fun _ q hq => hq
  · exact Says.refl _

/-- `write_file` says which step went wrong. -/
theorem wp_writeFile_reports (path buf : Bytes) (p : Proc σ φ) :
    Prog.wp (writeFile S path buf)
      ⟨fun rc q => Reports p q (rc = 0), fun _ _ => False, fun _ => False⟩ p := by
  unfold writeFile
  rw [Prog.wp_bind]
  refine (wp_ensureParentDir path p).mono_ok fun rc q hq => ?_
  rw [Prog.wp_ite]
  split
  · rename_i hrc
    exact ⟨nofun, fun _ => hq.2 hrc⟩
  · rename_i hrc
    have hq := hq.1 (not_not.mp hrc)
    refine wp_call _ fun file q₁ h₁ => ?_
    have hopened := hq.quiet h₁
    rw [Prog.wp_ite]
    split
    · exact wp_notice hopened (.append (.append (.inl (by decide)) _) _) nofun
    · rw [Prog.wp_bind]
      refine (wp_fwriteAll buf q₁).mono_ok fun n q₂ h₂ => ?_
      rw [Prog.wp_ite]
      split
      · refine wp_call _ fun _ q₃ h₃ => ?_
        exact wp_notice ((hopened.quiet h₂).quiet h₃)
          (.append (.append (.inl (by decide)) _) _) nofun
      · refine wp_call _ fun closed q₃ h₃ => ?_
        have hclosed := (hopened.quiet h₂).quiet h₃
        rw [Prog.wp_ite]
        split
        · exact wp_notice hclosed (.append (.append (.inl (by decide)) _) _) nofun
        · exact .of_silence hclosed rfl

/-- A file that is written is written in silence. -/
theorem wp_writeFile (path buf : Bytes) (p : Proc σ φ) :
    Prog.wp (writeFile S path buf)
      ⟨fun rc q => rc = 0 → Says p q [], fun _ _ => False, fun _ => False⟩ p :=
  (wp_writeFile_reports path buf p).mono_ok fun _ _ h => h.1

/-- The blob is printed byte by byte. -/
theorem wp_printBlob (blob : Bytes) : ∀ p : Proc σ φ,
    Prog.wp (printBlob S blob)
      ⟨fun _ q => Says p q (Hex.encode blob), fun _ _ => False, fun _ => False⟩ p := by
  induction blob with
  | nil =>
      intro p
      exact Says.refl _
  | cons b blob ih =>
      intro p
      unfold printBlob
      refine wp_printErr _ fun q hq => ?_
      exact (ih q).mono_ok fun _ _ h => hq.trans h

end Runs

end ItbCpp.Eitb

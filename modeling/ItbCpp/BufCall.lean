/-
  ItbCpp.BufCall
  ──────────────
  **CALLER-ALLOCATED BUFFERS** (`src/pipeline.cpp`, `src/error.cpp`).

  Every variable-size output crosses the boundary in a buffer the binding
  allocates: `bufCall` for blobs and JSON records, `cipherCall` for cipher
  outputs, `cipherCallInto` for a buffer the caller owns.  The first two
  ask again, once, when the library reports a larger size.

  `bufCall` and `cipherCall` are two uses of ONE machine, `retryOnce`,
  with ONE spec lemma (`wp_retryOnce`) in terms of the library's answers;
  `wp_cipherCallInto` is the spec of the third helper.
-/
import ItbCpp.Ffi

namespace ItbCpp

/-! ## §1. Sizes. -/

/-- `detail::kBlobCap`. -/
def kBlobCap : Nat := 64 * 1024

/-- The number of values of `size_t`. -/
def sizeMod : Nat := UInt64.size

/-- `detail::out_cap`, in `size_t` arithmetic. -/
def outCap (payload : Nat) : Nat :=
  let floorCap := 131072
  let cap := (payload + payload / 4) % sizeMod
  if cap < payload ∨ (cap + floorCap) % sizeMod < cap then
    payload -- overflow-adjacent sizes: exact payload
  else
    let cap := (cap + floorCap) % sizeMod
    if cap > floorCap then cap else floorCap

/-- `itb::out_bound`. -/
def outBound (payload : Nat) : Nat := outCap payload

/-- `wipe_bytes`: the buffer with every byte zeroed. -/
def wipeBytes (buf : Bytes) : Bytes := buf.map fun _ => 0

/-! ## §2. The library functions behind the helpers. -/

/-- The functions that `buf_call` is used with: the lambda each entry
passes, without its buffer. -/
inductive BlobFn where
  | init (profile opts : CString)
  | initKeys (profile opts : CString) (flat : Bytes) (lens : List Nat)
  | save (h : Handle)
  | rekey (h : Handle) (perm wrap : Bytes)
  | inspect (blob : Bytes)
  | lookup (name : CString)
  | profiles
  | hashNames
  deriving DecidableEq

/-- The call made with a buffer of `cap` bytes. -/
def BlobFn.call : BlobFn → Nat → FfiCall
  | .init profile opts, cap => .init profile opts cap
  | .initKeys profile opts flat lens, cap => .initKeys profile opts flat lens cap
  | .save h, cap => .save h cap
  | .rekey h perm wrap, cap => .rekey h perm wrap cap
  | .inspect blob, cap => .inspect blob cap
  | .lookup name, cap => .lookup name cap
  | .profiles, cap => .profiles cap
  | .hashNames, cap => .hashNames cap

/-- The function pointers of type `CipherFn`. -/
inductive CipherFn where
  | encryptMessage | decryptMessage | encryptStream | decryptStream
  deriving DecidableEq, Repr

def CipherFn.call : CipherFn → Handle → Bytes → Nat → FfiCall
  | .encryptMessage => .encryptMessage
  | .decryptMessage => .decryptMessage
  | .encryptStream => .encryptStream
  | .decryptStream => .decryptStream

/-- A block of `n` bytes that was not initialised: `junk` is what the
memory happens to hold. -/
def uninit (junk : Nat → Nat → UInt8) (n : Nat) : Bytes := (List.range n).map (junk n)

@[simp] theorem length_uninit (junk : Nat → Nat → UInt8) (n : Nat) :
    (uninit junk n).length = n := by
  simp [uninit]

@[simp] theorem length_zeros (n : Nat) : (zeros n).length = n := List.length_replicate

/-! ## §3. The helpers. -/

section Helpers

variable {σ : Type} (L : Lib σ)

/-- The tail of `buf_call` and `cipher_call`: check the code, check the
reported length against the buffer, return that many bytes. -/
def checkedPrefix (buf : Bytes) (r : Reply) (what : String) : Prog Exn (World σ) Bytes := do
  check L r.rc what
  if r.len > buf.length then
    fail L Status.internal.code what
  else
    pure (buf.take r.len)

/-- `buf_call`.  The answer of the last call is returned with the bytes: it
is what the lambda has captured. -/
def bufCall (fn : BlobFn) (what : String) : Prog Exn (World σ) (Bytes × Reply) := do
  let r₁ ← ffi L (fn.call (zeros kBlobCap).length)
  let buf₁ := Buffer.overlay (zeros kBlobCap) r₁.out
  let (buf, r) ←
    if r₁.rc = Status.bufferTooSmall.code ∧ r₁.len > buf₁.length then do
      -- `assign` outgrows the block and gives it back
      emit (.dealloc (wipeBytes buf₁))
      let buf₂ := zeros r₁.len
      let r₂ ← ffi L (fn.call buf₂.length)
      pure (Buffer.overlay buf₂ r₂.out, r₂)
    else
      pure (buf₁, r₁)
  -- the destructor of the guard wipes on every way out
  Prog.ensuring (do
      let bytes ← checkedPrefix L buf r what
      pure (bytes, r))
    (emit (.dealloc (wipeBytes buf)))

/-- `cipher_call`. -/
def cipherCall (junk : Nat → Nat → UInt8) (handle : Handle) (fn : CipherFn) (src : Bytes)
    (what : String) : Prog Exn (World σ) Bytes := do
  let cap := outCap src.length
  let r₁ ← ffi L (fn.call handle src cap)
  let buf₁ := Buffer.overlay (uninit junk cap) r₁.out
  let (buf, r) ←
    if r₁.rc = Status.bufferTooSmall.code ∧ r₁.len > cap then do
      let cap := r₁.len
      -- assigning the new block gives the old one back
      emit (.dealloc buf₁)
      let r₂ ← ffi L (fn.call handle src cap)
      pure (Buffer.overlay (uninit junk cap) r₂.out, r₂)
    else
      pure (buf₁, r₁)
  Prog.ensuring (checkedPrefix L buf r what) (emit (.dealloc buf))

/-- `cipher_call_into`: one call into the caller's buffer, no retry. -/
def cipherCallInto (handle : Handle) (fn : CipherFn) (src dst : Bytes) (what : String) :
    Prog Exn (World σ) (Nat × Bytes) := do
  let r ← ffi L (fn.call handle src dst.length)
  check L r.rc what
  if r.len > dst.length then
    fail L Status.internal.code what
  else
    pure (r.len, Buffer.overlay dst r.out)

/-! ## §4. The protocol the two helpers share.

    `bufCall` and `cipherCall` are written separately in the source.  Both
    are the one machine `retryOnce`, which differs between them in the
    initial capacity, in what a fresh buffer holds and in whether a buffer
    is wiped. -/

/-- An answer that asks for a second attempt. -/
abbrev Reply.asksForMore (r : Reply) (cap : Nat) : Prop :=
  r.rc = Status.bufferTooSmall.code ∧ cap < r.len

/-- **The retry-once protocol**: call with capacity `cap`; if the answer
asks for more, call once more with the reported size; then judge the last
answer.  `block n` is a fresh buffer of `n` bytes and `scrub` what is done
to a buffer before it is given back. -/
def retryOnce (call : Nat → FfiCall) (cap : Nat) (block : Nat → Bytes)
    (scrub : Bytes → Bytes) (what : String) : Prog Exn (World σ) (Bytes × Reply) := do
  let r₁ ← ffi L (call cap)
  let buf₁ := Buffer.overlay (block cap) r₁.out
  let (buf, r) ←
    if r₁.asksForMore cap then do
      emit (.dealloc (scrub buf₁))
      let r₂ ← ffi L (call r₁.len)
      pure (Buffer.overlay (block r₁.len) r₂.out, r₂)
    else
      pure (buf₁, r₁)
  Prog.ensuring (do
      let bytes ← checkedPrefix L buf r what
      pure (bytes, r))
    (emit (.dealloc (scrub buf)))

end Helpers

section Protocol

variable {σ : Type} {L : Lib σ}

theorem bufCall_eq_retryOnce (fn : BlobFn) (what : String) :
    bufCall L fn what = retryOnce L fn.call kBlobCap zeros wipeBytes what := by
  simp only [bufCall, retryOnce, length_zeros, Buffer.length_overlay]

theorem cipherCall_eq_retryOnce (junk : Nat → Nat → UInt8) (handle : Handle) (fn : CipherFn)
    (src : Bytes) (what : String) :
    cipherCall L junk handle fn src what =
      (retryOnce L (fn.call handle src) (outCap src.length) (uninit junk) id what >>=
        fun p => pure p.1) := by
  simp only [cipherCall, retryOnce, Prog.bind_bind]
  refine congrArg (ffi L _ >>= ·) (funext fun r₁ => ?_)
  -- `cipher_call` does not capture its answer: the pair is dropped at the end
  by_cases h : r₁.asksForMore (outCap src.length)
  · rw [if_pos h, if_pos h]
    simp only [Prog.bind_bind, Prog.ensuring_bind_pure, Prog.pure_bind, Prog.bind_pure, id]
  · rw [if_neg h, if_neg h]
    simp only [Prog.bind_bind, Prog.ensuring_bind_pure, Prog.pure_bind, Prog.bind_pure, id]

/-- The status a last answer is refused with: its own code when that is not
0, `internal` when the length it reports exceeds the buffer. -/
def verdict (cap : Nat) (r : Reply) : Option Status :=
  if r.rc ≠ 0 then some (toStatus r.rc)
  else if cap < r.len then some .internal
  else none

theorem verdict_eq_none {cap : Nat} {r : Reply} :
    verdict cap r = none ↔ r.rc = 0 ∧ r.len ≤ cap := by
  unfold verdict
  by_cases hrc : r.rc = 0
  · rw [if_neg (not_not.mpr hrc)]
    by_cases hlen : cap < r.len
    · rw [if_pos hlen]
      simp
      omega
    · rw [if_neg hlen]
      simp [hrc]
      omega
  · rw [if_pos hrc]
    simp [hrc]

/-- A refusal is never reported as `ok`. -/
theorem verdict_ne_ok (cap : Nat) (r : Reply) : verdict cap r ≠ some .ok := by
  unfold verdict
  by_cases hrc : r.rc = 0
  · rw [if_neg (not_not.mpr hrc)]
    split <;> simp
  · rw [if_pos hrc]
    intro h
    exact hrc (toStatus_eq_ok.mp (Option.some.inj h))

theorem wp_checkedPrefix {w : World σ} (buf : Bytes) (r : Reply) (what : String)
    {Q : Prog.Post Exn (World σ) Bytes}
    (hok : verdict buf.length r = none → Q.ok (buf.take r.len) w)
    (hfail : ∀ e w', verdict buf.length r = some e.status → AfterLastError w w' →
      Q.threw (.error e) w') :
    Prog.wp (checkedPrefix L buf r what) Q w := by
  unfold checkedPrefix
  rw [Prog.wp_bind]
  refine wp_check r.rc what ?_ ?_
  · intro hrc
    show Prog.wp _ _ _
    by_cases hlen : r.len > buf.length
    · rw [if_pos hlen]
      refine wp_fail _ what fun e w' he hw' => hfail e w' ?_ hw'
      rw [he, verdict, if_neg (not_not.mpr hrc), if_pos hlen]
      rfl
    · rw [if_neg hlen]
      exact hok (verdict_eq_none.mpr ⟨hrc, by omega⟩)
  · intro e w' hrc he hw'
    refine hfail e w' ?_ hw'
    rw [he, verdict, if_pos hrc]

/-- `cipherCallInto`: the one answer decides. -/
theorem wp_cipherCallInto {h : Handle} {fn : CipherFn} {src dst : Bytes} {what : String}
    {w : World σ} {c : FfiCall} (hc : c = fn.call h src dst.length)
    {Q : Prog.Post Exn (World σ) (Nat × Bytes)}
    (hok : verdict dst.length (L c w.lib).1 = none →
      Q.ok ((L c w.lib).1.len, Buffer.overlay dst (L c w.lib).1.out)
        (w.answered c (L c w.lib)))
    (hfail : ∀ e w', verdict dst.length (L c w.lib).1 = some e.status →
      AfterLastError (w.answered c (L c w.lib)) w' → Q.threw (.error e) w') :
    Prog.wp (cipherCallInto L h fn src dst what) Q w := by
  subst hc
  unfold cipherCallInto
  rw [Prog.wp_bind, wp_ffi]
  show Prog.wp _ _ _
  rw [Prog.wp_bind]
  apply wp_check
  · intro hrc
    show Prog.wp _ _ _
    by_cases hlen : (L (fn.call h src dst.length) w.lib).1.len > dst.length
    · rw [if_pos hlen]
      apply wp_fail
      intro e w' he hw'
      refine hfail e w' ?_ hw'
      rw [he, verdict, if_neg (not_not.mpr hrc), if_pos hlen]
      rfl
    · rw [if_neg hlen]
      exact hok (verdict_eq_none.mpr ⟨hrc, by omega⟩)
  · intro e w' hrc he hw'
    refine hfail e w' ?_ hw'
    rw [he, verdict, if_pos hrc]

/-- The last attempt of the protocol: the capacity offered, what the buffer
holds after it, the answer, and the world the answer is judged in. -/
structure Attempt (σ : Type) where
  cap : Nat
  buf : Bytes
  reply : Reply
  world : World σ

/-- The first attempt, or the second when the first answer asks for it. -/
def lastAttempt (L : Lib σ) (call : Nat → FfiCall) (cap : Nat) (block : Nat → Bytes)
    (scrub : Bytes → Bytes) (w : World σ) : Attempt σ :=
  let a₁ := L (call cap) w.lib
  let buf₁ := Buffer.overlay (block cap) a₁.1.out
  let w₁ := w.answered (call cap) a₁
  if a₁.1.asksForMore cap then
    let a₂ := L (call a₁.1.len) a₁.2
    { cap := a₁.1.len
      buf := Buffer.overlay (block a₁.1.len) a₂.1.out
      reply := a₂.1
      world := (w₁.log (.dealloc (scrub buf₁))).answered (call a₁.1.len) a₂ }
  else
    { cap := cap, buf := buf₁, reply := a₁.1, world := w₁ }

theorem lastAttempt_buf_length {call : Nat → FfiCall} {cap : Nat} {block : Nat → Bytes}
    {scrub : Bytes → Bytes} (hblock : ∀ n, (block n).length = n) (w : World σ) :
    (lastAttempt L call cap block scrub w).buf.length =
      (lastAttempt L call cap block scrub w).cap := by
  simp only [lastAttempt]
  split <;> simp [hblock]

/-- A first answer that is good is the last. -/
theorem lastAttempt_first {call : Nat → FfiCall} {cap : Nat} {block : Nat → Bytes}
    {scrub : Bytes → Bytes} {w : World σ} {r : Reply} {s : σ}
    (hr : L (call cap) w.lib = (r, s)) (hrc : r.rc = 0) :
    lastAttempt L call cap block scrub w =
      { cap := cap
        buf := Buffer.overlay (block cap) r.out
        reply := r
        world := w.answered (call cap) (r, s) } := by
  have hdone : ¬ r.asksForMore cap := fun hmore => absurd (hrc.symm.trans hmore.1) (by decide)
  simp only [lastAttempt, hr, if_neg hdone]

/-- **The protocol's spec**: the last attempt decides; the buffer is
scrubbed and given back on both ways out. -/
theorem wp_retryOnce {call : Nat → FfiCall} {cap : Nat} {block : Nat → Bytes}
    {scrub : Bytes → Bytes} {what : String} {w : World σ}
    {Q : Prog.Post Exn (World σ) (Bytes × Reply)} (hblock : ∀ n, (block n).length = n)
    {a : Attempt σ} (ha : a = lastAttempt L call cap block scrub w)
    (hok : verdict a.cap a.reply = none →
      Q.ok (a.buf.take a.reply.len, a.reply) (a.world.log (.dealloc (scrub a.buf))))
    (hfail : ∀ e w', verdict a.cap a.reply = some e.status → AfterLastError a.world w' →
      Q.threw (.error e) (w'.log (.dealloc (scrub a.buf)))) :
    Prog.wp (retryOnce L call cap block scrub what) Q w := by
  have hlen : a.buf.length = a.cap := by
    rw [ha]
    exact lastAttempt_buf_length hblock w
  -- what is left once the last answer is in
  have htail : Prog.wp (Prog.ensuring (do
      let bytes ← checkedPrefix L a.buf a.reply what
      pure (bytes, a.reply)) (emit (.dealloc (scrub a.buf)))) Q a.world := by
    rw [Prog.wp_ensuring, Prog.wp_bind]
    refine wp_checkedPrefix a.buf a.reply what ?_ ?_
    · intro hv
      exact hok (hlen ▸ hv)
    · intro e w' hv hw'
      exact hfail e w' (hlen ▸ hv) hw'
  unfold retryOnce
  rw [Prog.wp_bind, wp_ffi]
  show Prog.wp _ Q _
  unfold lastAttempt at ha
  -- one attempt or two: `lastAttempt` takes the same branch
  by_cases hmore : (L (call cap) w.lib).1.asksForMore cap
  · rw [if_pos hmore] at ha ⊢
    subst ha
    exact htail
  · rw [if_neg hmore] at ha ⊢
    subst ha
    exact htail

end Protocol

end ItbCpp

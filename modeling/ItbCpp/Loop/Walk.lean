/-
  ItbCpp.Loop.Walk
  ────────────────
  **A WORKER'S STEPS, ONCE FOR EVERY PROTOCOL.**

  A worker in good order stands somewhere in `S`; an `itb::Error` that it
  has caught leaves it in `E e`, and one that it has recorded in `B`.
  What a protocol has to say of single requests and of the entries of the
  binding (`Walk`, `Shift`) carries a round trip, an iteration and
  maintenance from one of the three to another.

    • `Gives` — a call that is won, or else leaves the worker in `B`,
    • `Walk.pump`, `Walk.roundTrip` — the cipher surfaces,
    • `Walk.rekeyPipe`, `Walk.blobCyclePipe` — maintenance,
    • `Shift.iterate`, `Shift.workerMaintenance` — what a worker's loop
      calls.
-/
import ItbCpp.Loop.Conduct

namespace ItbCpp.Loop

open Thread

section Gives

variable {τ α β : Type} {P : Protocol Req Req.Answer τ} {S G G' B : τ → Prop}
  {E : Error → τ → Prop} {won : α → Bool}

/-! ## §1. Results. -/

/-- No exception, wherever the thread stands. -/
def Nowhere (_ : Exn) (_ : τ) : Prop := False

/-- An `itb::Error`, and where it leaves the thread. -/
def Thrown (E : Error → τ → Prop) (x : Exn) (t : τ) : Prop := ∃ e, x = .error e ∧ E e t

/-- The same, caught. -/
def Tried (S : τ → Prop) (E : Error → τ → Prop) : Except Error α → τ → Prop
  | .ok _, t => S t
  | .error e, t => E e t

/-- The call gives a result that is `won` and ends in `G`, or ends in `B`. -/
def Gives (P : Protocol Req Req.Answer τ) (S : τ → Prop) (m : Task α) (won : α → Bool)
    (G B : τ → Prop) : Prop :=
  ∀ t, S t → m.wp P ⟨fun x t' => (won x = true ∧ G t') ∨ (won x = false ∧ B t'), Nowhere⟩ t

theorem gives_won {x : α} (hx : won x = true) : Gives P S (Thread.ret x) won S B :=
  fun _ ht => Or.inl ⟨hx, ht⟩

/-- What is left to show once a call has given its result. -/
theorem Gives.wp {m : Task α} {R : Ends Exn τ α} {t : τ} (h : Gives P S m won G B) (ht : S t)
    (hwon : ∀ x t', won x = true → G t' → R.ok x t')
    (hlost : ∀ x t', won x = false → B t' → R.ok x t') : m.wp P R t := by
  refine (h t ht).mono ?_ fun _ _ h => h.elim
  intro x t' hx
  rcases hx with ⟨hx, hg⟩ | ⟨hx, hb⟩
  · exact hwon x t' hx hg
  · exact hlost x t' hx hb

/-- A call that keeps to `S`, then one that gives a result. -/
theorem gives_after {m : Task β} {f : β → Task α} (hm : Remains P S Nowhere m)
    (hf : ∀ b, Gives P S (f b) won G B) : Gives P S (m >>= f) won G B := by
  intro t ht
  rw [wp_bind]
  exact (hm t ht).mono (fun b t' ht' => hf b t' ht') fun _ _ h => h

/-- A call that records an error, then giving up. -/
theorem gives_failed {m : Task Unit} {x : α} (hm : ∀ t, S t → m.wp P ⟨fun _ => B, Nowhere⟩ t)
    (hx : won x = false) : Gives P S (m >>= fun _ => .ret x) won G B := by
  intro t ht
  rw [wp_bind]
  exact (hm t ht).mono (fun _ t' ht' => Or.inr ⟨hx, ht'⟩) fun _ _ h => h

theorem gives_ite {c : Prop} [Decidable c] {m m' : Task α} (h : c → Gives P S m won G B)
    (h' : ¬ c → Gives P S m' won G B) : Gives P S (if c then m else m') won G B := by
  by_cases hc : c
  · rw [if_pos hc]
    exact h hc
  · rw [if_neg hc]
    exact h' hc

/-- One call, and the other only if the first was won. -/
theorem gives_and {m m' : Task Bool} (h : Gives P S m (fun b => b) G B)
    (h' : Gives P G m' (fun b => b) G' B) :
    Gives P S (m >>= fun b => if b then m' else .ret false) (fun b => b) G' B := by
  intro t ht
  rw [wp_bind]
  refine h.wp ht (fun b t' hb hg => ?_) fun b t' hb hbad => ?_
  · obtain rfl : b = true := hb
    exact h' t' hg
  · obtain rfl : b = false := hb
    exact Or.inr ⟨rfl, hbad⟩

/-- One call, and what is done with its result if there is one. -/
theorem gives_some {m : Task (Option β)} {f : Option β → Task α} {x : α}
    (h : Gives P S m Option.isSome G B) (hsome : ∀ b, Gives P G (f (some b)) won G' B)
    (hnone : f none = .ret x) (hx : won x = false) : Gives P S (m >>= f) won G' B := by
  intro t ht
  rw [wp_bind]
  refine h.wp ht (fun r t' hr hg => ?_) fun r t' hr hbad => ?_
  · obtain ⟨b, rfl⟩ := Option.isSome_iff_exists.mp hr
    exact hsome b t' hg
  · obtain rfl : r = none := by
      cases r with
      | none => rfl
      | some b => cases hr
    show (f none).wp P _ t'
    rw [hnone]
    exact Or.inr ⟨hx, hbad⟩

/-- A scope whose destructor keeps to where the call ends. -/
theorem gives_ensuring {m : Task α} {d : Task Unit} (hm : Gives P S m won G B)
    (hg : Remains P G Nowhere d) (hb : Remains P B Nowhere d) :
    Gives P S (m.ensuring d) won G B := by
  intro t ht
  rw [wp_ensuring]
  refine hm.wp ht (fun x t' hx ht' => ?_) fun x t' hx ht' => ?_
  · exact (hg t' ht').mono (fun _ _ h => Or.inl ⟨hx, h⟩) fun _ _ h => h
  · exact (hb t' ht').mono (fun _ _ h => Or.inr ⟨hx, h⟩) fun _ _ h => h

/-- A call that is tried, and what is done in either case. -/
theorem gives_tried {m : Task (Except Error β)} {f : Except Error β → Task α}
    (hm : ∀ t, S t → m.wp P ⟨Tried S E, Nowhere⟩ t)
    (hok : ∀ b, Gives P S (f (.ok b)) won G B)
    (herror : ∀ e, Gives P (E e) (f (.error e)) won G B) : Gives P S (m >>= f) won G B := by
  intro t ht
  rw [wp_bind]
  refine (hm t ht).mono (fun r t' hr => ?_) fun _ _ h => h
  cases r with
  | ok b => exact hok b t' hr
  | error e => exact herror e t' hr

/-- `attempt` catches what the binding throws. -/
theorem wp_attempt {m : Task β} (h : Remains P S (Thrown E) m) (t : τ) (ht : S t) :
    (attempt m).wp P ⟨Tried S E, Nowhere⟩ t := by
  unfold attempt
  rw [wp_handle, wp_bind]
  refine (h t ht).mono (fun b t' ht' => ht') fun x t' hx => ?_
  obtain ⟨e, rfl, he⟩ := hx
  exact he

/-- A call that throws nothing may be taken to throw anything. -/
theorem anyExn {m : Task α} {F : Exn → τ → Prop} (h : Remains P S Nowhere m) :
    Remains P S F m :=
  fun t ht => (h t ht).mono (fun _ _ h => h) fun _ _ h => h.elim

end Gives

/-! ## §2. What a protocol has to say. -/

/-- The entries of the binding that a worker calls. -/
inductive Entry : {α : Type} → Call α → Prop where
  | cipher (junk : Nat → Nat → UInt8) (h : Handle) (fn : CipherFn) (src : Bytes)
      (what : String) : Entry (Call.cipherCall junk h fn src what)
  | begin (encrypt : Bool) (self : Pipeline) :
      Entry (if encrypt then Call.encryptStreamBegin self else Call.decryptStreamBegin self)
  | write (session : Stream) (src : Bytes) : Entry (Call.write session src)
  | end_ (session : Stream) : Entry (Call.end_ session)
  | read (session : Stream) (dst : Bytes) : Entry (Call.read session dst)
  | destroyStream (session : Stream) : Entry (Call.destroyStream session)
  | rekey (self : Pipeline) (perm wrap : Bytes) : Entry (Call.rekey self perm wrap)
  | load (blob perm wrap : Bytes) : Entry (Call.load blob perm wrap)
  | moveAssign (self other : Pipeline) : Entry (Call.moveAssign self other)
  | destroyPipeline (self : Pipeline) : Entry (Call.destroyPipeline self)

theorem Entry.throws {α : Type} {m : Call α} (h : Entry m) : m.Throws Exn.IsError := by
  cases h with
  | cipher => exact Call.throws_cipherCall _ _ _ _ _
  | begin => exact Call.throws_begin _ _
  | write => exact Call.throws_write _ _
  | end_ => exact Call.throws_end _
  | read => exact Call.throws_read _ _
  | destroyStream => exact Call.throws_destroyStream _
  | rekey => exact Call.throws_rekey _ _ _
  | load => exact Call.throws_load _ _ _
  | moveAssign => exact Call.throws_moveAssign _ _
  | destroyPipeline => exact Call.throws_destroyPipeline _

/-- The requests of a walk that only look, or touch what `pipe_lock` guards. -/
def Req.looks : Req → Bool
  | .blob _ | .setBlob _ _ | .fillRandom _ | .self => true
  | _ => false

/-- What a worker records when it is given no random bytes. -/
inductive CsprngText : Bytes → Prop where
  | master (layer : String) (id iter : Nat) :
      CsprngText (place id iter ++ text ": csprng: " ++ text layer ++ text " master")
  | refill (id iter : Nat) : CsprngText (place id iter ++ text ": payload refill: csprng")

/-- What a protocol says of a worker's single steps; `ex` are the Pipelines
that there are. -/
structure Walk {τ : Type} (P : Protocol Req Req.Answer τ) (ex : Pipe → Bool) (S : τ → Prop)
    (E : Error → τ → Prop) (B : τ → Prop) : Prop where
  looks : ∀ q, q.looks = true → Remains P S Nowhere (ask q)
  pipe : ∀ p, ex p = true → Remains P S Nowhere (ask (.pipe p))
  hasPipe : ∀ p t, S t →
    (ask (.hasPipe p)).wp P ⟨fun has t' => (has = true → ex p = true) ∧ S t', Nowhere⟩ t
  setPipe : ∀ p h, ex p = true → Remains P S Nowhere (ask (.setPipe p h))
  buffers : ∀ f, Worker.Buffers f → Remains P S Nowhere (ask (.setSelf f))
  spins : ∀ t, S t → P.spins t
  entry : ∀ {α : Type} {m : Call α}, Entry m → Remains P S (Thrown E) (lib m)
  /-- a session object is destroyed while the error is on its way -/
  unwinds : ∀ session e, Remains P (E e) (Thrown E) (lib (Call.destroyStream session))
  /-- the record is read again once it is caught -/
  rereads : ∀ e, Remains P (E e) Nowhere (ask .self)
  /-- it is rendered and recorded -/
  report : ∀ pre e t, E e t →
    (detail e >>= fun d => workerFail (pre ++ d)).wp P ⟨fun _ => B, Nowhere⟩ t
  /-- an error that is not the library's is recorded -/
  giveUp : ∀ {what}, CsprngText what → ∀ t, S t → (workerFail what).wp P ⟨fun _ => B, Nowhere⟩ t

namespace Walk

variable {τ : Type} {P : Protocol Req Req.Answer τ} {ex : Pipe → Bool} {S : τ → Prop}
  {E : Error → τ → Prop} {B : τ → Prop} (W : Walk P ex S E B)
include W

/-! ## §3. The pump. -/

theorem setStage (stage : String) : Remains P S Nowhere (setStage stage) :=
  W.buffers _ ⟨fun _ => rfl, fun _ => rfl, fun _ => rfl, fun _ => rfl, fun _ => rfl, fun _ => rfl⟩

theorem insert (n : Nat) (out : Out) :
    Remains P S Nowhere (ask (.setSelf fun w => w.insert n out)) := by
  refine W.buffers _ ?_
  cases out <;> exact ⟨fun _ => rfl, fun _ => rfl, fun _ => rfl, fun _ => rfl, fun _ => rfl,
    fun _ => rfl⟩

theorem readChunk (session : Stream) : Remains P S (Thrown E) (readChunk session) := by
  refine remains_bind (anyExn (W.setStage _)) fun _ => ?_
  refine remains_bind (anyExn (W.looks _ rfl)) fun w => ?_
  refine remains_bind (W.entry (.read session w.scratch)) fun x => ?_
  refine remains_bind (anyExn (W.buffers _ ?_)) fun _ => remains_ret _
  exact ⟨fun _ => rfl, fun _ => rfl, fun _ => rfl, fun _ => rfl, fun _ => rfl, fun _ => rfl⟩

theorem drainAvailable (session : Stream) (out : Out) (fuel : Nat) :
    Remains P S (Thrown E) (drainAvailable session out fuel) := by
  induction fuel with
  | zero => exact remains_spin W.spins
  | succ fuel ih =>
      refine remains_bind (W.readChunk session) fun got => ?_
      refine remains_ite (fun _ => remains_ret _) fun _ => ?_
      exact remains_bind (anyExn (W.insert got.n out)) fun _ => ih

theorem drainFinished (session : Stream) (out : Out) (fuel : Nat) :
    Remains P S (Thrown E) (drainFinished session out fuel) := by
  induction fuel with
  | zero => exact remains_spin W.spins
  | succ fuel ih =>
      refine remains_bind (W.readChunk session) fun got => ?_
      refine remains_bind (anyExn (W.insert got.n out)) fun _ => ?_
      exact remains_ite (fun _ => remains_ret _) fun _ => ih

theorem feed (session : Stream) (src : Bytes) (out : Out) (drainFuel fuel off : Nat) :
    Remains P S (Thrown E) (feed session src out drainFuel fuel off) := by
  induction fuel generalizing off with
  | zero => exact remains_spin W.spins
  | succ fuel ih =>
      refine remains_ite (fun _ => ?_) fun _ => remains_ret _
      refine remains_bind (anyExn (W.setStage _)) fun _ => ?_
      refine remains_bind (W.entry (.write session _)) fun _ => ?_
      exact remains_bind (W.drainAvailable session out drainFuel) fun _ => ih _

/-- **The pump**: through it, or caught on the way. -/
theorem pump (self : Pipeline) (encrypt : Bool) (src : Bytes) (out : Out) (fuel : Nat) (t : τ)
    (ht : S t) : (pump self encrypt src out fuel).wp P ⟨Tried S E, Nowhere⟩ t := by
  have hclear : Remains P S Nowhere (ask (.setSelf fun w => w.clear out)) := by
    refine W.buffers _ ?_
    cases out <;> exact ⟨fun _ => rfl, fun _ => rfl, fun _ => rfl, fun _ => rfl, fun _ => rfl,
      fun _ => rfl⟩
  have hbody : ∀ session, Remains P S (Thrown E) (pumpBody session src out fuel) := by
    intro session
    refine remains_bind (W.feed session src out fuel fuel 0) fun _ => ?_
    refine remains_bind (anyExn (W.setStage _)) fun _ => ?_
    exact remains_bind (W.entry (.end_ session)) fun _ => W.drainFinished session out fuel
  -- the session is gone, on both ways out of its scope
  have hunwind : ∀ session x, Remains P (Thrown E x) (Thrown E)
      (lib (Call.destroyStream session)) := by
    intro session x t hx
    obtain ⟨e, rfl, he⟩ := hx
    exact (W.unwinds session e t he).mono (fun _ _ h => ⟨e, rfl, h⟩) fun _ _ h => h
  unfold Loop.pump
  rw [wp_bind]
  refine (hclear t ht).mono (fun _ t' ht' => ?_) fun _ _ h => h
  refine wp_attempt ?_ t' ht'
  refine remains_bind (anyExn (W.setStage _)) fun _ => ?_
  refine remains_bind (W.entry (.begin encrypt self)) fun session => ?_
  exact remains_ensuring (hbody session) (W.entry (.destroyStream session)) (hunwind session)

/-! ## §4. The surfaces. -/

theorem cipherFail {α : Type} {won : α → Bool} {x : α} {G : τ → Prop} (hx : won x = false)
    (id iter : Nat) (shape : Shape) (direction stage : String) (e : Error) :
    Gives P (E e) (cipherFail id iter shape direction stage e >>= fun _ => .ret x) won G B :=
  gives_failed (W.report _ e) hx

theorem streamTrip (hp : ex .stream = true) (id iter fuel : Nat) :
    Gives P S (streamTrip id iter fuel) Option.isSome S B := by
  refine gives_after (W.pipe _ hp) fun h => gives_after (W.looks _ rfl) fun w => ?_
  refine gives_tried (W.pump _ _ _ _ fuel) (fun _ => ?_) fun e => ?_
  · refine gives_after (W.pipe _ hp) fun h => gives_after (W.looks _ rfl) fun w => ?_
    refine gives_tried (W.pump _ _ _ _ fuel) (fun _ => ?_) fun e => ?_
    · exact gives_after (W.looks _ rfl) fun w => gives_won rfl
    · exact gives_after (W.rereads e) fun w => W.cipherFail rfl _ _ _ "decrypt" _ e
  · exact gives_after (W.rereads e) fun w => W.cipherFail rfl _ _ _ "encrypt" _ e

theorem wholeTrip {p : Pipe} (hp : ex p = true) (id iter : Nat) (shape : Shape)
    {encrypt decrypt : Pipeline → Bytes → Call Bytes}
    (hencrypt : ∀ self src, Entry (encrypt self src))
    (hdecrypt : ∀ self src, Entry (decrypt self src)) :
    Gives P S (wholeTrip id iter shape p encrypt decrypt) Option.isSome S B := by
  refine gives_tried (E := E) (wp_attempt ?_) (fun wire => ?_) fun e => ?_
  · refine remains_bind (anyExn (W.pipe p hp)) fun h => ?_
    refine remains_bind (anyExn (W.looks _ rfl)) fun w => ?_
    exact W.entry (hencrypt _ _)
  · refine gives_tried (E := E) (wp_attempt ?_) (fun plain => gives_won rfl) fun e => ?_
    · exact remains_bind (anyExn (W.pipe p hp)) fun h => W.entry (hdecrypt _ _)
    · exact W.cipherFail rfl _ _ _ "decrypt" _ e
  · exact W.cipherFail rfl _ _ _ "encrypt" _ e

/-- **A round trip**, over whichever surface. -/
theorem roundTrip (junk : Nat → Nat → UInt8) (id iter fuel : Nat) {shape : Shape}
    (hstream : shape = .stream ∨ shape = .streamOneShot → ex .stream = true)
    (hmsg : shape = .message → ex .msg = true) :
    Gives P S (roundTrip junk id iter fuel shape) Option.isSome S B := by
  cases shape with
  | stream => exact W.streamTrip (hstream (Or.inl rfl)) id iter fuel
  | streamOneShot =>
      exact W.wholeTrip (hstream (Or.inr rfl)) id iter _ (fun _ _ => .cipher junk _ _ _ _)
        fun _ _ => .cipher junk _ _ _ _
  | message =>
      exact W.wholeTrip (hmsg rfl) id iter _ (fun _ _ => .cipher junk _ _ _ _)
        fun _ _ => .cipher junk _ _ _ _
  | both => exact gives_won rfl

/-! ## §5. Maintenance. -/

theorem drawMaster (on : Bool) (layer : String) (id iter : Nat) :
    Gives P S (drawMaster on layer id iter) Option.isSome S B := by
  refine gives_ite (fun _ => ?_) fun _ => gives_won rfl
  refine gives_after (W.looks _ rfl) fun drawn => ?_
  cases drawn with
  | some b => exact gives_won rfl
  | none => exact gives_failed (W.giveUp (.master layer id iter)) rfl

theorem maintenanceFail {G : τ → Prop} (cfg : Config) (id iter : Nat) (op : String) (p : Pipe)
    (e : Error) : Gives P (E e) (maintenanceFail cfg id iter op p e) (fun b => b) G B := by
  have hrecord : Gives P (E e) ((detail e >>= fun d =>
      workerFail (place id iter ++ text ": " ++ text op ++ text "(" ++ cStr (cfg.pipeProfile p) ++
        text "): " ++ d)) >>= fun _ => .ret false) (fun b => b) G B :=
    gives_failed (W.report _ e) rfl
  rw [bind_bind] at hrecord
  exact hrecord

/-- Something done with a Pipeline, if there is one, and its error. -/
theorem onPipe {p : Pipe} {m : Task Unit} {f : Except Error Unit → Task Bool}
    (hm : ex p = true → Remains P S (Thrown E) m)
    (hok : Gives P S (f (.ok ())) (fun b => b) S B)
    (herror : ∀ e, Gives P (E e) (f (.error e)) (fun b => b) S B) :
    Gives P S (ask (.hasPipe p) >>= fun has => if has then attempt m >>= f else .ret true)
      (fun b => b) S B := by
  intro t ht
  rw [wp_bind]
  refine (W.hasPipe p t ht).mono (fun has t' h => ?_) fun _ _ h => h
  obtain ⟨hhas, ht'⟩ := h
  have hrest : Gives P S (if has then attempt m >>= f else .ret true) (fun b => b) S B := by
    refine gives_ite (fun hyes => ?_) fun _ => gives_won rfl
    exact gives_tried (wp_attempt (hm (hhas hyes))) (fun _ => hok) herror
  exact hrest t' ht'

theorem rekeyPipe (cfg : Config) (id iter : Nat) (perm wrap : Bytes) (p : Pipe) :
    Gives P S (rekeyPipe cfg id iter perm wrap p) (fun b => b) S B := by
  refine W.onPipe (fun hp => ?_) (gives_won rfl) fun e => W.maintenanceFail cfg id iter "Rekey" p e
  refine remains_bind (anyExn (W.pipe p hp)) fun h => ?_
  exact remains_bind (W.entry (.rekey _ _ _)) fun b => (anyExn (W.looks _ rfl))

theorem blobCyclePipe (cfg : Config) (id iter : Nat) (p : Pipe) :
    Gives P S (blobCyclePipe cfg id iter p) (fun b => b) S B := by
  refine W.onPipe (fun hp => ?_) (gives_won rfl) fun e => W.maintenanceFail cfg id iter "Load" p e
  refine remains_bind (anyExn (W.looks _ rfl)) fun b => ?_
  refine remains_bind (W.entry (.load _ _ _)) fun fresh => ?_
  refine remains_bind (anyExn (W.pipe p hp)) fun h => ?_
  refine remains_bind (W.entry (.moveAssign _ _)) fun x => ?_
  exact remains_bind (anyExn (W.setPipe p _ hp)) fun _ => W.entry (.destroyPipeline _)

end Walk

/-! ## §6. Iterations. -/

/-- The requests around a round trip, and around what maintenance does. -/
def Req.around : Req → Bool
  | .lockShared | .lock | .fillPayload _ | .addRekeys | .addBlobCycles | .exit _ => true
  | _ => false

/-- What a protocol has to say besides of a worker's iterations and of its
maintenance. -/
structure Shift {τ : Type} (P : Protocol Req Req.Answer τ) (ex : Pipe → Bool) (S : τ → Prop)
    (E : Error → τ → Prop) (B : τ → Prop) : Prop extends Walk P ex S E B where
  around : ∀ q, q.around = true → Remains P S Nowhere (ask q)
  /-- the locks are given back with an error recorded, too -/
  unlocks : ∀ q, q = .unlockShared ∨ q = .unlock →
    Remains P S Nowhere (ask q) ∧ Remains P B Nowhere (ask q)
  counts : ∀ f, (∀ w, (f w).failed = w.failed) → (∀ w, (f w).error = w.error) →
    Remains P S Nowhere (ask (.setSelf f))

namespace Shift

variable {τ : Type} {P : Protocol Req Req.Answer τ} {ex : Pipe → Bool} {S : τ → Prop}
  {E : Error → τ → Prop} {B : τ → Prop} (W : Shift P ex S E B)
include W

theorem refill (cfg : Config) (id iter : Nat) :
    Gives P S (refill cfg id iter) (fun b => b) S B := by
  refine gives_ite (fun _ => ?_) fun _ => gives_won rfl
  refine gives_after (W.looks _ rfl) fun w => gives_after (W.around _ rfl) fun drawn => ?_
  cases drawn with
  | some b => exact gives_after (W.counts _ (fun _ => rfl) fun _ => rfl) fun _ => gives_won rfl
  | none => exact gives_failed (W.giveUp (.refill id iter)) rfl

theorem settle (got : Bytes) : Gives P S (settle got) (fun b => b) S B := by
  refine gives_after (W.looks _ rfl) fun w => gives_ite (fun _ => ?_) fun _ => ?_
  · -- the process is about to end
    exact gives_after (W.around _ rfl) fun _ t ht => W.spins t ht
  · refine gives_after (W.counts _ (fun _ => rfl) fun _ => rfl) fun _ => ?_
    refine gives_after (W.counts _ (fun _ => rfl) fun _ => rfl) fun _ => ?_
    exact gives_after (W.counts _ (fun _ => rfl) fun _ => rfl) fun _ => gives_won rfl

/-- **An iteration.** -/
theorem iterate (junk : Nat → Nat → UInt8) (cfg : Config) (hex : ∀ p, ex p = true)
    (id iter fuel : Nat) : Gives P S (iterate junk cfg id iter fuel) (fun b => b) S B := by
  obtain ⟨hgood, hbad⟩ := W.unlocks .unlockShared (Or.inl rfl)
  refine gives_and (W.refill cfg id iter) (gives_after (W.around _ rfl) fun _ => ?_)
  refine gives_ensuring ?_ hgood hbad
  exact gives_some (W.roundTrip junk id iter fuel (fun _ => hex .stream) fun _ => hex .msg)
    W.settle rfl rfl

/-- Both Pipelines under the write lock, and the counter. -/
theorem bothPipes {stream msg counter : Task Bool} (hs : Gives P S stream (fun b => b) S B)
    (hm : Gives P S msg (fun b => b) S B) (hc : Gives P S counter (fun b => b) S B) :
    Gives P S (ask .lock >>= fun _ =>
      Thread.ensuring (stream >>= fun a =>
        if a then msg >>= fun b => if b then counter else .ret false else .ret false)
        (ask .unlock)) (fun b => b) S B := by
  obtain ⟨hgood, hbad⟩ := W.unlocks .unlock (Or.inr rfl)
  refine gives_after (W.around _ rfl) fun _ => gives_ensuring ?_ hgood hbad
  exact gives_and hs (gives_and hm hc)

/-- The masters are drawn before the lock is taken. -/
theorem rekeyPipes (cfg : Config) (id iter : Nat) :
    Gives P S (rekeyPipes cfg id iter) (fun b => b) S B := by
  refine gives_some (W.drawMaster _ _ id iter) (fun perm => ?_) rfl rfl
  refine gives_some (W.drawMaster _ _ id iter) (fun wrap => ?_) rfl rfl
  refine W.bothPipes (W.rekeyPipe cfg id iter perm wrap .stream)
    (W.rekeyPipe cfg id iter perm wrap .msg) ?_
  exact gives_after (W.around _ rfl) fun _ => gives_won rfl

theorem blobCyclePipes (cfg : Config) (id iter : Nat) :
    Gives P S (blobCyclePipes cfg id iter) (fun b => b) S B := by
  refine W.bothPipes (W.blobCyclePipe cfg id iter .stream) (W.blobCyclePipe cfg id iter .msg) ?_
  exact gives_after (W.around _ rfl) fun _ => gives_won rfl

/-- **Maintenance**, as far as it is due. -/
theorem workerMaintenance (cfg : Config) (id iter : Nat) :
    Gives P S (workerMaintenance cfg id iter) (fun b => b) S B := by
  have hcycle : Gives P S
      (if due cfg.blobCycleEvery iter then Loop.blobCyclePipes cfg id iter else .ret true)
      (fun b => b) S B :=
    gives_ite (fun _ => W.blobCyclePipes cfg id iter) fun _ => gives_won rfl
  exact gives_ite (fun _ => gives_and (W.rekeyPipes cfg id iter) hcycle) fun _ => hcycle

end Shift

end ItbCpp.Loop

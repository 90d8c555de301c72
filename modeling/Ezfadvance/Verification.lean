import Ezfadvance.FlashWriter

/-!
# Verification

Reading a written image back (`verification_policy.cpp`, `verification_session.cpp`, and the
dispatch of `LibusbWriterBackend::verify`).

* `VerificationPolicy.modeFor`: which of the nine methods an image size gets.
* `verifyLinear`: one `0x91/00` read and one comparison a block.
* `linearReads`: the reads that a trace shows, each with its address and what was returned.
* `verify_sound_complete`: no method raises its precondition for a size of its mode, a method that
  returns `true` has read the image back, and on a card left by the writer it returns `true`.
-/

namespace Ezfadvance

open Interact Interact.Program CartridgeFormat Usb FlashCard FlashWindowSelector Rounding

inductive VerificationMode where
  | partialFirstWindow
  | exact8MiB
  | partial12MiB
  | exact16MiB
  | tinyTailAbove16MiB
  | partial20MiB
  | exact24MiB
  | partial28MiB
  | exact32MiB
  | unsupportedPartialHigherWindow
  deriving DecidableEq

def VerificationPolicy.modeFor (size : Nat) : VerificationMode :=
  if size = 0x2000000 then .exact32MiB
  else if size = 0x1C00000 then .partial28MiB
  else if size = 0x1800000 then .exact24MiB
  else if size = 0x1400000 then .partial20MiB
  else if size = 0x1000000 then .exact16MiB
  else if size = 0xC00000 then .partial12MiB
  else if size = 0x800000 then .exact8MiB
  else if size < 0x800000 then .partialFirstWindow
  else if size > 0x1000000 ∧ size ≤ 0x1000000 + 0x10000 then .tinyTailAbove16MiB
  else .unsupportedPartialHigherWindow

/-! ## verification_session.cpp -/

namespace VerificationSession

def blockSize : Nat := 0x10000
def firstWindowSize : Nat := 0x800000
def twoWindowSize : Nat := 0x1000000
def threeWindowSize : Nat := 0x1800000
def fourWindowSize : Nat := 0x2000000

def partialFirstWindowExtent (imageSize : Nat) : Except StdException Nat :=
  if imageSize = 0 ∨ imageSize ≥ firstWindowSize then
    .error (.invalidArgument "partial first-window verification requires 0 < size < 8 MiB")
  else .ok (up imageSize blockSize)

def tinyTailAbove16MiBExtent (imageSize : Nat) : Except StdException Nat :=
  if imageSize ≤ twoWindowSize ∨ imageSize > twoWindowSize + blockSize then
    .error (.invalidArgument
      "tiny-tail verification requires 16 MiB < size <= 16 MiB + 64 KiB")
  else .ok (up imageSize blockSize)

def readCommand (byteAddress length : Nat) : Except StdException Bytes :=
  if byteAddress % 2 ≠ 0 then .error (.invalidArgument "read address must be word-aligned")
  else if byteAddress / 2 > 0xFFFFFFFF ∨ length > 0xFFFFFFFF then
    .error (.outOfRange "verification read exceeds protocol range")
  else .ok (command 0x91 0x00 (UInt32.ofNat (byteAddress / 2)) (UInt32.ofNat length) 0x00)

def compareBlock (image : Bytes) (offset : Nat) (received : Bytes) (requireErasedPadding : Bool) :
    Bool :=
  received.zipIdx.all fun (b, i) =>
    (decide (offset + i ≥ image.length) && !requireErasedPadding) || b == image.getD (offset + i) 0xFF

def verifyBlock (image : Bytes) (requireErasedPadding : Bool) (offset length : Nat) :
    Usb StdException Bool := do
  let cmd ← MonadExcept.ofExcept (readCommand offset length)
  if !(← out cmd) then return false
  match ← inExact length with
  | none => return false
  | some received => return compareBlock image offset received requireErasedPadding

def verifyFrom (image : Bytes) (verifySize : Nat) (requireErasedPadding : Bool) (offset : Nat) :
    Usb StdException Bool :=
  if offset < verifySize then
    let length := min blockSize (verifySize - offset)
    both (verifyBlock image requireErasedPadding offset length)
      (verifyFrom image verifySize requireErasedPadding (offset + length))
  else .pure true
termination_by verifySize - offset
decreasing_by
  simp only [blockSize]
  omega

def verifyLinear (image : Bytes) (verifySize : Nat) (requireErasedPadding : Bool) :
    Usb StdException Bool :=
  verifyFrom image verifySize requireErasedPadding 0

def statusSequence : List Tx := [.two 0xFF 0xFF]

def readMapping : List Tx := [.two 0x55 0xAA, .two 0x00 0x00, .two 0x00 0x00, .two 0x00 0x00]

def unlockTail : List Tx := [.one 0x00 0xAA, .one 0x00 0x55, .one 0x01 0x06]

def verifyPartialFirstWindow (image : Bytes) : Usb StdException Bool := do
  let verifySize ← MonadExcept.ofExcept (partialFirstWindowExtent image.length)
  both (sendAll statusSequence) (verifyLinear image verifySize true)

def verifyTinyTailAbove16MiB (image : Bytes) : Usb StdException Bool := do
  let verifySize ← MonadExcept.ofExcept (tinyTailAbove16MiBExtent image.length)
  both (sendAll (statusTail ++ readMapping)) (verifyLinear image verifySize false)

/-- The methods for one size only. -/
def verifyExact (size : Nat) (what : String) (preamble : List Tx) (image : Bytes) :
    Usb StdException Bool :=
  if image.length ≠ size then .throw (.invalidArgument what)
  else both (sendAll preamble) (verifyLinear image image.length true)

def verifyExact8MiB : Bytes → Usb StdException Bool :=
  verifyExact firstWindowSize "exact 8-MiB verification requires an 8-MiB image"
    (statusSequence ++
      [.two 0x55 0xAA, .two 0x02 0x00, .two 0x00 0x40, .two 0x00 0x00,
        .two 0xAA 0x55, .two 0x00 0x00, .two 0x00 0x00, .two 0x00 0x00] ++
      statusSequence ++ readMapping)

def verifyExact16MiB : Bytes → Usb StdException Bool :=
  verifyExact twoWindowSize "exact 16-MiB verification requires a 16-MiB image"
    (statusTail ++
      [.two 0x55 0xAA, .two 0x02 0x00, .two 0x00 0x80, .two 0x00 0x00,
        .two 0xAA 0x55, .two 0x00 0x00, .two 0x00 0x00, .two 0x00 0x00] ++
      unlockTail ++ statusTail ++ readMapping)

def verifyPartial12MiB : Bytes → Usb StdException Bool :=
  verifyExact 0xC00000 "partial 12-MiB verification requires a 12-MiB image"
    (statusTail ++ readMapping)

def verifyExact24MiB : Bytes → Usb StdException Bool :=
  verifyExact threeWindowSize "exact 24-MiB verification requires a 24-MiB image"
    (statusTail ++
      [.two 0x55 0xAA, .two 0x02 0x00, .two 0x00 0xC0, .two 0x00 0x00,
        .two 0xAA 0x55, .two 0x00 0x00, .two 0x00 0x00, .two 0x00 0x00] ++
      unlockTail ++ statusTail ++ readMapping)

def verifyPartial20MiB : Bytes → Usb StdException Bool :=
  verifyExact 0x1400000 "partial 20-MiB verification requires a 20-MiB image"
    (statusTail ++ readMapping)

def verifyExact32MiB : Bytes → Usb StdException Bool :=
  verifyExact fourWindowSize "exact 32-MiB verification requires a 32-MiB image"
    (statusTail ++
      [.two 0x55 0xAA, .two 0x00 0x00, .two 0x00 0x00, .two 0x02 0x00,
        .two 0xAA 0x55, .two 0x00 0x00, .two 0x00 0x00, .two 0x00 0x00] ++
      unlockTail ++ statusTail ++ readMapping)

def verifyPartial28MiB : Bytes → Usb StdException Bool :=
  verifyExact 0x1C00000 "partial 28-MiB verification requires a 28-MiB image"
    (statusTail ++ readMapping)

end VerificationSession

open VerificationSession

/-- `LibusbWriterBackend::verify`; two of the methods compute their extent before the call too. -/
def verify (mode : VerificationMode) (image : Bytes) : Usb StdException Bool :=
  match mode with
  | .partialFirstWindow => do
    let _ ← MonadExcept.ofExcept (partialFirstWindowExtent image.length)
    verifyPartialFirstWindow image
  | .exact8MiB => verifyExact8MiB image
  | .partial12MiB => verifyPartial12MiB image
  | .exact16MiB => verifyExact16MiB image
  | .tinyTailAbove16MiB => do
    let _ ← MonadExcept.ofExcept (tinyTailAbove16MiBExtent image.length)
    verifyTinyTailAbove16MiB image
  | .partial20MiB => verifyPartial20MiB image
  | .exact24MiB => verifyExact24MiB image
  | .partial28MiB => verifyPartial28MiB image
  | .exact32MiB => verifyExact32MiB image
  | .unsupportedPartialHigherWindow => .pure false

/-! ## The reads of a trace -/

/-- The `0x91/00` reads of a trace, each with its byte address and what it returned. `pending` is
what was sent last. -/
def linearReadsFrom : Option Bytes → List Transport.Event → List (Nat × Bytes)
  | _, [] => []
  | _, ⟨.out data, _⟩ :: rest => linearReadsFrom (some data) rest
  | some cmd, ⟨.inExact _, some received⟩ :: rest =>
    if cmd.take 4 = [0x5A, 0xA5, 0x91, 0x00] then
      (2 * (readLe32 cmd 4).toNat, received) :: linearReadsFrom none rest
    else linearReadsFrom none rest
  | pending, _ :: rest => linearReadsFrom pending rest

def linearReads (trace : List Transport.Event) : List (Nat × Bytes) := linearReadsFrom none trace

/-! ## The nine methods as one -/

theorem ofExcept_ok {ε α β : Type} {a : α} {f : α → Usb ε β} :
    (MonadExcept.ofExcept (.ok a : Except ε α) >>= f : Usb ε β) = f a := rfl

theorem verifyExact_of_length {what : String} {preamble : List Tx} {image : Bytes} {size : Nat}
    (h : image.length = size) (hblock : 0x10000 ∣ size) :
    verifyExact size what preamble image =
      both (sendAll preamble) (verifyLinear image (up size 0x10000) true) := by
  rw [verifyExact, if_neg (not_not_intro h), up_eq_of_dvd (by omega) hblock, h]

/-- The sizes that have a method of their own. -/
def exactSizes : List Nat :=
  [0x2000000, 0x1C00000, 0x1800000, 0x1400000, 0x1000000, 0xC00000, 0x800000]

theorem block_dvd_exactSizes : ∀ size ∈ exactSizes, 0x10000 ∣ size := by decide

theorem modeFor_cases {size : Nat}
    (h : VerificationPolicy.modeFor size ≠ .unsupportedPartialHigherWindow) :
    size ∈ exactSizes ∨
      size < 0x800000 ∧ VerificationPolicy.modeFor size = .partialFirstWindow ∨
      (0x1000000 < size ∧ size ≤ 0x1010000) ∧
        VerificationPolicy.modeFor size = .tinyTailAbove16MiB := by
  simp only [exactSizes, List.mem_cons, List.not_mem_nil, or_false]
  unfold VerificationPolicy.modeFor at h ⊢
  grind

/-- The method of a supported size: control transfers, then the linear comparison as far as the
rounded size, whose padding counts except behind a tiny tail. -/
theorem verify_eq {image : Bytes} (hpos : 0 < image.length)
    (hmode : VerificationPolicy.modeFor image.length ≠ .unsupportedPartialHigherWindow) :
    ∃ preamble, verify (VerificationPolicy.modeFor image.length) image =
      both (sendAll preamble) (verifyLinear image (up image.length 0x10000)
        (decide (VerificationPolicy.modeFor image.length ≠ .tinyTailAbove16MiB))) := by
  obtain hexact | ⟨hfirst, hm⟩ | ⟨htiny, hm⟩ := modeFor_cases hmode
  · have hblock := block_dvd_exactSizes _ hexact
    simp only [exactSizes, List.mem_cons, List.not_mem_nil, or_false] at hexact
    obtain h | h | h | h | h | h | h := hexact
    all_goals
      rw [h] at hblock ⊢
      exact ⟨_, verifyExact_of_length h hblock⟩
  · have hok : partialFirstWindowExtent image.length = .ok (up image.length 0x10000) := by
      rw [partialFirstWindowExtent, if_neg (by simp only [firstWindowSize]; omega), blockSize]
    refine ⟨statusSequence, ?_⟩
    rw [hm, verify, hok, ofExcept_ok, verifyPartialFirstWindow, hok, ofExcept_ok]
    rfl
  · have hok : tinyTailAbove16MiBExtent image.length = .ok (up image.length 0x10000) := by
      rw [tinyTailAbove16MiBExtent, if_neg (by simp only [twoWindowSize, blockSize]; omega), blockSize]
    refine ⟨statusTail ++ readMapping, ?_⟩
    rw [hm, verify, hok, ofExcept_ok, verifyTinyTailAbove16MiB, hok, ofExcept_ok]
    rfl

/-! ## No exception -/

theorem readCommand_block {offset length : Nat} (heven : 2 ∣ offset) (hoffset : offset < 2 ^ 32)
    (hlength : length < 2 ^ 32) :
    readCommand offset length =
      .ok (command 0x91 0x00 (UInt32.ofNat (offset / 2)) (UInt32.ofNat length) 0x00) := by
  rw [readCommand, if_neg (by omega), if_neg (by omega)]

section NoException

variable {A : Transport.Op → Prop}

theorem always_verifyBlock {image : Bytes} {require : Bool} {offset length : Nat}
    (hread : ∀ word length, A (.out (command 0x91 0x00 word length 0x00)))
    (hin : ∀ wanted, A (.inExact wanted)) (heven : 2 ∣ offset) (hoffset : offset < 2 ^ 32)
    (hlength : length < 2 ^ 32) :
    Always A Returns (verifyBlock image require offset length) := by
  rw [verifyBlock, readCommand_block heven hoffset hlength, ofExcept_ok]
  exact always_answer (hread _ _) (always_inExact (hin _)) trivial fun _ => trivial

theorem always_verifyFrom {image : Bytes} {verifySize : Nat} {require : Bool}
    (hread : ∀ word length, A (.out (command 0x91 0x00 word length 0x00)))
    (hin : ∀ wanted, A (.inExact wanted)) (hsize : verifySize < 2 ^ 32) (offset : Nat)
    (hoff : 0x10000 ∣ offset ∨ verifySize ≤ offset) :
    Always A Returns (verifyFrom image verifySize require offset) := by
  induction offset using verifyFrom.induct verifySize with
  | case1 offset hlt length ih =>
    have hdvd : 0x10000 ∣ offset := hoff.resolve_right (by omega)
    rw [verifyFrom, if_pos hlt]
    refine (always_verifyBlock hread hin (by omega) (by omega)
      (by simp only [blockSize]; omega)).both (ih ?_)
    simp only [length, blockSize]
    omega
  | case2 offset hge =>
    rw [verifyFrom, if_neg hge]
    trivial

end NoException

/-! ## What a run has read -/

/-- Every address in `[lo, hi)` has been read, and what was returned is the image, then `FF` where
the padding counts. -/
structure ReadBack (image : Bytes) (require : Bool) (lo hi : Nat) (reads : List (Nat × Bytes)) :
    Prop where
  covers : ∀ x, lo ≤ x → x < hi → ∃ r ∈ reads, r.1 ≤ x ∧ x < r.1 + r.2.length
  agrees : ∀ r ∈ reads, ∀ i b, r.2[i]? = some b → (r.1 + i < image.length ∨ require = true) →
    b = image.getD (r.1 + i) 0xFF

theorem compareBlock_iff {image received : Bytes} {offset : Nat} {require : Bool} :
    compareBlock image offset received require = true ↔
      ∀ i b, received[i]? = some b → (offset + i < image.length ∨ require = true) →
        b = image.getD (offset + i) 0xFF := by
  simp only [compareBlock, List.all_eq_true, Prod.forall, List.mem_zipIdx_iff_getElem?,
    Bool.or_eq_true, Bool.and_eq_true, decide_eq_true_eq, beq_iff_eq]
  constructor
  · intro h i b hb hcounts
    obtain ⟨hge, hno⟩ | heq := h b i hb
    · obtain hlt | hreq := hcounts
      · omega
      · rw [hreq] at hno
        cases hno
    · exact heq
  · intro h b i hb
    by_cases hcounts : offset + i < image.length ∨ require = true
    · exact .inr (h i b hb hcounts)
    · obtain ⟨hge, hno⟩ := not_or.mp hcounts
      exact .inl ⟨Nat.not_lt.mp hge, by simpa using hno⟩

/-- A block that compares equal is one read, with the bytes it returned. -/
theorem runs_verifyBlock {image : Bytes} {require : Bool} {offset length : Nat}
    {trace : List Transport.Event} (heven : 2 ∣ offset) (hoffset : offset < 2 ^ 32)
    (hlength : length < 2 ^ 32)
    (h : Runs (verifyBlock image require offset length) trace (.ok true)) :
    ∃ received, trace =
        [⟨.out (command 0x91 0x00 (UInt32.ofNat (offset / 2)) (UInt32.ofNat length) 0x00), true⟩,
          ⟨.inExact length, some received⟩] ∧
      compareBlock image offset received require = true := by
  rw [verifyBlock, readCommand_block heven hoffset hlength, ofExcept_ok] at h
  obtain ⟨received, _, rfl, hreceived⟩ :=
    Iff.mp (runs_answerExact_iff Bool.false_ne_true (by rfl)) h
  obtain ⟨rfl, hcompare⟩ := runs_pure_iff.mp hreceived
  exact ⟨received, rfl, (Except.ok.inj hcompare).symm⟩

theorem linearReadsFrom_append {t1 t2 : List Transport.Event}
    (h : ∀ e ∈ t1, ∀ n, e.1 ≠ .inExact n) (pending : Option Bytes) :
    ∃ pending', linearReadsFrom pending (t1 ++ t2) = linearReadsFrom pending' t2 := by
  induction t1 generalizing pending with
  | nil => exact ⟨pending, rfl⟩
  | cons e rest ih =>
    obtain ⟨hne, hrest⟩ := List.forall_mem_cons.mp h
    obtain ⟨o, r⟩ := e
    cases o with
    | out data => exact ih hrest (some data)
    | inExact wanted => exact absurd rfl (hne wanted)
    | inMax maximum =>
      cases pending with
      | none => exact ih hrest none
      | some cmd => exact ih hrest (some cmd)
    | selectBank bankValue =>
      cases pending with
      | none => exact ih hrest none
      | some cmd => exact ih hrest (some cmd)

theorem linearReadsFrom_block {pending : Option Bytes} {word length : UInt32} {sent : Bool}
    {wanted : Nat} {received : Bytes} {rest : List Transport.Event} :
    linearReadsFrom pending (⟨.out (command 0x91 0x00 word length 0x00), sent⟩ ::
        ⟨.inExact wanted, some received⟩ :: rest) =
      (2 * word.toNat, received) :: linearReadsFrom none rest := by
  have hread : (command 0x91 0x00 word length 0x00).take 4 = [0x5A, 0xA5, 0x91, 0x00] := rfl
  cases pending with
  | none => rw [linearReadsFrom, linearReadsFrom, if_pos hread, readLe32_command_word]
  | some cmd => rw [linearReadsFrom, linearReadsFrom, if_pos hread, readLe32_command_word]

/-- The comparison loop, by induction on the blocks left. -/
theorem ReadBack.of_runs {image : Bytes} {verifySize : Nat} {require : Bool}
    (hsize : verifySize < 2 ^ 32) (offset : Nat) (hoff : 0x10000 ∣ offset ∨ verifySize ≤ offset)
    {trace : List Transport.Event} (hlegal : ∀ e ∈ trace, Transport.Legal e)
    (h : Runs (verifyFrom image verifySize require offset) trace (.ok true))
    (pending : Option Bytes) :
    ReadBack image require offset verifySize (linearReadsFrom pending trace) := by
  induction offset using verifyFrom.induct verifySize generalizing trace pending with
  | case1 offset hlt length ih =>
    have hdvd : 0x10000 ∣ offset := hoff.resolve_right (by omega)
    have hrest : 0x10000 ∣ offset + length ∨ verifySize ≤ offset + length := by
      simp only [length, blockSize]
      omega
    rw [verifyFrom, if_pos hlt] at h
    obtain ⟨t1, t2, rfl, h1, h2⟩ := runs_both_true_iff.mp h
    obtain ⟨received, rfl, hcompare⟩ := runs_verifyBlock (by omega) (by omega)
      (by simp only [blockSize]; omega) h1
    obtain ⟨hlegal1, hlegal2⟩ := List.forall_mem_append.mp hlegal
    have hlen : received.length = length :=
      hlegal1 _ (List.mem_cons_of_mem _ (List.mem_singleton_self _))
    have haddr : 2 * (UInt32.ofNat (offset / 2)).toNat = offset := by
      rw [UInt32.toNat_ofNat', Nat.mod_eq_of_lt (by omega)]
      omega
    obtain ⟨hcovers, hagrees⟩ := ih hrest hlegal2 h2 none
    rw [List.cons_append, List.cons_append, List.nil_append, linearReadsFrom_block, haddr]
    refine ⟨?_, List.forall_mem_cons.mpr ⟨compareBlock_iff.mp hcompare, hagrees⟩⟩
    intro x hlo hhi
    by_cases hx : x < offset + length
    · exact ⟨_, List.mem_cons_self, hlo, by rw [hlen]; exact hx⟩
    · obtain ⟨r, hr, hin⟩ := hcovers x (Nat.not_lt.mp hx) hhi
      exact ⟨r, List.mem_cons_of_mem _ hr, hin⟩
  | case2 offset hge =>
    rw [verifyFrom, if_neg hge] at h
    obtain ⟨rfl, _⟩ := runs_pure_iff.mp h
    refine ⟨fun x hlo hhi => by omega, ?_⟩
    cases pending with
    | none => exact fun r hr => by cases hr
    | some cmd => exact fun r hr => by cases hr

/-! ## An honest card -/

/-- What the comparison expects of the card. -/
def Expected (image : Bytes) (verifySize : Nat) (require : Bool) (mem : Nat → UInt8) : Prop :=
  ∀ x, x < verifySize → (x < image.length ∨ require = true) → mem x = image.getD x 0xFF

theorem succeeds_verifyBlock {image : Bytes} {verifySize offset length : Nat} {require : Bool}
    (heven : 2 ∣ offset) (hoffset : offset < 2 ^ 32) (hlength : length < 2 ^ 32)
    (hend : offset + length ≤ verifySize) :
    Succeeds step (Quiet (Expected image verifySize require))
      (verifyBlock image require offset length) (Quiet (Expected image verifySize require)) := by
  rintro ⟨f, phase⟩ ⟨window, hidle, hmem, hwindow⟩
  cases hidle
  refine ⟨⟨f, .idle⟩, ?_, window, rfl, hmem, hwindow⟩
  have haddr : 2 * (UInt32.ofNat (offset / 2)).toNat = offset := by
    rw [UInt32.toNat_ofNat', Nat.mod_eq_of_lt (by omega)]
    omega
  have hlen : (UInt32.ofNat length).toNat = length := by
    rw [UInt32.toNat_ofNat', Nat.mod_eq_of_lt hlength]
  have hin := @exec_inExact StdException f (readCard f.mem offset length)
  rw [length_readCard] at hin
  have hcompare : compareBlock image offset (readCard f.mem offset length) require = true := by
    refine compareBlock_iff.mpr fun i b hb hcounts => ?_
    have hi : i < length := by
      have := (List.getElem?_eq_some_iff.mp hb).1
      rwa [length_readCard] at this
    rw [getElem?_readCard hi] at hb
    cases hb
    exact hmem _ (by omega) hcounts
  rw [verifyBlock, readCommand_block heven hoffset hlength, ofExcept_ok, exec_bind_ok exec_out,
    accept_read, haddr, hlen]
  simp only [Bool.not_true, Bool.false_eq_true, if_false]
  rw [exec_bind_ok hin]
  simp only [hcompare]
  rw [exec_pure]

theorem succeeds_verifyFrom {image : Bytes} {verifySize : Nat} {require : Bool}
    (hsize : verifySize < 2 ^ 32) (offset : Nat) (hoff : 0x10000 ∣ offset ∨ verifySize ≤ offset) :
    Succeeds step (Quiet (Expected image verifySize require))
      (verifyFrom image verifySize require offset) (Quiet (Expected image verifySize require)) := by
  induction offset using verifyFrom.induct verifySize with
  | case1 offset hlt length ih =>
    have hdvd : 0x10000 ∣ offset := hoff.resolve_right (by omega)
    have hrest : 0x10000 ∣ offset + length ∨ verifySize ≤ offset + length := by
      simp only [length, blockSize]
      omega
    rw [verifyFrom, if_pos hlt]
    exact (succeeds_verifyBlock (by omega) (by omega) (by simp only [blockSize]; omega)
      (by omega)).both (ih hrest)
  | case2 offset hge =>
    rw [verifyFrom, if_neg hge]
    exact .skip

/-- What the writer leaves is what the comparison of its own size expects: the rounded tail is
erased, except behind a tiny tail, where it does not count. -/
theorem Flashed.expected {old mem : Nat → UInt8} {image : Bytes}
    (hmode : VerificationPolicy.modeFor image.length ≠ .unsupportedPartialHigherWindow)
    (h : Flashed old image mem) :
    Expected image (up image.length 0x10000)
      (decide (VerificationPolicy.modeFor image.length ≠ .tinyTailAbove16MiB)) mem := by
  intro x hx hcounts
  rw [h x]
  by_cases hlt : x < image.length
  · rw [if_pos hlt]
  · rw [if_neg hlt, Segments.getD_eq_of_ge (Nat.not_lt.mp hlt)]
    have hreq := of_decide_eq_true (hcounts.resolve_left hlt)
    rw [if_pos]
    obtain hexact | ⟨hfirst, _⟩ | ⟨_, htiny⟩ := modeFor_cases hmode
    · rw [up_eq_of_dvd (by omega) (block_dvd_exactSizes _ hexact)] at hx
      omega
    · rw [eraseEnd, if_pos (by simp only [flashWindowSize]; omega)]
      omega
    · exact absurd htiny hreq

theorem le_maxCardImage_of_mode {size : Nat}
    (h : VerificationPolicy.modeFor size ≠ .unsupportedPartialHigherWindow) :
    size ≤ maxCardImage := by
  have hexact : ∀ size ∈ exactSizes, size ≤ maxCardImage := by decide
  obtain hsize | ⟨hfirst, _⟩ | ⟨htiny, _⟩ := modeFor_cases h
  · exact hexact _ hsize
  · simp only [maxCardImage]
    omega
  · simp only [maxCardImage]
    omega

section Method

variable {preamble : List Tx} {image : Bytes} {verifySize : Nat} {require : Bool}

theorem always_method {A : Transport.Op → Prop}
    (hcontrol : ∀ tx : Tx, ∀ data ∈ tx.packets, A (.out data))
    (hread : ∀ word length, A (.out (command 0x91 0x00 word length 0x00)))
    (hin : ∀ wanted, A (.inExact wanted)) (hmax : A (.inMax 64)) (hsize : verifySize < 2 ^ 32) :
    Always A Returns (both (sendAll preamble) (verifyLinear image verifySize require)) :=
  (always_sendAll (fun tx _ => hcontrol tx) hmax).both
    (always_verifyFrom hread hin hsize 0 (.inl (Nat.dvd_zero _)))

/-- The control transfers read nothing, so the reads of a method are those of its comparison. -/
theorem ReadBack.of_method (hsize : verifySize < 2 ^ 32) {trace : List Transport.Event}
    (hlegal : ∀ e ∈ trace, Transport.Legal e)
    (h : Runs (both (sendAll preamble) (verifyLinear image verifySize require)) trace (.ok true)) :
    ReadBack image require 0 verifySize (linearReads trace) := by
  obtain ⟨t1, t2, rfl, h1, h2⟩ := runs_both_true_iff.mp h
  have halways : Always (fun o => ∀ n, o ≠ .inExact n) Returns
      (sendAll preamble : Usb StdException Bool) :=
    always_sendAll (fun _ _ _ _ _ => by simp) fun _ => by simp
  obtain ⟨pending, hreads⟩ := @linearReadsFrom_append t1 t2 (halways.run h1).1 none
  rw [linearReads, hreads]
  exact .of_runs hsize 0 (.inl (Nat.dvd_zero _)) (List.forall_mem_append.mp hlegal).2 h2 pending

theorem succeeds_method (hsize : verifySize < 2 ^ 32) :
    Succeeds step (Quiet (Expected image verifySize require))
      (both (sendAll preamble) (verifyLinear image verifySize require))
      (Quiet (Expected image verifySize require)) :=
  succeeds_sendAll.both (succeeds_verifyFrom hsize 0 (.inl (Nat.dvd_zero _)))

end Method

/-- Verification of an image of a supported size: it never throws; whatever the transport answers,
`true` means that the whole image has been read back, with erased padding unless the tail is tiny;
and after the writing steps on a card with any content it is `true`. -/
theorem verify_sound_complete {image : Bytes} (hpos : 0 < image.length)
    (hmode : VerificationPolicy.modeFor image.length ≠ .unsupportedPartialHigherWindow) :
    (∀ trace e, ¬ Runs (verify (VerificationPolicy.modeFor image.length) image) trace (.error e)) ∧
    (∀ trace, (∀ e ∈ trace, Transport.Legal e) →
      Runs (verify (VerificationPolicy.modeFor image.length) image) trace (.ok true) →
      (∀ x, x < up image.length 0x10000 →
        ∃ r ∈ linearReads trace, r.1 ≤ x ∧ x < r.1 + r.2.length) ∧
      ∀ r ∈ linearReads trace, ∀ i b, r.2[i]? = some b →
        (∀ hx : r.1 + i < image.length, b = image[r.1 + i]) ∧
        (image.length ≤ r.1 + i →
          VerificationPolicy.modeFor image.length ≠ .tinyTailAbove16MiB → b = 0xFF)) ∧
    ∀ card : FlashCard, card.phase = .idle →
      ∃ card' card'', exec step (flashImage image) card = (.ok true, card') ∧
        exec step (verify (VerificationPolicy.modeFor image.length) image) card' =
          (.ok true, card'') := by
  have hmax := le_maxCardImage_of_mode hmode
  have hup := @up_lt image.length 0x10000 (by omega)
  have hsize : up image.length 0x10000 < 2 ^ 32 := by
    simp only [maxCardImage] at hmax
    omega
  obtain ⟨preamble, hverify⟩ := verify_eq hpos hmode
  rw [hverify]
  have halways := @always_method preamble image _
    (decide (VerificationPolicy.modeFor image.length ≠ .tinyTailAbove16MiB)) (fun _ => True)
    (fun _ _ _ => trivial) (fun _ _ => trivial) (fun _ => trivial) trivial hsize
  refine ⟨fun trace e hrun => (halways.run hrun).2, ?_, ?_⟩
  · intro trace hlegal hrun
    obtain ⟨hcovers, hagrees⟩ := ReadBack.of_method hsize hlegal hrun
    refine ⟨fun x hx => hcovers x (Nat.zero_le x) hx, fun r hr i b hb => ⟨fun hx => ?_, ?_⟩⟩
    · rw [hagrees r hr i b hb (.inl hx), List.getD_eq_getElem _ _ hx]
    · intro hge hnot
      rw [hagrees r hr i b hb (.inr (decide_eq_true hnot)), Segments.getD_eq_of_ge hge]
  · intro card hidle
    obtain ⟨card', hwrite, window, hheld⟩ := @succeeds_flashImage card.flash.mem image hmax card
      ⟨card.flash.window, hidle, rfl, rfl⟩
    obtain ⟨card'', hread, _⟩ := succeeds_method hsize card'
      ⟨window, hheld.mono fun m hm => hm.expected hmode⟩
    exact ⟨card', card'', hwrite, hread⟩

theorem verify_sound_complete_short :
    let image : Bytes := List.replicate 0x10100 0x5A
    (∀ trace e, ¬ Runs (verify (VerificationPolicy.modeFor image.length) image) trace (.error e)) ∧
    (∀ trace, (∀ e ∈ trace, Transport.Legal e) →
      Runs (verify (VerificationPolicy.modeFor image.length) image) trace (.ok true) →
      (∀ x, x < up image.length 0x10000 →
        ∃ r ∈ linearReads trace, r.1 ≤ x ∧ x < r.1 + r.2.length) ∧
      ∀ r ∈ linearReads trace, ∀ i b, r.2[i]? = some b →
        (∀ hx : r.1 + i < image.length, b = image[r.1 + i]) ∧
        (image.length ≤ r.1 + i →
          VerificationPolicy.modeFor image.length ≠ .tinyTailAbove16MiB → b = 0xFF)) ∧
    ∀ card : FlashCard, card.phase = .idle →
      ∃ card' card'', exec step (flashImage image) card = (.ok true, card') ∧
        exec step (verify (VerificationPolicy.modeFor image.length) image) card' =
          (.ok true, card'') :=
  verify_sound_complete (by rw [List.length_replicate]; omega)
    (by rw [List.length_replicate]; decide)

end Ezfadvance

import BaselineTier.Machine.Execution
import BaselineTier.Proofs.Machine.CodeStream

/-! # Targets of relative calls

A request for a call names its target by the offset in the buffer, and the encoding names it
by the distance from the instruction behind the call, which is not there yet.  The processor
goes the other way: it reads the four bytes as a field in two's complement, extends the field
with its sign and adds it to the address behind the call.

The target is hit wherever the code is loaded, since both addresses move with the code.
-/

set_option autoImplicit false

namespace BaselineTier.Machine

/-! ## Fields of four bytes -/

/-- The 32-bit field that bytes hold, lowest first. -/
def fieldOf (bytes : List UInt8) : BitVec 32 :=
  BitVec.ofNat 32 (bytes.foldr (fun b high => b.toNat + 256 * high) 0)

/-- The address that a call with a field goes to, from the address behind the call. -/
def callTarget (behind : Word) (field : BitVec 32) : Word :=
  behind + field.signExtend 64

/-- The bytes of an immediate hold its value in two's complement. -/
theorem toInt_fieldOf_bytes (imm : Immediate) : (fieldOf imm.bytes).toInt = imm.value := by
  obtain ⟨value, hlow, hhigh⟩ := imm
  have hsum : (Immediate.bytes ⟨value, hlow, hhigh⟩).foldr
      (fun b high => b.toNat + 256 * high) 0 = (value % 0x100000000).toNat := by
    simp only [Immediate.bytes, List.foldr, UInt8.toNat_ofNat']
    omega
  rw [fieldOf, hsum, BitVec.toInt_eq_toNat_bmod, BitVec.toNat_ofNat, Int.bmod_def]
  dsimp only
  omega

/-- A field that holds the distance from one offset to another leads from the address of the
one to the address of the other. -/
theorem callTarget_of_distance {field : BitVec 32} {behind target : Nat}
    (h : (behind : Int) + field.toInt = target) (base : Word) :
    callTarget (base + BitVec.ofNat 64 behind) field = base + BitVec.ofNat 64 target := by
  have hextended : BitVec.ofNat 64 behind + field.signExtend 64 = BitVec.ofNat 64 target := by
    rw [BitVec.signExtend, ← BitVec.ofInt_natCast, ← BitVec.ofInt_natCast, ← BitVec.ofInt_add, h]
  rw [callTarget, BitVec.add_assoc, hextended]

namespace CodeBuffer

/-! ## Requests for calls -/

/-- A call whose distance fits is five bytes: the opcode and the field of the distance. -/
theorem emitCall_of_fits {b : CodeBuffer} {target : Nat}
    (h : FitsField (b.displacementTo target)) :
    ∃ (grown : CodeBuffer) (imm : Immediate), b.emitCall target = .ok grown ∧
      grown.bytes = b.bytes ++ 0xE8 :: imm.bytes ∧ imm.value = b.displacementTo target := by
  rw [emitCall, emit, Instruction.encode, Immediate.ofInt_of_fits h]
  exact ⟨_, _, rfl, bytes_append b _, rfl⟩

theorem exists_emitCall_error_iff (b : CodeBuffer) (target : Nat) :
    (∃ cause, b.emitCall target = .error cause) ↔ ¬ FitsField (b.displacementTo target) := by
  constructor
  · rintro ⟨cause, hcause⟩ hfits
    obtain ⟨grown, imm, hgrown, -⟩ := emitCall_of_fits hfits
    rw [hgrown] at hcause
    cases hcause
  · intro hfits
    refine ⟨.immediateOutOfRange (b.displacementTo target), ?_⟩
    rw [emitCall, emit, Instruction.encode, Immediate.ofInt_of_not_fits hfits]
    rfl

/-- Relative calls hit their targets.  For every buffer whose next call still ends below 2^32
and every 32-bit target offset, with the distance from the end of that call to the target:

* the request is refused exactly when the distance is outside the signed 32-bit range, and
  then it is refused with the distance and leaves the buffer as it was;
* otherwise it adds five bytes, the opcode and a field, and the field's value added to the
  32-bit offset behind the call is the target;
* so the processor, which adds the field extended with its sign to the address behind the
  call, goes to the address of the target, wherever the code is loaded. -/
theorem calls_hit_their_targets (b : CodeBuffer) (target : UInt32)
    (hroom : b.bytes.length + 5 < 0x100000000) :
    let distance : Int := (target.toNat : Int) - ((b.bytes.length : Int) + 5)
    ((∃ cause, b.emitCall target.toNat = .error cause) ↔
      distance < -0x80000000 ∨ 0x80000000 ≤ distance) ∧
    (distance < -0x80000000 ∨ 0x80000000 ≤ distance →
      b.emitCall target.toNat = .error (.immediateOutOfRange distance) ∧
        b.after (.callTo target) = b) ∧
    (-0x80000000 ≤ distance ∧ distance < 0x80000000 →
      ∃ grown field, b.emitCall target.toNat = .ok grown ∧ b.after (.callTo target) = grown ∧
        grown.bytes = b.bytes ++ 0xE8 :: field ∧ field.length = 4 ∧
        ((UInt32.ofNat grown.offset).toNat : Int) + (fieldOf field).toInt = target.toNat ∧
        ∀ base : Word, callTarget (base + BitVec.ofNat 64 grown.offset) (fieldOf field) =
          base + BitVec.ofNat 64 target.toNat) := by
  intro distance
  have hdistance : b.displacementTo target.toNat = distance := displacementTo_eq b target.toNat
  have houtside : ¬ FitsField distance ↔ distance < -0x80000000 ∨ 0x80000000 ≤ distance := by
    unfold FitsField
    omega
  refine ⟨?_, fun hout => ?_, fun hin => ?_⟩
  · rw [exists_emitCall_error_iff, hdistance, houtside]
  · exact request_of_not_fits (e := .callTo target) rfl (houtside.mpr hout)
  · have hfits : FitsField (b.displacementTo target.toNat) := hdistance.symm ▸ hin
    obtain ⟨grown, imm, hgrown, hbytes, hvalue⟩ := emitCall_of_fits hfits
    have hoffset : grown.offset = b.bytes.length + 5 := by
      rw [offset_eq_length, hbytes, List.length_append, List.length_cons, Immediate.length_bytes]
    have hword : (UInt32.ofNat grown.offset).toNat = grown.offset := by
      rw [UInt32.toNat_ofNat', hoffset]
      exact Nat.mod_eq_of_lt hroom
    have hhits : (grown.offset : Int) + (fieldOf imm.bytes).toInt = target.toNat := by
      rw [toInt_fieldOf_bytes, hvalue, hdistance, hoffset]
      omega
    refine ⟨grown, imm.bytes, hgrown, ?_, hbytes, imm.length_bytes, ?_,
      callTarget_of_distance hhits⟩
    · rw [after, request, hgrown]
    · rw [hword, hhits]

/-- A buffer with a `nop` and a `ret`. -/
def shortCode : CodeBuffer := ⟨#[nopByte, retByte]⟩

/-- A call back to the start of the code, seven bytes before its own end, and a call that is
too far ahead. -/
theorem shortCode_calls :
    shortCode.bytes.length + 5 < 0x100000000 ∧
    shortCode.emitCall 0xFFFFFFFF = .error (.immediateOutOfRange 0xFFFFFFF8) ∧
    ∃ grown field, shortCode.emitCall 0 = .ok grown ∧
      grown.bytes = [0x90, 0xC3] ++ 0xE8 :: field ∧ field.length = 4 ∧
      (fieldOf field).toInt = -7 := by
  have hroom : shortCode.bytes.length + 5 < 0x100000000 := by decide
  obtain ⟨-, hrefused, -⟩ := calls_hit_their_targets shortCode 0xFFFFFFFF hroom
  obtain ⟨-, -, haccepted⟩ := calls_hit_their_targets shortCode 0 hroom
  obtain ⟨grown, field, hgrown, -, hbytes, hlength, hhits, -⟩ := haccepted (by decide)
  refine ⟨hroom, (hrefused (by decide)).1, grown, field, hgrown, hbytes, hlength, ?_⟩
  have hoffset : (UInt32.ofNat grown.offset).toNat = 7 := by
    rw [offset_eq_length, hbytes, List.length_append, List.length_cons, hlength]
    rfl
  rw [hoffset] at hhits
  have hzero : ((0 : UInt32).toNat : Int) = 0 := rfl
  omega

end CodeBuffer

end BaselineTier.Machine

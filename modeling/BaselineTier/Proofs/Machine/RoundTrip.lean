import BaselineTier.Machine.Decoding

/-! # Reading encoded instructions back

The reader of `Machine.Decoding` takes an encoded instruction off the front of any
code and returns that instruction and what follows it.  The statement has an
arbitrary suffix, which is what makes it compose: a run of instructions is read
back one after the other, and no encoding is the beginning of the encoding of
another instruction.

The fields come first, then the formats that share them, then whole
instructions and runs of them, with the lengths of their code at the end.
-/

set_option autoImplicit false

namespace BaselineTier.Machine

/-! ## Which instructions have an encoding -/

/-- The values that a signed 32-bit field can hold. -/
def FitsField (value : Int) : Prop :=
  -0x80000000 ≤ value ∧ value < 0x80000000

instance (value : Int) : Decidable (FitsField value) :=
  inferInstanceAs (Decidable (_ ∧ _))

namespace Operand

/-- The immediate of an operand, if it is one. -/
def immediate? : Operand → Option Int
  | .reg _ => none
  | .imm value => some value

end Operand

namespace Instruction

/-- The immediate or displacement of an instruction, if it has one. -/
def immediate? : Instruction → Option Int
  | .mov _ src | .alu _ _ src => src.immediate?
  | .call displacement => some displacement
  | .imul .. | .push _ | .pop _ | .ret | .nop => none

/-- Whether every field of the instruction can hold its value. -/
def Encodable (i : Instruction) : Prop :=
  ∀ value, i.immediate? = some value → FitsField value

end Instruction

theorem Immediate.ofInt_of_fits {value : Int} (h : FitsField value) :
    Immediate.ofInt value = .ok ⟨value, h⟩ :=
  dif_pos h

theorem Immediate.ofInt_of_not_fits {value : Int} (h : ¬ FitsField value) :
    Immediate.ofInt value = .error (.immediateOutOfRange value) :=
  dif_neg h

namespace Instruction

/-- An instruction whose immediate does not fit is refused with that immediate. -/
theorem encode_of_not_fits {i : Instruction} {value : Int}
    (hvalue : i.immediate? = some value) (hfits : ¬ FitsField value) :
    i.encode = .error (.immediateOutOfRange value) := by
  have hrefused := Immediate.ofInt_of_not_fits hfits
  cases i with
  | mov dst src =>
    cases src with
    | reg r => simp [immediate?, Operand.immediate?] at hvalue
    | imm v =>
      obtain rfl : v = value := Option.some.inj hvalue
      rw [encode, hrefused]
      rfl
  | alu op dst src =>
    cases src with
    | reg r => simp [immediate?, Operand.immediate?] at hvalue
    | imm v =>
      obtain rfl : v = value := Option.some.inj hvalue
      rw [encode, hrefused]
      rfl
  | call displacement =>
    obtain rfl : displacement = value := Option.some.inj hvalue
    rw [encode, hrefused]
    rfl
  | imul dst src => simp [immediate?] at hvalue
  | push r => simp [immediate?] at hvalue
  | pop r => simp [immediate?] at hvalue
  | ret => simp [immediate?] at hvalue
  | nop => simp [immediate?] at hvalue

/-- An instruction whose immediate fits has an encoding. -/
theorem exists_encode_of_encodable {i : Instruction} (h : i.Encodable) :
    ∃ e, i.encode = .ok e := by
  cases i with
  | mov dst src =>
    cases src with
    | reg r => exact ⟨_, rfl⟩
    | imm v =>
      rw [encode, Immediate.ofInt_of_fits (h v rfl)]
      exact ⟨_, rfl⟩
  | alu op dst src =>
    cases src with
    | reg r => exact ⟨_, rfl⟩
    | imm v =>
      rw [encode, Immediate.ofInt_of_fits (h v rfl)]
      exact ⟨_, rfl⟩
  | call displacement =>
    rw [encode, Immediate.ofInt_of_fits (h displacement rfl)]
    exact ⟨_, rfl⟩
  | imul dst src => exact ⟨_, rfl⟩
  | push r => exact ⟨_, rfl⟩
  | pop r => exact ⟨_, rfl⟩
  | ret => exact ⟨_, rfl⟩
  | nop => exact ⟨_, rfl⟩

/-- Having an encoding is a matter of the immediate alone. -/
theorem exists_encode_iff_encodable (i : Instruction) :
    (∃ e, i.encode = .ok e) ↔ i.Encodable := by
  refine ⟨?_, exists_encode_of_encodable⟩
  rintro ⟨e, he⟩ value hvalue
  by_cases hfits : FitsField value
  · exact hfits
  · rw [encode_of_not_fits hvalue hfits] at he
    cases he

end Instruction

/-! ## Fields -/

/-- The two parts of a register's number give it back. -/
theorem ofNumber?_extension_low (r : Register) :
    Register.ofNumber? (8 * r.extensionBit + r.lowBits) = some r := by
  have hnumber : 8 * r.extensionBit + r.lowBits = r.number := Nat.div_add_mod r.number 8
  rw [hnumber, Register.ofNumber?_number]

theorem lowBits_lt (r : Register) : r.lowBits < 8 :=
  Nat.mod_lt _ (by decide)

theorem extensionBit_eq_zero_or_one (r : Register) : r.extensionBit = 0 ∨ r.extensionBit = 1 := by
  have hlt := r.number_lt
  unfold Register.extensionBit
  omega

/-- Both fields of a register byte are read back. -/
theorem modRMFields?_modRM {reg : Nat} (hreg : reg < 8) (rm : Register) :
    modRMFields? (modRM reg rm) = some (reg, rm.lowBits) := by
  have hlow := lowBits_lt rm
  have hbyte : (modRM reg rm).toNat = 0xC0 + 8 * reg + rm.lowBits := by
    rw [modRM, UInt8.toNat_ofNat']
    omega
  have hmode : (0xC0 + 8 * reg + rm.lowBits) / 64 = 3 := by omega
  have hfirst : (0xC0 + 8 * reg + rm.lowBits) / 8 % 8 = reg := by omega
  have hsecond : (0xC0 + 8 * reg + rm.lowBits) % 8 = rm.lowBits := by omega
  rw [modRMFields?, hbyte, if_pos hmode, hfirst, hsecond]

/-- An immediate is read back with its sign. -/
theorem readImmediate?_bytes (imm : Immediate) (rest : List UInt8) :
    readImmediate? (imm.bytes ++ rest) = some (imm.value, rest) := by
  obtain ⟨value, hlow, hhigh⟩ := imm
  simp only [Immediate.bytes, List.cons_append, List.nil_append, readImmediate?,
    UInt8.toNat_ofNat']
  refine congrArg (fun v => some (v, rest)) ?_
  generalize hfield : (value % 0x100000000).toNat = field
  have hsum : field % 2 ^ 8 + 0x100 * (field / 0x100 % 2 ^ 8) +
      0x10000 * (field / 0x10000 % 2 ^ 8) + 0x1000000 * (field / 0x1000000 % 2 ^ 8) = field := by
    omega
  rw [hsum, Int.bmod_def]
  omega

/-- The two registers of a register byte are read back. -/
theorem readRegisters?_modRM (reg rm : Register) (rest : List UInt8) :
    readRegisters? reg.extensionBit rm.extensionBit (modRM reg.lowBits rm :: rest) =
      some (reg, rm, rest) := by
  simp [readRegisters?, modRMFields?_modRM (lowBits_lt reg), ofNumber?_extension_low]

/-- A digit, a register and an immediate are read back. -/
theorem readDigitForm?_modRM {digit : Nat} (hdigit : digit < 8) (rm : Register)
    (imm : Immediate) (rest : List UInt8) :
    readDigitForm? rm.extensionBit (modRM digit rm :: (imm.bytes ++ rest)) =
      some (digit, rm, imm.value, rest) := by
  simp [readDigitForm?, modRMFields?_modRM hdigit, ofNumber?_extension_low,
    readImmediate?_bytes]

/-! ## Formats -/

/-- The extension byte for 64-bit operands announces its two extension bits. -/
theorem decode?_rexFor (reg rm : Register) (rest : List UInt8) :
    decode? (rexFor reg.extensionBit rm.extensionBit :: rest) =
      decodeWide? reg.extensionBit rm.extensionBit rest := by
  rcases extensionBit_eq_zero_or_one reg with hreg | hreg <;>
    rcases extensionBit_eq_zero_or_one rm with hrm | hrm <;>
    rw [hreg, hrm] <;> rfl

/-- The extension byte of an immediate form has no bit for the `reg` field. -/
theorem decode?_rexFor_zero (rm : Register) (rest : List UInt8) :
    decode? (rexFor 0 rm.extensionBit :: rest) = decodeWide? 0 rm.extensionBit rest := by
  rcases extensionBit_eq_zero_or_one rm with hrm | hrm <;> rw [hrm] <;> rfl

/-- A register in the opcode byte of `push`. -/
theorem decode?_plusForm_push (r : Register) (rest : List UInt8) :
    decode? ((Instruction.plusForm 0x50 r).bytes ++ rest) = some (.push r, rest) := by
  cases r <;> rfl

/-- A register in the opcode byte of `pop`. -/
theorem decode?_plusForm_pop (r : Register) (rest : List UInt8) :
    decode? ((Instruction.plusForm 0x58 r).bytes ++ rest) = some (.pop r, rest) := by
  cases r <;> rfl

/-! ## Instructions -/

/-- An encoded instruction is read back, whatever follows it. -/
theorem decode?_encode {i : Instruction} {e : Encoded} (h : i.encode = .ok e)
    (rest : List UInt8) : decode? (e.bytes ++ rest) = some (i, rest) := by
  have hfits : i.Encodable := (i.exists_encode_iff_encodable).mp ⟨e, h⟩
  cases i with
  | mov dst src =>
    cases src with
    | reg src =>
      obtain rfl := Except.ok.inj h
      simp [Instruction.registerForm, decode?_rexFor, decodeWide?, readRegisters?_modRM]
    | imm v =>
      rw [Instruction.encode, Immediate.ofInt_of_fits (hfits v rfl)] at h
      obtain rfl := Except.ok.inj h
      simp [Instruction.immediateForm, decode?_rexFor_zero, decodeWide?,
        readDigitForm?_modRM]
  | alu op dst src =>
    cases src with
    | reg src =>
      obtain rfl := Except.ok.inj h
      cases op <;>
        simp [Instruction.registerForm, AluOp.registerOpcode, decode?_rexFor, decodeWide?,
          readRegisters?_modRM]
    | imm v =>
      rw [Instruction.encode, Immediate.ofInt_of_fits (hfits v rfl)] at h
      obtain rfl := Except.ok.inj h
      cases op <;>
        simp [Instruction.immediateForm, AluOp.immediateDigit, decode?_rexFor_zero,
          decodeWide?, readDigitForm?_modRM]
  | imul dst src =>
    obtain rfl := Except.ok.inj h
    simp [decode?_rexFor, decodeWide?, readRegisters?_modRM]
  | call displacement =>
    rw [Instruction.encode, Immediate.ofInt_of_fits (hfits displacement rfl)] at h
    obtain rfl := Except.ok.inj h
    simp [decode?, readImmediate?_bytes]
  | push r =>
    obtain rfl := Except.ok.inj h
    exact decode?_plusForm_push r rest
  | pop r =>
    obtain rfl := Except.ok.inj h
    exact decode?_plusForm_pop r rest
  | ret =>
    obtain rfl := Except.ok.inj h
    rfl
  | nop =>
    obtain rfl := Except.ok.inj h
    rfl

/-- No encoding is the beginning of the encoding of another instruction. -/
theorem encode_prefixFree {i j : Instruction} {e f : Encoded} (hi : i.encode = .ok e)
    (hj : j.encode = .ok f) (hbegins : e.bytes <+: f.bytes) : i = j := by
  obtain ⟨rest, hrest⟩ := hbegins
  have hread : decode? f.bytes = some (i, rest) := by
    rw [← hrest]
    exact decode?_encode hi rest
  have hwhole : decode? f.bytes = some (j, []) := by
    simpa using decode?_encode hj []
  rw [hread] at hwhole
  exact congrArg Prod.fst (Option.some.inj hwhole)

/-- Every instruction takes up at least one byte. -/
theorem bytes_ne_nil_of_encode {i : Instruction} {e : Encoded} (h : i.encode = .ok e) :
    e.bytes ≠ [] := by
  intro hnil
  have hread := decode?_encode h []
  rw [hnil] at hread
  cases hread

/-! ## Runs of instructions -/

@[simp] theorem assemble_nil : assemble [] = .ok [] := rfl

theorem bind_eq_ok_iff {ε α β : Type} {x : Except ε α} {f : α → Except ε β} {b : β} :
    x >>= f = .ok b ↔ ∃ a, x = .ok a ∧ f a = .ok b := by
  cases x with
  | error cause =>
    refine ⟨fun h => ?_, fun ⟨a, ha, _⟩ => ?_⟩
    · cases h
    · cases ha
  | ok a =>
    refine ⟨fun h => ⟨a, rfl, h⟩, fun ⟨a', ha, h⟩ => ?_⟩
    obtain rfl := Except.ok.inj ha
    exact h

theorem pure_eq_ok_iff {ε α : Type} {a b : α} :
    (pure a : Except ε α) = .ok b ↔ a = b :=
  ⟨Except.ok.inj, congrArg _⟩

theorem assemble_eq_ok_iff {is : List Instruction} {code : List UInt8} :
    assemble is = .ok code ↔
      ∃ es, is.mapM Instruction.encode = .ok es ∧ es.flatMap Encoded.bytes = code := by
  simp only [assemble, bind_eq_ok_iff, pure_eq_ok_iff]

/-- A run assembles exactly when its first instruction and the others do. -/
theorem assemble_cons_eq_ok_iff {i : Instruction} {is : List Instruction}
    {code : List UInt8} :
    assemble (i :: is) = .ok code ↔
      ∃ e rest, i.encode = .ok e ∧ assemble is = .ok rest ∧ code = e.bytes ++ rest := by
  simp only [assemble_eq_ok_iff, List.mapM_cons, bind_eq_ok_iff, pure_eq_ok_iff]
  constructor
  · rintro ⟨_, ⟨e, hi, es, his, rfl⟩, rfl⟩
    exact ⟨e, _, hi, ⟨es, his, rfl⟩, List.flatMap_cons⟩
  · rintro ⟨e, _, hi, ⟨es, his, rfl⟩, rfl⟩
    exact ⟨_, ⟨e, hi, es, his, rfl⟩, List.flatMap_cons⟩

theorem exists_assemble_of_encodable {is : List Instruction}
    (h : ∀ i ∈ is, i.Encodable) : ∃ code, assemble is = .ok code := by
  induction is with
  | nil => exact ⟨[], rfl⟩
  | cons i is ih =>
    obtain ⟨e, hi⟩ := Instruction.exists_encode_of_encodable (h i List.mem_cons_self)
    obtain ⟨rest, hrest⟩ := ih fun j hj => h j (List.mem_cons_of_mem i hj)
    exact ⟨_, assemble_cons_eq_ok_iff.mpr ⟨e, rest, hi, hrest, rfl⟩⟩

/-- The code of two runs in a row. -/
theorem assemble_append_eq_ok_iff {is js : List Instruction} {code : List UInt8} :
    assemble (is ++ js) = .ok code ↔
      ∃ left right, assemble is = .ok left ∧ assemble js = .ok right ∧ code = left ++ right := by
  induction is generalizing code with
  | nil =>
    constructor
    · exact fun h => ⟨[], code, rfl, h, rfl⟩
    · rintro ⟨left, right, hleft, hright, rfl⟩
      obtain rfl := Except.ok.inj hleft
      exact hright
  | cons i is ih =>
    simp only [List.cons_append, assemble_cons_eq_ok_iff, ih]
    constructor
    · rintro ⟨e, _, hi, ⟨left, right, hleft, hright, rfl⟩, rfl⟩
      exact ⟨_, right, ⟨e, left, hi, hleft, rfl⟩, hright, (List.append_assoc ..).symm⟩
    · rintro ⟨_, right, ⟨e, left, hi, hleft, rfl⟩, hright, rfl⟩
      exact ⟨e, _, hi, ⟨left, right, hleft, hright, rfl⟩, List.append_assoc ..⟩

/-- More fuel keeps what was read. -/
theorem decodeWithin_of_le {n m : Nat} {code : List UInt8} {is : List Instruction}
    (h : decodeWithin n code = some is) (hle : n ≤ m) : decodeWithin m code = some is := by
  induction n generalizing m code is with
  | zero =>
    cases code with
    | nil =>
      rw [decodeWithin] at h ⊢
      exact h
    | cons b bs => cases h
  | succ n ih =>
    obtain ⟨m, rfl⟩ : ∃ k, m = k + 1 := ⟨m - 1, by omega⟩
    cases code with
    | nil =>
      rw [decodeWithin] at h ⊢
      exact h
    | cons b bs =>
      simp only [decodeWithin, Option.bind_eq_bind, Option.bind_eq_some_iff] at h ⊢
      obtain ⟨⟨i, rest⟩, hi, following, hfollowing, hpure⟩ := h
      exact ⟨(i, rest), hi, following, ih hfollowing (by omega), hpure⟩

/-- Reading goes on behind an encoded instruction. -/
theorem decodeAll?_encode_append {i : Instruction} {e : Encoded} {rest : List UInt8}
    {is : List Instruction} (hi : i.encode = .ok e) (hrest : decodeAll? rest = some is) :
    decodeAll? (e.bytes ++ rest) = some (i :: is) := by
  have hread := decode?_encode hi rest
  cases hbytes : e.bytes with
  | nil => exact absurd hbytes (bytes_ne_nil_of_encode hi)
  | cons b bs =>
    rw [hbytes] at hread
    have hfollowing : decodeWithin (bs ++ rest).length rest = some is :=
      decodeWithin_of_le hrest (by simp)
    simp only [decodeAll?, List.cons_append, List.length_cons, decodeWithin] at hread ⊢
    simp only [hread, hfollowing, Option.bind_eq_bind, Option.bind_some]
    rfl

/-- Assembled code is read back, without a rest, as the instructions it was made
from. -/
theorem decodeAll?_assemble {is : List Instruction} {code : List UInt8}
    (h : assemble is = .ok code) : decodeAll? code = some is := by
  induction is generalizing code with
  | nil =>
    obtain rfl := Except.ok.inj h
    rfl
  | cons i is ih =>
    obtain ⟨e, rest, hi, hrest, rfl⟩ := assemble_cons_eq_ok_iff.mp h
    exact decodeAll?_encode_append hi (ih hrest)

/-! ## Lengths -/

namespace Instruction

/-- The number of bytes that an instruction takes up, which its format alone decides. -/
def codeLength : Instruction → Nat
  | .mov _ (.reg _) | .alu _ _ (.reg _) => registerFormLength
  | .mov _ (.imm _) | .alu _ _ (.imm _) => immediateFormLength
  | .imul .. => multiplyLength
  | .call _ => callLength
  | .push r | .pop r => if r.isExtended then 2 else 1
  | .ret | .nop => 1

theorem length_plusForm (opcode : UInt8) (r : Register) :
    (plusForm opcode r).bytes.length = if r.isExtended then 2 else 1 := by
  by_cases hr : r.isExtended
  · simp [plusForm, hr]
  · simp [plusForm, hr]

theorem length_bytes_of_encode {i : Instruction} {e : Encoded} (h : i.encode = .ok e) :
    e.bytes.length = i.codeLength := by
  have hfits : i.Encodable := (i.exists_encode_iff_encodable).mp ⟨e, h⟩
  cases i with
  | mov dst src =>
    cases src with
    | reg src =>
      obtain rfl := Except.ok.inj h
      rfl
    | imm v =>
      rw [encode, Immediate.ofInt_of_fits (hfits v rfl)] at h
      obtain rfl := Except.ok.inj h
      rfl
  | alu op dst src =>
    cases src with
    | reg src =>
      obtain rfl := Except.ok.inj h
      rfl
    | imm v =>
      rw [encode, Immediate.ofInt_of_fits (hfits v rfl)] at h
      obtain rfl := Except.ok.inj h
      rfl
  | call displacement =>
    rw [encode, Immediate.ofInt_of_fits (hfits displacement rfl)] at h
    obtain rfl := Except.ok.inj h
    rfl
  | imul dst src =>
    obtain rfl := Except.ok.inj h
    rfl
  | push r =>
    obtain rfl := Except.ok.inj h
    exact length_plusForm 0x50 r
  | pop r =>
    obtain rfl := Except.ok.inj h
    exact length_plusForm 0x58 r
  | ret =>
    obtain rfl := Except.ok.inj h
    rfl
  | nop =>
    obtain rfl := Except.ok.inj h
    rfl

end Instruction

/-- Assembled code is as long as its instructions are together. -/
theorem length_of_assemble {is : List Instruction} {code : List UInt8}
    (h : assemble is = .ok code) :
    code.length = is.foldr (fun i total => i.codeLength + total) 0 := by
  induction is generalizing code with
  | nil =>
    obtain rfl := Except.ok.inj h
    rfl
  | cons i is ih =>
    obtain ⟨e, rest, hi, hrest, rfl⟩ := assemble_cons_eq_ok_iff.mp h
    rw [List.length_append, Instruction.length_bytes_of_encode hi, ih hrest, List.foldr_cons]

end BaselineTier.Machine

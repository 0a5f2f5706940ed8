import BaselineTier.Proofs.Binary64.Value
import BaselineTier.Proofs.Lowering.ConstantLoad
import Mathlib.Data.List.TakeWhile

/-! # Loads of doubles

A double has an integer view when it passes three tests: its fractional part is zero, it is
not below the least signed 64-bit integer, and it is below the largest one, the ends taken
as doubles.  It is then converted by a conversion that cuts off and saturates.  The tests
leave the conversion nothing to cut off or to saturate: they are passed by exactly the
doubles that are integers of the range.

So generated code loads a double as the integer that it is.  For every other double it
loads zero, and the generator reports that it did.
-/

set_option autoImplicit false

namespace BaselineTier

/-! ## Doubles that are integers of the range -/

namespace Binary64

/-- The double is exactly an integer of the signed 64-bit range. -/
structure IsInt64 (x : Binary64) (n : ℤ) : Prop where
  finite : x.isFinite = true
  value_eq : x.value = n
  low : -2 ^ 63 ≤ n
  high : n < 2 ^ 63

variable {x : Binary64} {n : ℤ}

theorem isInt64_iff :
    x.IsInt64 n ↔ x.isFinite = true ∧ x.value = n ∧ -2 ^ 63 ≤ n ∧ n < 2 ^ 63 :=
  ⟨fun h => ⟨h.finite, h.value_eq, h.low, h.high⟩, fun ⟨hf, hv, hl, hh⟩ => ⟨hf, hv, hl, hh⟩⟩

/-- What keeps a double from being an integer of the range. -/
theorem not_isInt64_iff :
    (∀ n, ¬ x.IsInt64 n) ↔
      x.isFinite = false ∨ (∀ n : ℤ, x.value ≠ n) ∨ x.value < -2 ^ 63 ∨ 2 ^ 63 ≤ x.value := by
  have hmin : (-2 ^ 63 : ℚ) = (-2 ^ 63 : ℤ) := by norm_num
  have hmax : (2 ^ 63 : ℚ) = (2 ^ 63 : ℤ) := by norm_num
  rw [hmin, hmax]
  constructor
  · intro h
    by_contra hother
    simp only [not_or, Bool.not_eq_false, not_forall, not_not, not_lt, not_le] at hother
    obtain ⟨hfinite, ⟨n, hn⟩, hlow, hhigh⟩ := hother
    rw [hn] at hlow hhigh
    exact h n ⟨hfinite, hn, Int.cast_le.mp hlow, Int.cast_lt.mp hhigh⟩
  · rintro (hinfinite | hfraction | hlow | hhigh) n h
    · rw [h.finite] at hinfinite
      cases hinfinite
    · exact hfraction n h.value_eq
    · rw [h.value_eq] at hlow
      exact absurd h.low (not_le.mpr (Int.cast_lt.mp hlow))
    · rw [h.value_eq] at hhigh
      exact absurd h.high (not_lt.mpr (Int.cast_le.mp hhigh))

/-- The bounds of a whole number of ones are the bounds of its count. -/
theorem le_mul_unitsPerOne_iff {m : ℤ} : m * unitsPerOne ≤ n * unitsPerOne ↔ m ≤ n :=
  Int.mul_le_mul_right (Int.natCast_pos.mpr unitsPerOne_pos)

/-- The three tests of the integer view, together. -/
theorem passes_tests_iff :
    (x.fract.numericEq .zero && (ofInt64 .minValue).numericLe x &&
      x.numericLt (.ofInt64 .maxValue)) = true ↔ ∃ n, x.IsInt64 n := by
  rw [Bool.and_eq_true, Bool.and_eq_true, fract_numericEq_zero_iff, numericLe_iff, numericLt_iff,
    scaled_ofInt64_minValue, scaled_ofInt64_maxValue]
  constructor
  · rintro ⟨⟨⟨hfinite, n, hn⟩, -, -, hlow⟩, -, -, hhigh⟩
    rw [Int.mul_comm] at hn
    rw [hn, le_mul_unitsPerOne_iff] at hlow
    rw [hn, ← Int.not_le, le_mul_unitsPerOne_iff, Int.not_le] at hhigh
    exact ⟨n, hfinite, value_eq_intCast_iff.mpr hn, hlow, hhigh⟩
  · rintro ⟨n, h⟩
    have hn := value_eq_intCast_iff.mp h.value_eq
    have hnan := isNaN_eq_false_of_isFinite h.finite
    have hdvd : (unitsPerOne : ℤ) ∣ x.scaled := hn ▸ Int.dvd_mul_left _ _
    refine ⟨⟨⟨h.finite, hdvd⟩, isNaN_ofInt64 _, hnan, ?_⟩, hnan, isNaN_ofInt64 _, ?_⟩
    · rw [hn, le_mul_unitsPerOne_iff]
      exact h.low
    · rw [hn, ← Int.not_le, le_mul_unitsPerOne_iff, Int.not_le]
      exact h.high

theorem IsInt64.toInt_toInt64 (h : x.IsInt64 n) : x.toInt64.toInt = n :=
  Binary64.toInt_toInt64 h.finite (value_eq_intCast_iff.mp h.value_eq) h.low h.high

end Binary64

/-! ## The integer view -/

namespace Bytecode.Constant

variable {x : Binary64}

theorem integer?_float_of_isInt64 {n : ℤ} (h : x.IsInt64 n) :
    (Constant.float x).integer? = some x.toInt64 :=
  if_pos (Binary64.passes_tests_iff.mpr ⟨n, h⟩)

theorem integer?_float_eq_none_iff :
    (Constant.float x).integer? = Option.none ↔ ∀ n, ¬ x.IsInt64 n := by
  rw [← not_exists, ← Binary64.passes_tests_iff, integer?, ite_eq_right_iff]
  exact forall_congr' fun _ => iff_of_false (Option.some_ne_none _) id

theorem map_toInt_integer?_float_iff {n : ℤ} :
    (Constant.float x).integer?.map Int64.toInt = some n ↔ x.IsInt64 n := by
  constructor
  · intro h
    obtain ⟨k, hk⟩ : ∃ k, x.IsInt64 k := by
      by_contra hnone
      rw [integer?_float_eq_none_iff.mpr (not_exists.mp hnone)] at h
      cases h
    rw [integer?_float_of_isInt64 hk, Option.map_some, hk.toInt_toInt64] at h
    exact Option.some.inj h ▸ hk
  · intro h
    rw [integer?_float_of_isInt64 h, Option.map_some, h.toInt_toInt64]

end Bytecode.Constant

/-! ## Loads in generated code -/

namespace Lowering

open Machine (Register State assemble decode?)
open Bytecode (Program Constant)

/-- The code of a position begins with an instruction that puts an integer into a register
and goes on. -/
def Puts (code : NativeCode) (position : Nat) (q : Register) (v : ℤ) : Prop :=
  ∃ offset m rest, code.offset? position = some offset ∧
    decode? (code.bytes.drop offset) = some (m, rest) ∧
    ∀ s : State, ∃ t, m.effect? s = some (.next t) ∧ (t.registers q).toInt = v

section Generated

variable {frameSize : UInt32} {p : Program} {a : Allocation} {code : NativeCode}
  {position : Nat} {i : Bytecode.Instruction}

/-- A constant load puts its integer into the register as a signed word: every integer
that is loaded is one of 64 bits. -/
theorem puts_loadedValue (hcode : generate frameSize p a = .ok code)
    (hi : p.instructions[position]? = some i) (hload : i.opcode = .loadConst) :
    Puts code position ((a.register? position).getD accumulator) (loadedValue p i.arg) := by
  obtain ⟨offset, rest, hoffset, hdecode⟩ := decode?_load hcode hi hload
  refine ⟨offset, _, rest, hoffset, hdecode, fun s => ⟨_, rfl, ?_⟩⟩
  rw [State.registers_set_self, State.operand, loadedValue, Int64.toInt, BitVec.ofInt_toInt]

/-- All placeholder loads are reported when code is generated. -/
theorem placeholderLoads_generate (hcode : generate frameSize p a = .ok code) :
    placeholderLoads frameSize p a =
      p.numbered.filterMap fun x => placeholderLoad? p x.1 x.2 := by
  have hprologue : (assemble (prologue frameSize)).isOk = true := by
    rw [(assemble_ends_generate hcode).1]
    rfl
  have hreached : p.numbered.takeWhile (fun x => (assemble (lower p a x.1 x.2)).isOk) =
      p.numbered := by
    refine List.takeWhile_eq_self_iff.mpr fun x hx => ?_
    rw [assemble_lower_generate hcode (List.mem_zipIdx_iff_getElem?.mp hx)]
    rfl
  rw [placeholderLoads, if_pos hprologue]
  exact congrArg (List.filterMap fun x => placeholderLoad? p x.1 x.2) hreached

/-- A load is reported exactly when its constant has no integer view. -/
theorem placeholderLoaded_mem_iff (hcode : generate frameSize p a = .ok code)
    (hi : p.instructions[position]? = some i) (hload : i.opcode = .loadConst) :
    Event.placeholderLoaded position i.arg ∈ (generateTraced frameSize p a).events ↔
      loadedInteger? p i.arg = none := by
  rw [generateTraced, List.mem_map, placeholderLoads_generate hcode]
  constructor
  · rintro ⟨load, hmem, hreport⟩
    obtain ⟨-, hindex⟩ := Event.placeholderLoaded.inj hreport
    obtain ⟨x, -, hx⟩ := List.mem_filterMap.mp hmem
    obtain ⟨hnone, rfl⟩ := Option.ite_some_none_eq_some.mp hx
    rw [← hindex]
    exact Option.isNone_iff_eq_none.mp hnone.2
  · intro hnone
    refine ⟨⟨position, i.arg⟩, List.mem_filterMap.mpr ⟨(i, position), ?_, ?_⟩, rfl⟩
    · exact List.mem_zipIdx_iff_getElem?.mpr hi
    · exact if_pos ⟨hload, Option.isNone_iff_eq_none.mpr hnone⟩

theorem loadedInteger?_of_constant? {c : Constant} (hc : p.constant? i.arg = some c) :
    loadedInteger? p i.arg = c.integer? := by
  rw [loadedInteger?, hc, Option.bind_some]

/-- A double that is an integer of the range is loaded as this integer. -/
theorem puts_of_isInt64 {x : Binary64} {n : ℤ} (h : x.IsInt64 n)
    (hcode : generate frameSize p a = .ok code) (hi : p.instructions[position]? = some i)
    (hload : i.opcode = .loadConst) (hc : p.constant? i.arg = some (.float x)) :
    Puts code position ((a.register? position).getD accumulator) n ∧
      Event.placeholderLoaded position i.arg ∉ (generateTraced frameSize p a).events := by
  have hview : loadedInteger? p i.arg = some x.toInt64 :=
    (loadedInteger?_of_constant? hc).trans (Constant.integer?_float_of_isInt64 h)
  have hvalue : loadedValue p i.arg = n := by
    rw [loadedValue, hview, Option.getD_some, h.toInt_toInt64]
  refine ⟨hvalue ▸ puts_loadedValue hcode hi hload, ?_⟩
  rw [placeholderLoaded_mem_iff hcode hi hload, hview]
  exact Option.some_ne_none _

/-- For any other double zero is loaded, and this is reported. -/
theorem puts_zero_of_not_isInt64 {x : Binary64} (h : ∀ n, ¬ x.IsInt64 n)
    (hcode : generate frameSize p a = .ok code) (hi : p.instructions[position]? = some i)
    (hload : i.opcode = .loadConst) (hc : p.constant? i.arg = some (.float x)) :
    Puts code position ((a.register? position).getD accumulator) 0 ∧
      Event.placeholderLoaded position i.arg ∈ (generateTraced frameSize p a).events := by
  have hview : loadedInteger? p i.arg = none :=
    (loadedInteger?_of_constant? hc).trans (Constant.integer?_float_eq_none_iff.mpr h)
  have hvalue : loadedValue p i.arg = 0 := by
    rw [loadedValue, hview]
    rfl
  exact ⟨hvalue ▸ puts_loadedValue hcode hi hload,
    (placeholderLoaded_mem_iff hcode hi hload).mpr hview⟩

end Generated

/-- The integer view of doubles is exact.  For every pattern, read as the rational number
of its sign, exponent and fraction:

* the integer view is an integer exactly when the pattern is finite and its number is this
  integer, which is then in the signed 64-bit range;
* there is none exactly for not-a-number and the infinities, for numbers with a fractional
  part, and for those outside the range;
* where generated code loads the constant, a register receives the number itself, or zero
  if there is no integer view, and the generator reports the second case and only this
  one. -/
theorem double_constants_load_exactly (x : Binary64) :
    (∀ n : ℤ, (Constant.float x).integer?.map Int64.toInt = some n ↔
      x.isFinite = true ∧ x.value = n ∧ -2 ^ 63 ≤ n ∧ n < 2 ^ 63) ∧
    ((Constant.float x).integer? = none ↔
      x.isFinite = false ∨ (∀ n : ℤ, x.value ≠ n) ∨ x.value < -2 ^ 63 ∨ 2 ^ 63 ≤ x.value) ∧
    ∀ (frameSize : UInt32) (p : Program) (a : Allocation) (code : NativeCode)
      (position : Nat) (i : Bytecode.Instruction),
      generate frameSize p a = .ok code →
      p.instructions[position]? = some i →
      i.opcode = .loadConst →
      p.constant? i.arg = some (.float x) →
      let q := (a.register? position).getD accumulator
      let report := Event.placeholderLoaded position i.arg
      let reports := (generateTraced frameSize p a).events
      (∃ n : ℤ, (Constant.float x).integer?.map Int64.toInt = some n ∧
        x.value = n ∧ Puts code position q n ∧ report ∉ reports) ∨
      ((Constant.float x).integer? = none ∧ Puts code position q 0 ∧ report ∈ reports) := by
  refine ⟨fun n => ?_, ?_, fun frameSize p a code position i hcode hi hload hc => ?_⟩
  · rw [Constant.map_toInt_integer?_float_iff, Binary64.isInt64_iff]
  · rw [Constant.integer?_float_eq_none_iff, Binary64.not_isInt64_iff]
  · by_cases hinteger : ∃ n, x.IsInt64 n
    · obtain ⟨n, h⟩ := hinteger
      exact .inl ⟨n, Constant.map_toInt_integer?_float_iff.mpr h, h.value_eq,
        puts_of_isInt64 h hcode hi hload hc⟩
    · have h := not_exists.mp hinteger
      exact .inr ⟨Constant.integer?_float_eq_none_iff.mpr h,
        puts_zero_of_not_isInt64 h hcode hi hload hc⟩

/-- Loads the doubles `-2 ^ 31` and `2 ^ 63`. -/
def powerLoads : Program where
  instructions := [⟨.loadConst, 0, 0⟩, ⟨.loadConst, 1, 0⟩, ⟨.ret, 0, 0⟩]
  constants := #[.float ⟨0xC1E0000000000000⟩, .float ⟨0x43E0000000000000⟩]

/-- The least double that a load has room for is loaded, and the first one behind the
integers is not taken for the largest of them. -/
theorem powerLoads_load_exactly :
    let a := Allocation.empty.assign 0 .r9
    let reports := (generateTraced 64 powerLoads a).events
    ∃ code,
      generate 64 powerLoads a = .ok code ∧
      (⟨0xC1E0000000000000⟩ : Binary64).value = -2 ^ 31 ∧
      Puts code 0 .r9 (-2 ^ 31) ∧
      Event.placeholderLoaded 0 0 ∉ reports ∧
      (Constant.float ⟨0x43E0000000000000⟩).integer? = none ∧
      Puts code 1 .rax 0 ∧
      Event.placeholderLoaded 1 1 ∈ reports := by
  have hleast : (Constant.float ⟨0xC1E0000000000000⟩).integer? = some (-2 ^ 31) := by
    decide +kernel
  have hbehind : (Constant.float ⟨0x43E0000000000000⟩).integer? = none := by
    decide +kernel
  have hframe : Machine.FitsField (64 : UInt32).toNat := by decide
  have hfits : ∀ i ∈ powerLoads.instructions, i.opcode = .loadConst →
      Machine.FitsField (loadedValue powerLoads i.arg) := by decide +kernel
  intro a reports
  obtain ⟨code, hcode⟩ := exists_generate_of_fits a hframe hfits
  have hfirst := (double_constants_load_exactly ⟨0xC1E0000000000000⟩).2.2 64 powerLoads a code 0 _
    hcode rfl rfl rfl
  have hsecond := (double_constants_load_exactly ⟨0x43E0000000000000⟩).2.2 64 powerLoads a code 1 _
    hcode rfl rfl rfl
  obtain ⟨n, hview, hvalue, hputs, hquiet⟩ := hfirst.resolve_right fun h => by
    rw [hleast] at h
    cases h.1
  obtain ⟨-, hzero, hreport⟩ := hsecond.resolve_left fun ⟨n, hview, _⟩ => by
    rw [hbehind] at hview
    cases hview
  obtain rfl : -2 ^ 31 = n := by
    rw [hleast] at hview
    exact Option.some.inj hview
  refine ⟨code, hcode, ?_, hputs, hquiet, hbehind, hzero, hreport⟩
  rw [hvalue]
  norm_num

end Lowering

end BaselineTier

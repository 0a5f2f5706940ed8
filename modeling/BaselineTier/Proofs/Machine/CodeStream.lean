import BaselineTier.Machine.CodeBuffer
import BaselineTier.Proofs.Machine.RoundTrip

/-! # Code streams

What a code buffer holds after any sequence of requests.  A request that has an
encoding adds its bytes behind the others and a request that has none changes
nothing, so the bytes are those of the accepted requests, and reading them back
gives exactly these.  The offsets in between are the places where one instruction
ends and the next one begins.
-/

set_option autoImplicit false

namespace BaselineTier.Machine

/-- A request for one more instruction in a code buffer.  A call names its target by
the offset in the buffer. -/
inductive Emission where
  | mov (dst : Register) (src : Operand)
  | add (dst : Register) (src : Operand)
  | sub (dst : Register) (src : Operand)
  | imul (dst src : Register)
  | callTo (target : UInt32)
  | push (r : Register)
  | pop (r : Register)
  | ret
  | nop
  deriving DecidableEq

/-- The instruction that a request stands for at the end of a buffer. -/
def Emission.instruction (b : CodeBuffer) : Emission → Instruction
  | .mov dst src => .mov dst src
  | .add dst src => .add dst src
  | .sub dst src => .sub dst src
  | .imul dst src => .imul dst src
  | .callTo target => .call ((target.toNat : Int) - ((b.bytes.length : Int) + 5))
  | .push r => .push r
  | .pop r => .pop r
  | .ret => .ret
  | .nop => .nop

namespace CodeBuffer

/-- The answer of a buffer to a request. -/
def request (b : CodeBuffer) : Emission → Except EncodeError CodeBuffer
  | .callTo target => b.emitCall target.toNat
  | .mov dst src => b.emit (.mov dst src)
  | .add dst src => b.emit (.add dst src)
  | .sub dst src => b.emit (.sub dst src)
  | .imul dst src => b.emit (.imul dst src)
  | .push r => b.emit (.push r)
  | .pop r => b.emit (.pop r)
  | .ret => b.emit .ret
  | .nop => b.emit .nop

/-- The buffer after a request, which is the same buffer when it is refused. -/
def after (b : CodeBuffer) (e : Emission) : CodeBuffer :=
  match b.request e with
  | .ok grown => grown
  | .error _ => b

/-- The buffer after several requests. -/
def afterAll (b : CodeBuffer) (es : List Emission) : CodeBuffer :=
  es.foldl after b

/-- The instructions of the requests that succeed, in order. -/
def accepted (b : CodeBuffer) : List Emission → List Instruction
  | [] => []
  | e :: es =>
    match b.request e with
    | .ok grown => e.instruction b :: grown.accepted es
    | .error _ => b.accepted es

/-! ## One request -/

theorem displacementTo_eq (b : CodeBuffer) (target : Nat) :
    b.displacementTo target = (target : Int) - ((b.bytes.length : Int) + 5) := by
  simp [displacementTo, offset_eq_length, callLength]

/-- Every request is answered by the encoding of the instruction it stands for. -/
theorem request_eq_map (b : CodeBuffer) (e : Emission) :
    b.request e = (e.instruction b).encode.map b.append := by
  cases e with
  | callTo target => rw [request, emitCall, emit, displacementTo_eq, Emission.instruction]
  | mov dst src => rfl
  | add dst src => rfl
  | sub dst src => rfl
  | imul dst src => rfl
  | push r => rfl
  | pop r => rfl
  | ret => rfl
  | nop => rfl

theorem request_of_encode {b : CodeBuffer} {e : Emission} {c : Encoded}
    (h : (e.instruction b).encode = .ok c) : b.request e = .ok (b.append c) := by
  rw [request_eq_map, h]
  rfl

/-- A request whose immediate does not fit is refused with that immediate, and the
buffer stays as it was. -/
theorem request_of_not_fits {b : CodeBuffer} {e : Emission} {value : Int}
    (hvalue : (e.instruction b).immediate? = some value) (hfits : ¬ FitsField value) :
    b.request e = .error (.immediateOutOfRange value) ∧ b.after e = b := by
  have hrefused : b.request e = .error (.immediateOutOfRange value) := by
    rw [request_eq_map, Instruction.encode_of_not_fits hvalue hfits]
    rfl
  refine ⟨hrefused, ?_⟩
  rw [after, hrefused]

/-- A request succeeds with the encoding of its instruction appended, or leaves the
buffer alone. -/
theorem after_cases (b : CodeBuffer) (e : Emission) :
    (∃ c, (e.instruction b).encode = .ok c ∧ b.after e = b.append c ∧
      ∀ es, b.accepted (e :: es) = e.instruction b :: (b.after e).accepted es) ∨
    (b.after e = b ∧ ∀ es, b.accepted (e :: es) = b.accepted es) := by
  cases hencode : (e.instruction b).encode with
  | ok c =>
    have hrequest := request_of_encode hencode
    refine .inl ⟨c, rfl, ?_, fun es => ?_⟩
    · rw [after, hrequest]
    · rw [accepted, after, hrequest]
  | error cause =>
    have hrequest : b.request e = .error cause := by
      rw [request_eq_map, hencode]
      rfl
    refine .inr ⟨?_, fun es => ?_⟩
    · rw [after, hrequest]
    · rw [accepted, hrequest]

/-! ## Sequences of requests -/

/-- What a sequence of requests adds to a buffer assembles the accepted
instructions. -/
theorem exists_assemble_accepted (b : CodeBuffer) (es : List Emission) :
    ∃ code, assemble (b.accepted es) = .ok code ∧
      (b.afterAll es).bytes = b.bytes ++ code := by
  induction es generalizing b with
  | nil => exact ⟨[], rfl, by simp [afterAll]⟩
  | cons e es ih =>
    obtain ⟨code, hcode, hbytes⟩ := ih (b.after e)
    have hafter : b.afterAll (e :: es) = (b.after e).afterAll es := rfl
    rcases after_cases b e with ⟨c, hc, hgrown, haccepted⟩ | ⟨hsame, haccepted⟩
    · refine ⟨c.bytes ++ code, ?_, ?_⟩
      · rw [haccepted]
        exact assemble_cons_eq_ok_iff.mpr ⟨c, code, hc, hcode, rfl⟩
      · rw [hafter, hbytes, hgrown, bytes_append, List.append_assoc]
    · rw [hafter, haccepted, hsame]
      rw [hsame] at hcode hbytes
      exact ⟨code, hcode, hbytes⟩

/-- The offset after some of the requests splits the final code into what these
requests and what the others emitted. -/
theorem decodeAll?_split (before later : List Emission) :
    decodeAll? ((empty.afterAll (before ++ later)).bytes.take (empty.afterAll before).offset) =
        some (empty.accepted before) ∧
      decodeAll? ((empty.afterAll (before ++ later)).bytes.drop (empty.afterAll before).offset) =
        some ((empty.afterAll before).accepted later) := by
  obtain ⟨left, hleft, hbefore⟩ := exists_assemble_accepted empty before
  obtain ⟨right, hright, hafter⟩ := exists_assemble_accepted (empty.afterAll before) later
  have hoffset : (empty.afterAll before).offset = left.length := by
    rw [offset_eq_length, hbefore, bytes_empty, List.nil_append]
  have hfinal : (empty.afterAll (before ++ later)).bytes = left ++ right := by
    rw [afterAll, List.foldl_append]
    exact hafter.trans (by rw [hbefore, bytes_empty, List.nil_append])
  rw [hfinal, hoffset, List.take_left, List.drop_left]
  exact ⟨decodeAll?_assemble hleft, decodeAll?_assemble hright⟩

/-- Code streams decode to what was emitted.  For every sequence of requests to an
empty buffer:

* the code decodes, without a rest, to the instructions of the requests that
  succeeded;
* a request succeeds exactly when its immediate or displacement fits a signed 32-bit
  field; otherwise it is refused with that value and the buffer is unchanged;
* the offset after each of the requests is a boundary: the code before it decodes to
  what was accepted so far, and the code behind it to what was accepted afterwards;
* no encoding is the beginning of the encoding of another instruction. -/
theorem emissions_decode_to_accepted (requests : List Emission) :
    decodeAll? (empty.afterAll requests).bytes = some (empty.accepted requests) ∧
    (∀ before e later, requests = before ++ e :: later →
      let b := empty.afterAll before
      ((e.instruction b).Encodable →
        ∃ c, (e.instruction b).encode = .ok c ∧ b.request e = .ok (b.append c)) ∧
      ∀ value, (e.instruction b).immediate? = some value → ¬ FitsField value →
        b.request e = .error (.immediateOutOfRange value) ∧ b.after e = b) ∧
    (∀ before later, requests = before ++ later →
      let boundary := (empty.afterAll before).offset
      decodeAll? ((empty.afterAll requests).bytes.take boundary) =
          some (empty.accepted before) ∧
        decodeAll? ((empty.afterAll requests).bytes.drop boundary) =
          some ((empty.afterAll before).accepted later)) ∧
    ∀ i j c d, Instruction.encode i = .ok c → Instruction.encode j = .ok d →
      c.bytes <+: d.bytes → i = j := by
  refine ⟨?_, ?_, ?_, ?_⟩
  · obtain ⟨code, hcode, hbytes⟩ := exists_assemble_accepted empty requests
    rw [hbytes, bytes_empty, List.nil_append]
    exact decodeAll?_assemble hcode
  · intro before e later _ b
    refine ⟨fun hencodable => ?_, fun value hvalue hfits => request_of_not_fits hvalue hfits⟩
    obtain ⟨c, hc⟩ := Instruction.exists_encode_of_encodable hencodable
    exact ⟨c, hc, request_of_encode hc⟩
  · rintro before later rfl
    exact decodeAll?_split before later
  · intro i j c d hc hd hbegins
    exact encode_prefixFree hc hd hbegins

end CodeBuffer

end BaselineTier.Machine

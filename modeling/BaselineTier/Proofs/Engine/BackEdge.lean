import BaselineTier.Proofs.Compiler.Outcome
import BaselineTier.Proofs.Engine.Provenance
import BaselineTier.Proofs.Replacement.FrameImage

/-! # Back edges into installed code

On a back edge of a function with code, the registry is asked for a manager of that very
code.  As the registry follows the cache it has one, or makes one, that is not retired.
Whether the frame can then be captured depends on the offset table alone, and the table of
compiled code has an offset inside the code for each instruction of the program.

So of all the ways an entry can fail, one is left: the position is not one of the program.
-/

set_option autoImplicit false

namespace BaselineTier

open Replacement
open Bytecode (Program)

/-! ## The manager of installed code -/

namespace Replacement.Registry

variable {r : Registry} {id : FunctionId} {object : CodeObject}

theorem registered?_of_running? {n : Nat} (h : r.running? id object = some n) :
    r.registered? id = some n := by
  simp only [running?, Option.bind_eq_bind, Option.bind_eq_some_iff] at h
  obtain ⟨number, hregistered, m, -, hsame⟩ := h
  split at hsame
  · rwa [Option.some.inj hsame] at hregistered
  · cases hsame

/-- Asked for current code that no registered manager runs, the registry makes a manager. -/
theorem enrol_of_not_running (h : r.Orderly) (hnone : r.running? id object = none) :
    (r.enrol id object true).2 = .registered r.managers.size ∧
      (r.enrol id object true).1.manager? r.managers.size =
        some { id := r.managers.size, object } := by
  have hnew : (r.newManager object).1.manager? r.managers.size =
      some { id := r.managers.size, object } := by
    rw [manager?_newManager, if_pos rfl]
  unfold enrol
  rw [hnone]
  refine ⟨rfl, ?_⟩
  cases hold : r.registered? id with
  | none => exact hnew
  | some old =>
    -- the manager replaced is another one, so retiring it leaves the new one alone
    have hne : old ≠ r.managers.size := Nat.ne_of_lt (h.lt_size hold)
    refine (manager?_retire (r.newManager object).1 old _).trans ?_
    rw [if_neg hne, hnew]

end Replacement.Registry

namespace Engine

variable {e : Engine} {id : FunctionId} {object : CodeObject}

/-- The manager for installed code runs that very code and takes entries. -/
theorem exists_asked? (hcoherent : e.installation.Coherent)
    (hpeek : e.installation.cache.peek? id = some object) :
    ∃ m, e.asked? id object = some m ∧ m.object = object ∧ m.retired = false := by
  have hcurrent : e.installation.cache.isInstalled id object = true := by
    simp [Cache.isInstalled, hpeek]
  cases hrunning : e.installation.registry.running? id object with
  | some n =>
    have hregistered := Registry.registered?_of_running? hrunning
    obtain ⟨m, hm, hactive⟩ := hcoherent.orderly.inUse id n hregistered
    have hinstalled := hcoherent.peek?_of_registered? hregistered hm
    rw [hpeek] at hinstalled
    refine ⟨m, ?_, (Option.some.inj hinstalled).symm, hactive⟩
    simp only [asked?, enrolled, Registry.enrol, hrunning]
    exact hm
  | none =>
    obtain ⟨henrolment, hm⟩ := Registry.enrol_of_not_running hcoherent.orderly hrunning
    refine ⟨{ id := e.installation.registry.managers.size, object }, ?_, rfl, rfl⟩
    simp only [asked?, enrolled, hcurrent, henrolment]
    exact hm

/-! ## Answers -/

section Answers

variable {position offset : Nat} (state : Snapshot) (hcoherent : e.installation.Coherent)
  (hon : e.config.replacement = true) (hpeek : e.installation.cache.peek? id = some object)

include hcoherent hon hpeek

theorem onBackEdge_of_unmapped (hunmapped : object.code.offset? position = none) :
    (e.onBackEdge id position state).value.2 =
      .error (.replacement (.unmappedOffset position)) := by
  obtain ⟨m, hasked, rfl, -⟩ := exists_asked? hcoherent hpeek
  rw [onBackEdge_of_some position state hon hpeek, hasked]
  dsimp only
  rw [enter_eq, Manager.create_of_unmapped hunmapped]

theorem onBackEdge_of_mapped (hmapped : object.code.offset? position = some offset)
    (hinside : object.code.containsOffset offset = true) :
    (e.onBackEdge id position state).value.2 =
      .ok (some { position, resumeOffset := offset, slots := frameSlots state }) := by
  obtain ⟨m, hasked, rfl, hactive⟩ := exists_asked? hcoherent hpeek
  have hentry : m.object.code.entryPoint + offset = offset := Nat.zero_add offset
  rw [onBackEdge_of_some position state hon hpeek, hasked]
  dsimp only
  rw [enter_eq, Manager.create_of_mapped hactive hmapped hinside]
  dsimp only [Manager.transferOf, Manager.adding, Manager.capture]
  rw [hentry]

end Answers

end Engine

/-! ## Offsets of compiled code -/

namespace Engine

variable {config : EngineConfig} {ops : List Operation} {id : FunctionId} {program : Program}
  {object : CodeObject} {position : Nat}

theorem InstalledBy.offset?_eq_none (h : InstalledBy config ops id program object)
    (hposition : program.size ≤ position) : object.code.offset? position = none := by
  obtain ⟨result, hcompile, hcode⟩ := h.compile_eq_ok
  have hgenerate := CompilerConfig.generate_of_compile hcompile
  rw [← hcode]
  exact List.getElem?_eq_none (Lowering.length_offsets_generate hgenerate ▸ hposition)

theorem InstalledBy.exists_offset (h : InstalledBy config ops id program object)
    (hposition : position < program.size) :
    ∃ offset, object.code.offset? position = some offset ∧ offset < object.size := by
  obtain ⟨result, hcompile, hcode⟩ := h.compile_eq_ok
  have hgenerate := CompilerConfig.generate_of_compile hcompile
  rw [CodeObject.size, ← hcode]
  have hoffset := Lowering.offset?_generate hgenerate hposition
  refine ⟨_, hoffset, ?_⟩
  have hbefore := (Lowering.offsets_generate hgenerate).2 _ (List.mem_of_getElem? hoffset)
  have hsize := Lowering.size_generate hgenerate
  rw [Lowering.codeSize] at hsize
  have hpositive : 0 < Lowering.epilogueSize := by decide
  omega

/-! ## Whole runs -/

/-- A transfer into code for a captured frame: it resumes where the code of the position
begins, and has all values of the frame. -/
structure Enters (code : NativeCode) (position : Nat) (state : Snapshot) (t : Transfer) :
    Prop where
  origin : t.position = position
  offset : code.offsets[position]? = some t.resumeOffset
  inside : t.resumeOffset < code.size
  values : t.slots.map (·.value) = state.locals ++ state.stack

/-- With replacement off or no code installed, a back edge is not answered with a transfer. -/
theorem onBackEdge_of_outside
    (houtside : config.replacement = false ∨
      ((synchronous config).afterAll ops).installation.cache.contains id = false)
    (position : Nat) (state : Snapshot) :
    (((synchronous config).afterAll ops).onBackEdge id position state).value.2 = .ok none := by
  rcases houtside with hoff | habsent
  · have hreplacement : ((synchronous config).afterAll ops).config.replacement = false := by
      rw [(afterAll_keeps config ops).1]
      exact hoff
    rw [onBackEdge_of_off position state hreplacement]
  · have hpeek := Option.isSome_eq_false_iff.mp habsent
    rw [onBackEdge_of_none position state (Option.isNone_iff_eq_none.mp hpeek)]

/-- With code installed, a back edge is refused beyond the end of the program the code was
compiled from, and enters the code everywhere else. -/
theorem onBackEdge_of_installedBy (hon : config.replacement = true)
    (hpeek : ((synchronous config).afterAll ops).installation.cache.peek? id = some object)
    (hinstalled : InstalledBy config ops id program object) (position : Nat) (state : Snapshot) :
    (program.size ≤ position ∧
      (((synchronous config).afterAll ops).onBackEdge id position state).value.2 =
        .error (.replacement (.unmappedOffset position))) ∨
    (position < program.size ∧ ∃ t, Enters object.code position state t ∧
      (((synchronous config).afterAll ops).onBackEdge id position state).value.2 =
        .ok (some t)) := by
  have hcoherent := coherent_afterAll config ops
  have hreplacement : ((synchronous config).afterAll ops).config.replacement = true := by
    rw [(afterAll_keeps config ops).1]
    exact hon
  rcases Nat.lt_or_ge position program.size with hwithin | hbeyond
  · obtain ⟨offset, hmapped, hinside⟩ := hinstalled.exists_offset hwithin
    have hentered := onBackEdge_of_mapped state hcoherent hreplacement hpeek hmapped
      (decide_eq_true hinside)
    refine .inr ⟨hwithin, _, ?_, hentered⟩
    exact ⟨rfl, hmapped, hinside, map_value_frameSlots state⟩
  · have hunmapped := hinstalled.offset?_eq_none hbeyond
    exact .inl
      ⟨hbeyond, onBackEdge_of_unmapped state hcoherent hreplacement hpeek hunmapped⟩

/-- A back edge after any run of a synchronous engine.

* There is no transfer, and no error, exactly if replacement is off or the function is not
  in the cache.
* Otherwise the code in the cache was compiled from some program at a call, and the back
  edge is refused exactly if its position is not one of that program; at all other positions
  the transfer enters the code that is in the cache now.
* No other error occurs.
* The cache stays as it is, with its recency order and its counts. -/
theorem back_edges_enter_installed_code (config : EngineConfig) (ops : List Operation)
    (id : FunctionId) (position : Nat) (state : Snapshot) :
    let e := (synchronous config).afterAll ops
    let after := (e.onBackEdge id position state).value.1
    let answer := (e.onBackEdge id position state).value.2
    (answer = .ok none ↔
      config.replacement = false ∨ e.installation.cache.contains id = false) ∧
    (config.replacement = true →
      ∀ object, e.installation.cache.peek? id = some object →
        (∃ program, InstalledBy config ops id program object) ∧
        ∀ program, InstalledBy config ops id program object →
          (answer = .error (.replacement (.unmappedOffset position)) ↔
            program.size ≤ position) ∧
          (position < program.size →
            ∃ t, Enters object.code position state t ∧ answer = .ok (some t))) ∧
    (∀ cause, answer = .error cause → cause = .replacement (.unmappedOffset position)) ∧
    after.installation.cache = e.installation.cache := by
  intro e after answer
  have hcache : after.installation.cache = e.installation.cache := by
    obtain ⟨registry, entries, hafter⟩ := onBackEdge_changes position state e id
    exact congrArg (·.installation.cache) hafter
  by_cases houtside : config.replacement = false ∨ e.installation.cache.contains id = false
  · have hnone : answer = .ok none := onBackEdge_of_outside houtside position state
    refine ⟨⟨fun _ => houtside, fun _ => hnone⟩, ?_, ?_, hcache⟩
    · intro hon object hpeek
      rw [hon, Cache.contains_of_peek?_eq_some hpeek] at houtside
      rcases houtside with habsurd | habsurd
      · cases habsurd
      · cases habsurd
    · intro cause hcause
      cases hnone.symm.trans hcause
  · obtain ⟨hon, hcontains⟩ : config.replacement = true ∧
        e.installation.cache.contains id = true := by simpa using houtside
    obtain ⟨object, hpeek⟩ := Option.isSome_iff_exists.mp hcontains
    have houtcome := fun program (hinstalled : InstalledBy config ops id program object) =>
      onBackEdge_of_installedBy hon hpeek hinstalled position state
    obtain ⟨program, hinstalled⟩ := exists_installedBy hpeek
    refine ⟨⟨fun hnone => ?_, fun hout => absurd hout houtside⟩, ?_, ?_, hcache⟩
    · rcases houtcome program hinstalled with ⟨-, herror⟩ | ⟨-, t, -, hentered⟩
      · cases hnone.symm.trans herror
      · cases hnone.symm.trans hentered
    · intro _ object' hobject
      obtain rfl := Option.some.inj (hpeek.symm.trans hobject)
      refine ⟨⟨program, hinstalled⟩, fun program hinstalled => ?_⟩
      rcases houtcome program hinstalled with
        ⟨hbeyond, herror⟩ | ⟨hwithin, t, henters, hentered⟩
      · exact ⟨⟨fun _ => hbeyond, fun _ => herror⟩,
          fun hwithin => absurd hbeyond (Nat.not_le_of_lt hwithin)⟩
      · refine ⟨⟨fun herror => ?_, fun hbeyond => ?_⟩, fun _ => ⟨t, henters, hentered⟩⟩
        · cases hentered.symm.trans herror
        · exact absurd hbeyond (Nat.not_le_of_lt hwithin)
    · intro cause hcause
      rcases houtcome program hinstalled with ⟨-, herror⟩ | ⟨-, t, -, hentered⟩
      · cases hcause.symm.trans herror
        rfl
      · cases hcause.symm.trans hentered

/-- In `crowdedRun` function 2 is left in the cache, with a single instruction. -/
theorem crowdedRun_back_edges :
    (∃ object t,
      InstalledBy crowdedConfig crowdedRun ⟨2⟩ (returning ⟨2⟩) object ∧
      Enters object.code 0 {} t ∧
      (((synchronous crowdedConfig).afterAll crowdedRun).onBackEdge ⟨2⟩ 0 {}).value.2 =
        .ok (some t)) ∧
    (((synchronous crowdedConfig).afterAll crowdedRun).onBackEdge ⟨2⟩ 1 {}).value.2 =
      .error (.replacement (.unmappedOffset 1)) ∧
    (((synchronous crowdedConfig).afterAll crowdedRun).onBackEdge ⟨0⟩ 0 {}).value.2 =
      .ok none := by
  obtain ⟨object, hpeek, hinstalled⟩ : ∃ object,
      ((synchronous crowdedConfig).afterAll crowdedRun).installation.cache.peek? ⟨2⟩ =
        some object ∧
      InstalledBy crowdedConfig crowdedRun ⟨2⟩ (returning ⟨2⟩) object :=
    ⟨_, rfl, crowdedRun.take 5, 2, [], rfl, rfl, rfl⟩
  have hedge := fun id position =>
    back_edges_enter_installed_code crowdedConfig crowdedRun id position {}
  have hfirst := ((hedge ⟨2⟩ 0).2.1 rfl _ hpeek).2 _ hinstalled
  have hsecond := ((hedge ⟨2⟩ 1).2.1 rfl _ hpeek).2 _ hinstalled
  obtain ⟨t, henters, hentered⟩ := hfirst.2 (by decide)
  refine ⟨⟨object, t, hinstalled, henters, hentered⟩, ?_, ?_⟩
  · exact hsecond.1.mpr (by decide)
  · exact (hedge ⟨0⟩ 0).1.mpr (.inr (by decide +kernel))

end Engine

end BaselineTier

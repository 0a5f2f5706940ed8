import Mathlib.Algebra.BigOperators.Group.List.Basic
import Mathlib.Algebra.GroupWithZero.Nat
import Mathlib.Data.List.DropRight
import BaselineTier.Worker

/-! # What a worker retains

A worker counts a result when it has compiled, and retains it afterwards; whoever takes the
results empties the store without looking at the counts.  Results that nobody takes are given
up, oldest first, so that the store stays small.

`Balanced` ties the counts to the store: every result that was completed was taken, is still
retained or was given up.  It holds after each completion and each taking, hence after every
sequence of them.
-/

set_option autoImplicit false

namespace BaselineTier

namespace Worker

/-! ## Compiling -/

section Compiling

variable {w : Worker} {r : Request} (s : Installation)

/-- The worker after a compile that failed. -/
def refused (w : Worker) : Worker :=
  { w with stats := { w.stats with failures := w.stats.failures + 1 } }

/-- The worker after a compile whose code was installed. -/
def compiled (w : Worker) (code : NativeCode) : Worker :=
  { w with
    stats :=
      { w.stats with
        compilations := w.stats.compilations + 1
        bytesCompiled := w.stats.bytesCompiled + code.size } }

theorem compile_of_error {cause : Error} (h : w.config.compile r.program = .error cause) :
    (w.compile s r).value = (w.refused, s, ⟨r.id, 0, [], some cause⟩) := by
  simp [compile, h, refused]

theorem compile_of_ok {result : Compilation} (h : w.config.compile r.program = .ok result) :
    (w.compile s r).value =
      (w.compiled result.code, (s.install r.id result.code).1,
        ⟨r.id, result.code.size, (s.install r.id result.code).2.2.map (·.id), none⟩) := by
  simp [compile, h, compiled]

end Compiling

/-- The worker with a result counted. -/
def counting (w : Worker) (result : CompilationResult) : Worker :=
  { w with
    stats :=
      { w.stats with
        compilations := w.stats.compilations + if result.isOk then 1 else 0
        failures := w.stats.failures + if result.isOk then 0 else 1
        bytesCompiled := w.stats.bytesCompiled + result.codeSize } }

/-- All that a compile does to the worker is to count the result. -/
theorem compile_counts (w : Worker) (s : Installation) (r : Request) :
    (w.compile s r).value.1 = w.counting (w.compile s r).value.2.2 := by
  cases h : w.config.compile r.program with
  | error cause =>
    rw [compile_of_error s h]
    rfl
  | ok result =>
    rw [compile_of_ok s h]
    rfl

/-- What a compile leads to does not depend on the results that are retained. -/
theorem compile_takeResults (w : Worker) (s : Installation) (r : Request) :
    (w.takeResults.1.compile s r).value.2 = (w.compile s r).value.2 := by
  cases h : w.config.compile r.program with
  | error cause => rw [compile_of_error s h, compile_of_error (w := w.takeResults.1) s h]
  | ok result => rw [compile_of_ok s h, compile_of_ok (w := w.takeResults.1) s h]

/-! ## Retaining -/

/-- The newest of the newest members and some later ones are the newest of all. -/
theorem rtake_rtake_append {α : Type} (older later : List α) (n : Nat) :
    (older.rtake n ++ later).rtake n = (older ++ later).rtake n := by
  unfold List.rtake
  rw [← List.drop_append_of_le_length (by omega), List.drop_drop]
  congr 1
  simp only [List.length_drop, List.length_append]
  omega

theorem rtake_of_length_le {α : Type} {results : List α} {n : Nat} (h : results.length ≤ n) :
    results.rtake n = results := by
  rw [List.rtake, Nat.sub_eq_zero_of_le h, List.drop_zero]

theorem length_rtake_le {α : Type} (results : List α) (n : Nat) :
    (results.rtake n).length ≤ n := by
  rw [List.rtake, List.length_drop]
  omega

/-- Retaining a result is no work. -/
theorem retain_keeps (w : Worker) (result : CompilationResult) :
    (w.retain result).config = w.config ∧
      (w.retain result).stats.compilations = w.stats.compilations ∧
      (w.retain result).stats.failures = w.stats.failures ∧
      (w.retain result).stats.bytesCompiled = w.stats.bytesCompiled := by
  unfold retain
  split
  · exact ⟨rfl, rfl, rfl, rfl⟩
  · exact ⟨rfl, rfl, rfl, rfl⟩

section Retaining

variable {w : Worker} (hroom : w.results.length ≤ maxRetained) (result : CompilationResult)

include hroom

/-- The store holds the newest results. -/
theorem results_retain :
    (w.retain result).results = (w.results ++ [result]).rtake maxRetained := by
  unfold retain
  split
  · rename_i hfull
    have hone : (w.results ++ [result]).length - maxRetained = 1 := by
      rw [List.length_append, List.length_singleton]
      omega
    have hsome : w.results ≠ [] := by
      intro hnil
      rw [hnil] at hfull
      cases hfull
    rw [List.rtake, hone, List.drop_one, List.tail_append_of_ne_nil hsome]
  · rw [rtake_of_length_le]
    rw [List.length_append, List.length_singleton]
    omega

theorem length_results_retain : (w.retain result).results.length ≤ maxRetained := by
  rw [results_retain hroom]
  exact length_rtake_le _ _

end Retaining

/-- One more result is retained or given up. -/
theorem retain_conserves (w : Worker) (result : CompilationResult) :
    (w.retain result).results.length + (w.retain result).stats.resultsDropped =
      w.results.length + w.stats.resultsDropped + 1 := by
  have hpositive : 0 < maxRetained := by decide
  unfold retain
  split
  · simp only [List.length_append, List.length_tail, List.length_singleton]
    omega
  · simp only [List.length_append, List.length_singleton]
    omega

/-! ## Accounts -/

/-- The counts of a worker that completed some results, when some were taken. -/
structure Balanced (done taken : List CompilationResult) (w : Worker) : Prop where
  room : w.results.length ≤ maxRetained
  compilations : w.stats.compilations = done.countP (·.isOk)
  failures : w.stats.failures = done.countP (!·.isOk)
  bytes : w.stats.bytesCompiled = (done.map (·.codeSize)).sum
  conserved : done.length = taken.length + w.results.length + w.stats.resultsDropped

namespace Balanced

variable {done taken : List CompilationResult} {w : Worker}

theorem complete (h : w.Balanced done taken) (result : CompilationResult) :
    Balanced (done ++ [result]) taken ((w.counting result).retain result) := by
  have hroom : (w.counting result).results.length ≤ maxRetained := h.room
  obtain ⟨-, hcompilations, hfailures, hbytes⟩ := retain_keeps (w.counting result) result
  constructor
  case room => exact length_results_retain hroom result
  case compilations =>
    rw [hcompilations, List.countP_append, ← h.compilations, List.countP_singleton]
    rfl
  case failures =>
    rw [hfailures, List.countP_append, ← h.failures, List.countP_singleton]
    cases hok : result.isOk <;> simp [counting, hok]
  case bytes =>
    rw [hbytes, List.map_append, List.sum_append, ← h.bytes, List.map_singleton,
      List.sum_singleton]
    rfl
  case conserved =>
    have hretained := retain_conserves (w.counting result) result
    have hbefore := h.conserved
    simp only [counting] at hretained ⊢
    rw [List.length_append, List.length_singleton]
    omega

theorem takeResults (h : w.Balanced done taken) :
    Balanced done (taken ++ w.takeResults.2) w.takeResults.1 where
  room := Nat.zero_le _
  compilations := h.compilations
  failures := h.failures
  bytes := h.bytes
  conserved := by
    rw [h.conserved, List.length_append]
    rfl

/-- Every completed result was counted. -/
theorem counted (h : w.Balanced done taken) :
    w.stats.compilations + w.stats.failures = done.length := by
  rw [h.compilations, h.failures, List.length_eq_countP_add_countP (·.isOk)]
  simp

end Balanced

theorem balanced_new (config : CompilerConfig) : Balanced [] [] { config } where
  room := Nat.zero_le _
  compilations := rfl
  failures := rfl
  bytes := rfl
  conserved := rfl

end Worker

/-! ## Sequences of completions -/

namespace Workshop

/-- What can happen at a worker. -/
inductive Step where
  /-- The worker works on a request and retains the result. -/
  | work (r : Request)
  /-- Somebody takes the results. -/
  | take
  /-- Others change what is queued and what is installed. -/
  | elsewhere (queue : Queue) (installation : Installation)

/-- The result of working on a request. -/
def outcome (w : Workshop) (r : Request) : CompilationResult :=
  (w.worker.compile w.installation r).value.2.2

/-- The workshop after a step. -/
def after (w : Workshop) : Step → Workshop
  | .work r => (w.process r).value
  | .take => { w with worker := w.worker.takeResults.1 }
  | .elsewhere queue installation => { w with queue, installation }

/-- The workshop after several steps. -/
def afterAll (w : Workshop) (steps : List Step) : Workshop :=
  steps.foldl after w

theorem afterAll_append (w : Workshop) (before later : List Step) :
    w.afterAll (before ++ later) = (w.afterAll before).afterAll later :=
  List.foldl_append

/-- The results that a step completes. -/
def completes (w : Workshop) : Step → List CompilationResult
  | .work r => [w.outcome r]
  | .take | .elsewhere .. => []

/-- The results that a step hands out. -/
def handsOut (w : Workshop) : Step → List CompilationResult
  | .take => w.worker.takeResults.2
  | .work _ | .elsewhere .. => []

/-- What the steps yield one after the other. -/
def yields (yield : Workshop → Step → List CompilationResult) (w : Workshop) :
    List Step → List CompilationResult
  | [] => []
  | step :: steps => yield w step ++ yields yield (w.after step) steps

theorem worker_after_work (w : Workshop) (r : Request) :
    (w.after (.work r)).worker = (w.worker.counting (w.outcome r)).retain (w.outcome r) := by
  rw [outcome, ← Worker.compile_counts]
  rfl

/-- A step keeps the accounts. -/
theorem balanced_after {done taken : List CompilationResult} {w : Workshop}
    (h : w.worker.Balanced done taken) (step : Step) :
    Worker.Balanced (done ++ w.completes step) (taken ++ w.handsOut step)
      (w.after step).worker := by
  cases step with
  | work r =>
    rw [worker_after_work, handsOut, List.append_nil]
    exact h.complete (w.outcome r)
  | take =>
    rw [completes, List.append_nil]
    exact h.takeResults
  | elsewhere queue installation =>
    rw [completes, handsOut, List.append_nil, List.append_nil]
    exact h

theorem balanced_afterAll {done taken : List CompilationResult} {w : Workshop}
    (h : w.worker.Balanced done taken) (steps : List Step) :
    Worker.Balanced (done ++ yields completes w steps) (taken ++ yields handsOut w steps)
      (w.afterAll steps).worker := by
  induction steps generalizing done taken w with
  | nil =>
    rw [yields, yields, List.append_nil, List.append_nil]
    exact h
  | cons step steps ih =>
    rw [yields, yields, ← List.append_assoc, ← List.append_assoc]
    exact ih (balanced_after h step)

/-- Without taking, a step adds what it completes to the store. -/
theorem results_after {w : Workshop} (hroom : w.worker.results.length ≤ Worker.maxRetained)
    {step : Step} (hstep : step ≠ .take) :
    (w.after step).worker.results =
      (w.worker.results ++ w.completes step).rtake Worker.maxRetained := by
  cases step with
  | work r =>
    rw [worker_after_work]
    exact Worker.results_retain (w := w.worker.counting (w.outcome r)) hroom (w.outcome r)
  | take => exact absurd rfl hstep
  | elsewhere queue installation =>
    rw [completes, List.append_nil, Worker.rtake_of_length_le hroom]
    rfl

theorem results_afterAll {w : Workshop} (hroom : w.worker.results.length ≤ Worker.maxRetained)
    {steps : List Step} (hsteps : .take ∉ steps) :
    (w.afterAll steps).worker.results =
      (w.worker.results ++ yields completes w steps).rtake Worker.maxRetained := by
  induction steps generalizing w with
  | nil =>
    rw [yields, List.append_nil, Worker.rtake_of_length_le hroom]
    rfl
  | cons step steps ih =>
    rw [List.mem_cons, not_or] at hsteps
    have hafter := results_after hroom (Ne.symm hsteps.1)
    have hroom' : (w.after step).worker.results.length ≤ Worker.maxRetained := by
      rw [hafter]
      exact Worker.length_rtake_le _ _
    have hrest := ih hroom' hsteps.2
    rw [hafter, Worker.rtake_rtake_append, List.append_assoc] at hrest
    exact hrest

/-- Nothing is retained at the beginning and behind a taking. -/
theorem results_afterAll_fresh {w : Workshop} (hnew : w.worker.results = []) {before : List Step}
    (hbefore : before = [] ∨ before.getLast? = some .take) :
    (w.afterAll before).worker.results = [] := by
  rcases hbefore with rfl | hlast
  · exact hnew
  · obtain ⟨earlier, rfl⟩ := List.getLast?_eq_some_iff.mp hlast
    rw [afterAll_append]
    rfl

/-- A taking between the two halves of a completion is a taking before both. -/
theorem take_between_halves (w : Workshop) (r : Request) :
    let half := (w.worker.compile w.installation r).value
    half.1.takeResults.2 = w.worker.takeResults.2 ∧
      half.1.takeResults.1.retain half.2.2 = ((w.after .take).after (.work r)).worker := by
  intro half
  have hhalf : half.1 = w.worker.counting half.2.2 :=
    w.worker.compile_counts w.installation r
  have hsame : (w.after .take).outcome r = half.2.2 :=
    congrArg Prod.snd (w.worker.compile_takeResults w.installation r)
  rw [worker_after_work, hsame, hhalf]
  exact ⟨rfl, rfl⟩

/-- The loop of a worker is a sequence of steps without taking. -/
theorem exists_afterAll_run (n : Nat) (w : Workshop) :
    ∃ steps, .take ∉ steps ∧ (run n w).value = w.afterAll steps := by
  induction n generalizing w with
  | zero => exact ⟨[], List.not_mem_nil, rfl⟩
  | succ n ih =>
    unfold run
    split
    · exact ⟨[], List.not_mem_nil, rfl⟩
    · rename_i r queue _
      obtain ⟨steps, hsteps, hrun⟩ := ih ({ w with queue }.process r).value
      refine ⟨.elsewhere queue w.installation :: .work r :: steps, ?_, hrun⟩
      simpa using hsteps

/-- The retained results are an exact and bounded history.  For every sequence of completions
and takings, whatever else changes in the meantime:

* no more results are retained than there is room for;
* of the results completed since the last taking, or since the beginning, the last ones are
  retained, as many as there is room for and in the order of their completion;
* a taking hands out what is retained and leaves nothing else changed than an empty store;
* the results counted, by success and by failure, are those completed, and each of them was
  taken, is retained or was given up;
* the bytes counted are those of all completed results;
* a completion in two halves, with a taking in between, is a taking and then the completion;
* the loop of a worker is such a sequence. -/
theorem results_form_bounded_history (config : CompilerConfig) (queue : Queue)
    (installation : Installation) (steps : List Step) :
    let start : Workshop := ⟨queue, { config }, installation⟩
    let w := start.afterAll steps
    w.worker.results.length ≤ Worker.maxRetained ∧
    (∀ before later, steps = before ++ later →
      before = [] ∨ before.getLast? = some .take → .take ∉ later →
      let done := yields completes (start.afterAll before) later
      w.worker.results = done.rtake (min done.length Worker.maxRetained)) ∧
    (w.handsOut .take = w.worker.results ∧
      (w.after .take).worker = { w.worker with results := [] }) ∧
    w.worker.stats.compilations + w.worker.stats.failures =
      (yields handsOut start steps).length + w.worker.results.length +
        w.worker.stats.resultsDropped ∧
    w.worker.stats.compilations = (yields completes start steps).countP (·.isOk) ∧
    w.worker.stats.failures = (yields completes start steps).countP (!·.isOk) ∧
    w.worker.stats.bytesCompiled = ((yields completes start steps).map (·.codeSize)).sum ∧
    (∀ r, let half := (w.worker.compile w.installation r).value
      half.1.takeResults.2 = w.handsOut .take ∧
        half.1.takeResults.1.retain half.2.2 = ((w.after .take).after (.work r)).worker) ∧
    ∀ n, ∃ more, .take ∉ more ∧ (run n w).value = start.afterAll (steps ++ more) := by
  intro start w
  have hbalanced : Worker.Balanced (yields completes start steps) (yields handsOut start steps)
      w.worker := by
    have hstart : start.worker.Balanced [] [] := Worker.balanced_new config
    simpa using balanced_afterAll hstart steps
  refine ⟨hbalanced.room, ?_, ⟨rfl, rfl⟩, ?_, hbalanced.compilations, hbalanced.failures,
    hbalanced.bytes, take_between_halves w, fun n => ?_⟩
  · intro before later hsteps hbefore hlater done
    have hnone : (start.afterAll before).worker.results = [] :=
      results_afterAll_fresh rfl hbefore
    have hroom : (start.afterAll before).worker.results.length ≤ Worker.maxRetained := by
      rw [hnone]
      exact Nat.zero_le _
    have hmin : done.length - min done.length Worker.maxRetained =
        done.length - Worker.maxRetained := by omega
    have hresults := results_afterAll hroom hlater
    rw [hnone, List.nil_append, ← afterAll_append, ← hsteps] at hresults
    rw [List.rtake, hmin]
    exact hresults
  · rw [hbalanced.counted, hbalanced.conserved]
  · obtain ⟨more, hmore, hrun⟩ := exists_afterAll_run n w
    exact ⟨more, hmore, hrun.trans (afterAll_append start steps more).symm⟩

end Workshop

end BaselineTier

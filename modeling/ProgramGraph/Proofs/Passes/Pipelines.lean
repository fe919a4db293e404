import Mathlib.Data.List.Forall2
import ProgramGraph.Pipeline

set_option autoImplicit false

/-!
# Running pipelines

Passes are accepted in order as long as none fails. Then all of them are cleaned up in order, those that
were never accepted as well. So two loops go over the same passes, of which one may end early and the
other may not. Which passes are touched, and in which order, is shown by running passes that keep a log
besides what else they do.

## Main definitions

* `ProgramGraph.Pipeline.Accepts` — some passes are accepted one after the other, and none fails.
* `ProgramGraph.Pipeline.Fares` — how many passes are accepted, and what this comes to.
* `ProgramGraph.Pipeline.traced` — the same passes, which also log that they are touched.
* `ProgramGraph.Pipeline.runNamed` — running the registered passes with some names.

## Main results

* `ProgramGraph.Pipeline.acceptAll_append` — what was accepted can be left aside.
* `ProgramGraph.Pipeline.exists_fares` — accepting passes ends in one of three ways.
* `ProgramGraph.Pipeline.runs_in_order` — what a run does, and what names come to.
-/

namespace ProgramGraph

/-! ## Passes -/

/-- The names that passes are registered with. -/
def Pass.registeredNames : List String := Pass.resolverName :: Pass.resolverAliases

/-- Which names stand for a pass, and which one. -/
theorem Pass.ofName_eq {ω : Type} (name : String) : Pass.ofName (ω := ω) name =
    if name ∈ registeredNames then .ok resolver else .error (.unknownPass name) := by
  simp only [Pass.ofName, List.contains_iff_mem]
  rfl

/-- What is done to the pass at a position of a pipeline. -/
inductive Touch where
  | accept (position : Nat)
  | cleanup (position : Nat)
deriving DecidableEq, Repr

/-- The pass, which besides logs that it is touched at its position. -/
def Pass.traced {ω : Type} (pass : Pass ω) (position : Nat) : Pass (ω × List Touch) where
  name := pass.name
  accept := fun g (w, log) => (pass.accept g w).map fun (g, w, outcome) =>
    (g, (w, log ++ [.accept position]), outcome)
  cleanup := fun (w, log) => (pass.cleanup w, log ++ [.cleanup position])

namespace Pipeline

variable {ω : Type} {g : Graph} {w : ω} {s s' : Graph × ω} {before after passes : Pipeline ω}
  {reports : List Report}

/-! ## Accepting passes -/

/-- All passes of a list are accepted one after the other, each by the graph and the world that the one
before leaves behind, and none fails. -/
inductive Accepts : Graph × ω → Pipeline ω → List Report → Graph × ω → Prop where
  | nil (s : Graph × ω) : Accepts s [] [] s
  | cons {s s' : Graph × ω} {g : Graph} {w : ω} {pass : Pass ω} {passes : Pipeline ω}
      {report : Report} {reports : List Report}
      (first : pass.accept s.1 s.2 = .ok (g, w, .ok report))
      (rest : Accepts (g, w) passes reports s') : Accepts s (pass :: passes) (report :: reports) s'

/-- How passes fare when they are accepted in order: how many of them are accepted, and what this comes
to. -/
inductive Fares (passes : Pipeline ω) (s : Graph × ω) :
    Nat → Except Fault (Graph × ω × Except Error (List Report)) → Prop where
  /-- All are accepted, and none fails. -/
  | completes {reports : List Report} {s' : Graph × ω} (accepted : Accepts s passes reports s') :
    Fares passes s passes.length (.ok (s'.1, s'.2, .ok reports))
  /-- One fails, and those behind it are not accepted. -/
  | fails {before after : Pipeline ω} {failing : Pass ω} {reports : List Report} {s' : Graph × ω}
      {g : Graph} {w : ω} {e : Error} (split : passes = before ++ failing :: after)
      (accepted : Accepts s before reports s')
      (failure : failing.accept s'.1 s'.2 = .ok (g, w, .error e)) :
    Fares passes s (before.length + 1) (.ok (g, w, .error e))
  /-- One refers to a node that is not there, which ends everything. -/
  | faults {before after : Pipeline ω} {faulty : Pass ω} {reports : List Report} {s' : Graph × ω}
      {f : Fault} (split : passes = before ++ faulty :: after)
      (accepted : Accepts s before reports s') (fault : faulty.accept s'.1 s'.2 = .error f) :
    Fares passes s (before.length + 1) (.error f)

/-- **What was accepted can be left aside:** its reports come before those of the rest.

**Proof sketch.** By induction on what was accepted. One more pass in front puts its report before the others,
if these succeed, and otherwise adds nothing to the failure. -/
theorem acceptAll_append (h : Accepts s before reports s') (after : Pipeline ω) :
    acceptAll s.1 s.2 (before ++ after) =
      (acceptAll s'.1 s'.2 after).map fun (g, w, outcome) =>
        (g, w, outcome.map fun more => reports ++ more) := by
  induction h with
  | nil s =>
    have hid : (fun outcome : Except Error (List Report) => outcome.map fun more => [] ++ more) = id := by
      funext outcome
      cases outcome <;> rfl
    cases hrest : acceptAll s.1 s.2 after with
    | error f => simp [hrest, Except.map]
    | ok result =>
      obtain ⟨g, w, outcome⟩ := result
      simp only [List.nil_append, hrest, Except.map]
      exact congrArg (fun f => Except.ok (g, w, f outcome)) hid.symm
  | @cons s s' g w pass passes report reports first _ ih =>
    simp only [List.cons_append, acceptAll, first, bind, Except.bind, ih]
    cases acceptAll s'.1 s'.2 after with
    | error f => rfl
    | ok result =>
      obtain ⟨g, w, outcome⟩ := result
      cases outcome <;> rfl

/-- Accepting passes comes to how they fare. -/
theorem Fares.acceptAll_eq {n : Nat} {result : Except Fault (Graph × ω × Except Error (List Report))}
    (h : Fares passes s n result) : acceptAll s.1 s.2 passes = result := by
  cases h with
  | completes accepted =>
    have happend := acceptAll_append accepted []
    rw [List.append_nil] at happend
    rw [happend]
    simp [acceptAll, Except.map]
  | fails split accepted failure =>
    rw [split, acceptAll_append accepted]
    simp [acceptAll, failure, bind, Except.bind, pure, Except.pure, Except.map]
  | faults split accepted fault =>
    rw [split, acceptAll_append accepted]
    simp [acceptAll, fault, bind, Except.bind, Except.map]

/-- **Accepting passes ends in one of three ways.** -/
theorem exists_fares (passes : Pipeline ω) (s : Graph × ω) : ∃ n result, Fares passes s n result := by
  induction passes generalizing s with
  | nil => exact ⟨_, _, .completes (.nil s)⟩
  | cons pass rest ih =>
    have hsplit : pass :: rest = [] ++ pass :: rest := rfl
    cases haccept : pass.accept s.1 s.2 with
    | error f => exact ⟨_, _, .faults hsplit (.nil s) haccept⟩
    | ok result =>
      obtain ⟨g, w, outcome⟩ := result
      cases outcome with
      | error e => exact ⟨_, _, .fails hsplit (.nil s) haccept⟩
      | ok report =>
        -- the first pass is one more that is accepted, however the others fare
        obtain ⟨n, result, hrest⟩ := ih (g, w)
        cases hrest with
        | completes accepted => exact ⟨_, _, .completes (.cons haccept accepted)⟩
        | fails split accepted failure =>
          exact ⟨_, _, .fails (congrArg (pass :: ·) split) (.cons haccept accepted) failure⟩
        | faults split accepted fault =>
          exact ⟨_, _, .faults (congrArg (pass :: ·) split) (.cons haccept accepted) fault⟩

/-! ## The log -/

/-- The same passes, which besides log that they are touched. The first one stands at position
`start`. -/
def traced (start : Nat) : Pipeline ω → Pipeline (ω × List Touch)
  | [] => []
  | pass :: rest => pass.traced start :: traced (start + 1) rest

/-- Tracing adds no passes. -/
@[simp] theorem length_traced (start : Nat) (passes : Pipeline ω) :
    (traced start passes).length = passes.length := by
  induction passes generalizing start with
  | nil => rfl
  | cons pass rest ih => rw [traced, List.length_cons, List.length_cons, ih]

/-- Tracing numbers the passes of a longer pipeline on and on. -/
theorem traced_append (start : Nat) (before after : Pipeline ω) :
    traced start (before ++ after) = traced start before ++ traced (start + before.length) after := by
  induction before generalizing start with
  | nil => rfl
  | cons pass rest ih =>
    rw [List.cons_append, traced, traced, ih, List.cons_append, List.length_cons,
      Nat.add_right_comm start 1, Nat.add_assoc]

/-- Some positions in a row, from `start` on, are accepted. -/
def acceptances (start n : Nat) : List Touch := (List.range' start n).map .accept

/-- Some positions in a row, from `start` on, are cleaned up. -/
def cleanups (start n : Nat) : List Touch := (List.range' start n).map .cleanup

/-- **Accepting passes** logs that each of them is accepted. -/
theorem Accepts.traced (h : Accepts s passes reports s') (start : Nat) (log : List Touch) :
    Accepts (s.1, (s.2, log)) (traced start passes) reports
      (s'.1, (s'.2, log ++ acceptances start passes.length)) := by
  induction h generalizing start log with
  | nil s =>
    rw [show acceptances start ([] : Pipeline ω).length = [] from rfl, List.append_nil]
    exact .nil _
  | cons first _ ih =>
    have hrest := ih (start + 1) (log ++ [.accept start])
    rw [List.append_assoc] at hrest
    exact .cons (by simp [Pass.traced, first, Except.map]) hrest

/-- **How passes fare** does not depend on the log, which is continued by those that are accepted.

**Proof sketch.** By cases on how the passes fare. Each of the cases splits the passes where they come to an
end. The traced passes are split at the same place, and those before it have logged that they were accepted.
-/
theorem Fares.traced {n : Nat} {result : Except Fault (Graph × ω × Except Error (List Report))}
    (h : Fares passes s n result) (start : Nat) (log : List Touch) :
    Fares (traced start passes) (s.1, (s.2, log)) n
      (result.map fun (g, w, outcome) => (g, (w, log ++ acceptances start n), outcome)) := by
  have hlast : ∀ n, acceptances start n ++ [.accept (start + n)] = acceptances start (n + 1) := by
    intro n
    simp [acceptances, List.range'_concat]
  cases h with
  | completes accepted =>
    have hcompletes := Fares.completes (accepted.traced start log)
    rwa [length_traced] at hcompletes
  | @fails before after failing reports s' g w e split accepted failure =>
    have hsplit := split ▸ traced_append start before (failing :: after)
    have hfailure : (failing.traced (start + before.length)).accept s'.1
        (s'.2, log ++ acceptances start before.length) =
          .ok (g, (w, log ++ acceptances start (before.length + 1)), .error e) := by
      simp only [Pass.traced, failure, Except.map, List.append_assoc, hlast]
    have hfails := Fares.fails hsplit (accepted.traced start log) hfailure
    rwa [length_traced] at hfails
  | @faults before after faulty reports s' f split accepted fault =>
    have hsplit := split ▸ traced_append start before (faulty :: after)
    have hfault : (faulty.traced (start + before.length)).accept s'.1
        (s'.2, log ++ acceptances start before.length) = .error f := by
      simp only [Pass.traced, fault, Except.map]
    have hfaults := Fares.faults hsplit (accepted.traced start log) hfault
    rwa [length_traced] at hfaults

/-- **Cleaning up** logs that each pass is cleaned up. -/
theorem cleanupAll_traced (start : Nat) (passes : Pipeline ω) (w : ω) (log : List Touch) :
    cleanupAll (traced start passes) (w, log) =
      (cleanupAll passes w, log ++ cleanups start passes.length) := by
  induction passes generalizing start w log with
  | nil => simp [traced, cleanupAll, cleanups]
  | cons pass rest ih =>
    have hrest := ih (start + 1) (pass.cleanup w) (log ++ [.cleanup start])
    rw [List.append_assoc] at hrest
    exact hrest

/-- A run is how its passes fare, and all of them are cleaned up. -/
theorem Fares.run_eq {n : Nat} {result : Except Fault (Graph × ω × Except Error (List Report))}
    (h : Fares passes s n result) :
    run passes s.1 s.2 = result.map fun (g, w, outcome) => (g, cleanupAll passes w, outcome) := by
  rw [run, h.acceptAll_eq]
  cases result <;> rfl

/-! ## Names -/

/-- Runs the registered passes with some names. If one of the names is not registered, nothing runs. -/
def runNamed (names : List String) (g : Graph) (w : ω) :
    Except Fault (Graph × ω × Except Error (List Report)) :=
  match ofNames names with
  | .error e => .ok (g, w, .error e)
  | .ok passes => run passes g w

/-- Names that are registered stand for passes, in the same order. -/
theorem exists_ofNames {names : List String} (h : ∀ name ∈ names, name ∈ Pass.registeredNames) :
    ∃ passes : Pipeline ω, ofNames names = .ok passes ∧
      List.Forall₂ (fun name pass => Pass.ofName name = .ok pass) names passes := by
  induction names with
  | nil => exact ⟨[], rfl, .nil⟩
  | cons name rest ih =>
    obtain ⟨hname, hrest⟩ := List.forall_mem_cons.mp h
    obtain ⟨passes, hpasses, hall⟩ := ih hrest
    have hpass : Pass.ofName (ω := ω) name = .ok .resolver := by
      rw [Pass.ofName_eq, if_pos hname]
    refine ⟨.resolver :: passes, ?_, .cons hpass hall⟩
    rw [ofNames] at hpasses ⊢
    simp [List.mapM_cons, hpass, hpasses, bind, Except.bind, pure, Except.pure]

/-- Names up to one that is not registered stand for no passes. -/
theorem ofNames_of_unregistered {before : List String} {name : String}
    (h : ∀ other ∈ before, other ∈ Pass.registeredNames) (hname : name ∉ Pass.registeredNames)
    (after : List String) :
    ofNames (ω := ω) (before ++ name :: after) = .error (.unknownPass name) := by
  obtain ⟨passes, hpasses, -⟩ := exists_ofNames (ω := ω) h
  have hpass : Pass.ofName (ω := ω) name = .error (.unknownPass name) := by
    rw [Pass.ofName_eq, if_neg hname]
  rw [ofNames] at hpasses ⊢
  simp [List.mapM_append, List.mapM_cons, hpasses, hpass, bind, Except.bind]

/-- **Passes run in order and are always cleaned up.** Whatever a list of passes is run on, they are
accepted in order up to the first one that fails, or all of them if none does. Then each of them is
cleaned up, once and in order, also if it was not accepted; and what is answered is the error of the
pass that failed, or the reports of all of them. Names stand for the passes they are registered for, in
the same order; if some are not registered, the first one of these is the error, and neither the graph
nor anything else changes.

**Proof sketch.** Induction on the passes gives how far a run gets and what it leaves behind (`Fares`). The
traced passes fare alike, with a log of acceptances and cleanups beside; so the log can be read off. Names are
looked up one after the other before anything is run, hence the first one that is missing is the error. -/
theorem runs_in_order :
    (∀ (passes : Pipeline ω) (g : Graph) (w : ω), ∃ n result, Fares passes (g, w) n result ∧
      run passes g w = (result.map fun (g', w', outcome) => (g', cleanupAll passes w', outcome)) ∧
      run (traced 0 passes) g (w, []) = result.map fun (g', w', outcome) =>
        (g', (cleanupAll passes w', acceptances 0 n ++ cleanups 0 passes.length), outcome)) ∧
    ∀ names : List String,
      match names.find? fun name => name ∉ Pass.registeredNames with
      | none => ∃ passes : Pipeline ω, ofNames names = .ok passes ∧
          List.Forall₂ (fun name pass => Pass.ofName name = .ok pass) names passes ∧
          ∀ g w, runNamed names g w = run passes g w
      | some name => ofNames (ω := ω) names = .error (.unknownPass name) ∧
          ∀ g (w : ω), runNamed names g w = .ok (g, w, .error (.unknownPass name)) := by
  refine ⟨fun passes g w => ?_, fun names => ?_⟩
  · obtain ⟨n, result, hfares⟩ := exists_fares passes (g, w)
    refine ⟨n, result, hfares, hfares.run_eq, ?_⟩
    rw [(hfares.traced 0 []).run_eq]
    cases result with
    | error f => rfl
    | ok result => simp [Except.map, cleanupAll_traced]
  · cases hfind : names.find? fun name => name ∉ Pass.registeredNames with
    | none =>
      have hall : ∀ name ∈ names, name ∈ Pass.registeredNames := by
        simpa using hfind
      obtain ⟨passes, hpasses, hnames⟩ := exists_ofNames (ω := ω) hall
      exact ⟨passes, hpasses, hnames, fun g w => by rw [runNamed, hpasses]⟩
    | some name =>
      obtain ⟨hname, before, after, rfl, hbefore⟩ := List.find?_eq_some_iff_append.mp hfind
      have hnames : ofNames (ω := ω) (before ++ name :: after) = .error (.unknownPass name) :=
        ofNames_of_unregistered (by simpa using hbefore) (by simpa using hname) after
      exact ⟨hnames, fun g w => by rw [runNamed, hnames]⟩

end Pipeline

end ProgramGraph

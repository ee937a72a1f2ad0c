import Decaf.Proofs.Check.Agreement

/-!
# Functions are analyzed one by one

The analysis goes through the functions of a program with one state, and the scopes of all
of them are numbered in one row. Nothing of this shows: what it finds in a function and the
types it writes there are what an analysis comes to that walks this function and no other
(`Function.outcome`). They depend on what the names of the program stand for, and on nothing
else outside of the function. So a new body of one function leaves the outcomes of the others
as they are, and if no name is declared twice, functions may change places and take their
outcomes along (`checkProgram_modular`).
-/

namespace Decaf

/-! ## Outcomes -/

/-- What comes of the walk of one function: the function with its types, and what was
found. -/
structure FunctionOutcome where
  function : Function
  found : List Diagnostic

/-- An outcome without the numbers of the scopes. -/
def FunctionOutcome.unscoped (o : FunctionOutcome) : FunctionOutcome :=
  { o with function := o.function.relabel .unscoped }

/-- What an analysis comes to that walks this function and nothing else. -/
def Function.outcome (tables : Tables) (f : Function) : FunctionOutcome :=
  let walked := (Analysis.visitor tables).function f .start
  ⟨walked.1, walked.2.errors.toList⟩

namespace Program

/-- The outcomes of the functions of a program, each walked alone in the tables of the
program. -/
def outcomes (p : Program) : List FunctionOutcome :=
  p.withScopes.1.functions.map (·.outcome p.withScopes.2)

/-- What is found in a program if these are the outcomes of its functions: first the
duplicates among the names of the program, then what is wrong with its variables, then what
was found in the functions, in order, and last what is wrong with `main`. -/
def reportWith (p : Program) (outcomes : List FunctionOutcome) : List Diagnostic :=
  scopeMistakes p.withScopes.2 p.withScopes.1.scope ++ (p.globals.flatMap Rules.varDecl ++
    (outcomes.flatMap (·.found) ++
      Rules.entryPoint (p.withScopes.1.scope.bind (p.withScopes.2.lookup · "main")) p.place))

/-- Puts other functions in the place of those of a program. -/
def withFunctions (p : Program) (fs : List Function) : Program :=
  { p with functions := fs }

end Program

/-! ## The analysis has these outcomes -/

section Alone

variable {tables : Tables}

/-- Walked alone, a function comes to its types and mistakes in an empty context: what it needs is
in its own scope. -/
theorem Function.outcome_eq (f : Function) :
    f.outcome tables = ⟨f.typed tables ⟨none, none⟩, f.mistakes tables ⟨none, none⟩⟩ := by
  rw [Function.outcome, Analysis.visitor_function]
  refine congrArg (FunctionOutcome.mk _) ?_
  exact (ErrorList.toList_reportAll _ _).trans (List.nil_append _)

/-- A function with a scope of its own does not ask where it stands. -/
theorem Function.outcome_of_scope {f : Function} {id : ScopeId} (h : f.scope = some id)
    (c : Context) : f.outcome tables = ⟨f.typed tables c, f.mistakes tables c⟩ := by
  have hc : f.context ⟨none, none⟩ = f.context c := by
    rw [Function.context, Function.context, h]
    rfl
  rw [Function.outcome_eq, Function.typed, Function.typed, Function.mistakes, Function.mistakes, hc]

/-- Every function has been given a scope. -/
theorem functionsWithScopes_scope (fs : List Function) (parent : ScopeId) (t : Tables) :
    ∀ f ∈ (functionsWithScopes parent fs t).1, ∃ id, f.scope = some id := by
  induction fs generalizing t with
  | nil =>
    intro f hf
    cases hf
  | cons g fs ih =>
    intro f hf
    rcases List.mem_cons.mp hf with rfl | hf
    · exact ⟨_, rfl⟩
    · exact ih _ f hf

end Alone

namespace Program

/-- The context that a function is walked in does not matter, since the function puts its own
scope and result type in front. -/
theorem outcomes_eq (p : Program) (c : Context) :
    p.outcomes = p.withScopes.1.functions.map
      fun f => ⟨f.typed p.withScopes.2 c, f.mistakes p.withScopes.2 c⟩ := by
  refine List.map_congr_left fun f hf => ?_
  obtain ⟨id, hid⟩ := functionsWithScopes_scope _ _ _ f hf
  exact Function.outcome_of_scope hid c

/-- What the check finds, and the types it writes, are those of the separate walks. -/
theorem checkProgram_outcomes (p : Program) :
    (checkProgram p).errors.toList = p.reportWith p.outcomes ∧
      (checkProgram p).program.functions = p.outcomes.map (·.function) := by
  rw [checkProgram, analyze_eq, ErrorList.toList_reportAll, ErrorList.toList_empty,
    List.nil_append, p.outcomes_eq ⟨p.withScopes.1.scope, none⟩]
  constructor
  · rw [reportWith, List.flatMap_map]
    rfl
  · rw [List.map_map]
    rfl

/-! ## What the outcomes depend on -/

/-- The outermost scope of a program, in the tables as they are before its functions are gone
through. -/
def opened (p : Program) : ScopeId × Tables :=
  Tables.empty.openScope none p.place.line p.declarations

theorem opened_holds (p : Program) :
    p.opened.2.Holds p.opened.1 none p.place.line p.declarations :=
  Tables.empty.openScope_holds none p.place.line p.declarations fun outer houter => by cases houter

/-- The scope of the program is still the one that was opened, after all functions have been gone
through. -/
theorem withScopes_holds (p : Program) :
    p.withScopes.2.Holds p.opened.1 none p.place.line p.declarations :=
  p.opened_holds.extends (functionsWithScopes_extends p.functions p.opened.1 p.opened.2)

/-- In the scope of the program a name stands for what the frame of the program says. -/
theorem withScopes_sees (p : Program) : p.withScopes.2.Sees p.opened.1 [p.frame] := by
  have hsees := p.withScopes_holds.sees_outermost
  rwa [p.declarations_binding] at hsees

/-- Apart from the functions, the report depends on the names of a program, on its variables
and on its place. -/
theorem reportWith_eq (p : Program) (outcomes : List FunctionOutcome) :
    p.reportWith outcomes = Reference.duplicates p.place.line p.frame ++
      (p.globals.flatMap Rules.varDecl ++
        (outcomes.flatMap (·.found) ++ Reference.entryPoint p)) := by
  have hduplicates : scopeMistakes p.withScopes.2 p.withScopes.1.scope =
      Reference.duplicates p.place.line p.frame := by
    rw [← p.declarations_binding]
    exact p.withScopes_holds.scopeMistakes_eq
  rw [reportWith, hduplicates, ← Rules.entryPoint_eq (p.withScopes_sees "main")]
  rfl

end Program

/-- What comes of a function, where the names around it stand for what the frames say. -/
def Reference.outcome (frames : Frames) (f : Function) : FunctionOutcome :=
  ⟨annotateFunction frames f, function frames f⟩

namespace Program

/-- Without types there beforehand, the outcome of a function depends on what the names of
the program stand for. -/
theorem outcomes_unscoped {p : Program} (h : p.relabel .untyped = p) {frames : Frames}
    (hframes : ∀ x, meaningOf [p.frame] x = meaningOf frames x) :
    p.outcomes.map (·.unscoped) = p.functions.map (Reference.outcome frames) := by
  have hplain : p.functions.map (·.relabel .untyped) = p.functions := congrArg Program.functions h
  have hsees : p.withScopes.2.Sees p.opened.1 frames :=
    fun x => (p.withScopes_sees x).trans (hframes x)
  have hext : (functionsWithScopes p.opened.1 (p.functions.map (·.relabel .untyped))
      p.opened.2).2.Extends p.withScopes.2 := by
    rw [hplain]
    exact Tables.Extends.refl _
  obtain ⟨htypes, hfounds⟩ := functions_agree p.functions p.opened.1 p.opened.2 p.withScopes.2
    ⟨none, none⟩ frames p.opened_holds.lt_size hext hsees
  rw [hplain] at htypes hfounds
  -- types and findings agree list by list; an outcome is a member of both
  have hpair : ∀ {α : Type} (as : List α) (function : α → Function) (found : α → List Diagnostic),
      as.map (fun a => FunctionOutcome.mk (function a) (found a)) =
        List.zipWith FunctionOutcome.mk (as.map function) (as.map found) := by
    intro α as function found
    rw [List.zipWith_map, List.zipWith_self]
  have hreference : p.functions.map (Reference.outcome frames) =
      List.zipWith FunctionOutcome.mk (p.functions.map (Reference.annotateFunction frames))
        (p.functions.map (Reference.function frames)) := hpair _ _ _
  rw [p.outcomes_eq ⟨none, none⟩, List.map_map, hreference, ← htypes, ← hfounds, List.map_map,
    ← hpair]
  rfl

end Program

/-! ## Another body, another order -/

/-- What a name stands for in a frame that declares none twice does not depend on the order of
the frame. -/
theorem meaningIn_perm {frame frame' : Frame} (hperm : frame.Perm frame')
    (hnodup : (frame.map (·.name)).Nodup) (x : String) :
    meaningIn frame x = meaningIn frame' x := by
  induction hperm with
  | nil => rfl
  | cons b hperm ih =>
    rw [List.map_cons, List.nodup_cons] at hnodup
    rw [meaningIn, meaningIn, List.find?_cons, List.find?_cons]
    cases b.name == x with
    | true => rfl
    | false => exact ih hnodup.2
  | swap b b' rest =>
    rw [List.map_cons, List.map_cons, List.nodup_cons, List.mem_cons] at hnodup
    rw [meaningIn, meaningIn, List.find?_cons, List.find?_cons, List.find?_cons, List.find?_cons]
    cases hb : b.name == x with
    | false => cases b'.name == x <;> rfl
    | true =>
      cases hb' : b'.name == x with
      | false => rfl
      | true => exact absurd (.inl ((eq_of_beq hb').trans (eq_of_beq hb).symm)) hnodup.1
  | trans hfirst _ ihfirst ihsecond =>
    rw [ihfirst hnodup]
    exact ihsecond ((hfirst.map (·.name)).nodup_iff.mp hnodup)

namespace Program

variable {p : Program} {fs : List Function}

theorem untyped_of_mem (h : p.relabel .untyped = p) {f : Function} (hf : f ∈ p.functions) :
    f.relabel .untyped = f := by
  have hplain : p.functions.map (·.relabel .untyped) = p.functions.map id :=
    (congrArg Program.functions h).trans (List.map_id _).symm
  exact List.map_inj_left.mp hplain f hf

/-- A program without types keeps none if its functions are exchanged for others without types. -/
theorem withFunctions_untyped (h : p.relabel .untyped = p)
    (hfs : ∀ f ∈ fs, f.relabel .untyped = f) :
    (p.withFunctions fs).relabel .untyped = p.withFunctions fs := by
  have hplain : fs.map (·.relabel .untyped) = fs := by
    rw [List.map_congr_left hfs, List.map_id']
  have hsame : (p.withFunctions fs).relabel .untyped = (p.relabel .untyped).withFunctions
      (fs.map (·.relabel .untyped)) := rfl
  rw [hsame, h, hplain]

/-- If the names of a program stand for the same with other functions in it, and no other
ones are duplicates, then nothing but the outcomes of the functions is different. -/
theorem reportWith_withFunctions (os : List FunctionOutcome)
    (hduplicates : Reference.duplicates p.place.line (p.withFunctions fs).frame =
      Reference.duplicates p.place.line p.frame)
    (hmeaning : ∀ x, meaningOf [(p.withFunctions fs).frame] x = meaningOf [p.frame] x) :
    (p.withFunctions fs).reportWith os = p.reportWith os := by
  have hentry : Reference.entryPoint (p.withFunctions fs) = Reference.entryPoint p := by
    rw [Reference.entryPoint, Reference.entryPoint, hmeaning]
    rfl
  rw [reportWith_eq, reportWith_eq, hentry, ← hduplicates]
  rfl

/-- Functions may be exchanged as long as the names of the program stand for the same: what is
reported around them stays, and every function has the outcome it would have in the old program. -/
theorem checkProgram_withFunctions (h : p.relabel .untyped = p)
    (hfs : ∀ f ∈ fs, f.relabel .untyped = f)
    (hduplicates : Reference.duplicates p.place.line (p.withFunctions fs).frame =
      Reference.duplicates p.place.line p.frame)
    (hmeaning : ∀ x, meaningOf [(p.withFunctions fs).frame] x = meaningOf [p.frame] x) :
    (checkProgram (p.withFunctions fs)).errors.toList =
        p.reportWith (p.withFunctions fs).outcomes ∧
      (checkProgram (p.withFunctions fs)).program.functions =
        (p.withFunctions fs).outcomes.map (·.function) ∧
      (p.withFunctions fs).outcomes.map (·.unscoped) =
        fs.map (Reference.outcome [p.frame]) := by
  obtain ⟨herrors, htypes⟩ := (p.withFunctions fs).checkProgram_outcomes
  refine ⟨herrors.trans (reportWith_withFunctions _ hduplicates hmeaning), htypes, ?_⟩
  exact outcomes_unscoped (withFunctions_untyped h hfs) hmeaning

/-- A new body does not show in what is declared. -/
theorem frame_set_body {i : Nat} {f : Function} (hf : p.functions[i]? = some f) (body : Block) :
    (p.withFunctions (p.functions.set i { f with body := body })).frame = p.frame := by
  obtain ⟨hi, hget⟩ := List.getElem?_eq_some_iff.mp hf
  -- what a function declares does not depend on its body
  have hbindings : (p.functions.set i { f with body := body }).map (·.binding) =
      p.functions.map (·.binding) := by
    rw [List.map_set]
    have hself : (p.functions.map (·.binding)).set i f.binding = p.functions.map (·.binding) := by
      rw [← hget, ← List.getElem_map Function.binding (h := by rwa [List.length_map])]
      exact List.set_getElem_self _
    exact hself
  exact congrArg (builtinFrame ++ p.globals.map (·.binding) ++ ·) hbindings

/-- Changing the order of functions changes the order of their bindings, and nothing else. -/
theorem frame_perm (hperm : fs.Perm p.functions) : (p.withFunctions fs).frame.Perm p.frame :=
  (hperm.map (·.binding)).append_left _

/-- If the declarations have different names, so have the bindings. -/
theorem nodup_frame (h : (p.declarations.map (·.symbol.name)).Nodup) :
    (p.frame.map (·.name)).Nodup := by
  rw [← p.declarations_binding, List.map_map]
  exact h

/-- Where all names differ there is nothing to complain about. -/
theorem duplicates_eq_nil {line : Nat} {frame : Frame} (h : (frame.map (·.name)).Nodup) :
    Reference.duplicates line frame = [] := by
  have hnone : repeated (·.name) [] frame = [] :=
    (repeated_eq_nil_iff _ _ _).mpr ⟨h, fun _ _ hmem => by cases hmem⟩
  rw [Reference.duplicates, hnone]
  rfl

end Program

/-- The check of a program without types is modular. What it finds is the duplicates among
the names of the program, then what is wrong with its variables, then for each function what
an analysis finds that walks this function alone, then what is wrong with `main`; and the
types are those of the separate walks. Another body of one function changes no outcome but
that of this function. If no name is declared twice, functions in another order have the same
outcomes, and nothing else changes. -/
theorem checkProgram_modular (p : Program) (h : p.relabel .untyped = p) :
    ((checkProgram p).errors.toList = p.reportWith p.outcomes ∧
      (checkProgram p).program.functions = p.outcomes.map (·.function)) ∧
    (∀ (i : Nat) (f : Function) (body : Block), p.functions[i]? = some f →
      body.relabel .untyped = body →
      ∃ changed : FunctionOutcome,
        let q := p.withFunctions (p.functions.set i { f with body := body })
        (checkProgram q).errors.toList = p.reportWith q.outcomes ∧
        (checkProgram q).program.functions = q.outcomes.map (·.function) ∧
        q.outcomes.map (·.unscoped) = (p.outcomes.map (·.unscoped)).set i changed) ∧
    ((p.declarations.map (·.symbol.name)).Nodup →
      ∃ outcome : Function → FunctionOutcome, ∀ fs : List Function, fs.Perm p.functions →
        let q := p.withFunctions fs
        (checkProgram q).errors.toList = p.reportWith q.outcomes ∧
        (checkProgram q).program.functions = q.outcomes.map (·.function) ∧
        q.outcomes.map (·.unscoped) = fs.map outcome) := by
  refine ⟨p.checkProgram_outcomes, fun i f body hf hbody => ?_, fun hnames => ?_⟩
  · have hframe := Program.frame_set_body hf body
    have hfs : ∀ g ∈ p.functions.set i { f with body := body }, g.relabel .untyped = g := by
      intro g hg
      rcases List.mem_or_eq_of_mem_set hg with hg | rfl
      · exact Program.untyped_of_mem h hg
      · have hplain := Program.untyped_of_mem h (List.mem_of_getElem? hf)
        rw [Function.relabel, hbody]
        exact congrArg (fun g : Function => { g with body := body }) hplain
    obtain ⟨herrors, htypes, houtcomes⟩ := Program.checkProgram_withFunctions h hfs
      (by rw [hframe]) fun x => by rw [hframe]
    refine ⟨Reference.outcome [p.frame] { f with body := body }, herrors, htypes, ?_⟩
    rw [houtcomes, Program.outcomes_unscoped h fun _ => rfl, List.map_set]
  · have hnodup := Program.nodup_frame hnames
    refine ⟨Reference.outcome [p.frame], fun fs hperm => ?_⟩
    have hframe := Program.frame_perm hperm
    have hnodup' : ((p.withFunctions fs).frame.map (·.name)).Nodup :=
      (hframe.map (·.name)).nodup_iff.mpr hnodup
    refine Program.checkProgram_withFunctions h
      (fun g hg => Program.untyped_of_mem h (hperm.mem_iff.mp hg)) ?_ fun x => ?_
    · rw [Program.duplicates_eq_nil hnodup', Program.duplicates_eq_nil hnodup]
    · rw [meaningOf_cons, meaningOf_cons, meaningIn_perm hframe hnodup']

/-- Two functions, each with mistakes of its own. The parameter of the first has the name of
the variable that the second assigns to, and the loop of the first is not around the `break`
of the second. -/
def pairProgram : Program :=
  ⟨[⟨"x", .int, none, ⟨⟨0, 1⟩, 1⟩⟩],
    [⟨"f", .bool, [⟨"x", .bool, ⟨⟨2, 3⟩, 2⟩⟩],
      ⟨[], [.loop ⟨⟨4, 8⟩, 3⟩ (.location ⟨⟨5, 6⟩, 3⟩ none "x" none)
          ⟨[], [.ret ⟨⟨6, 7⟩, 4⟩ (some (.literal ⟨⟨6, 7⟩, 4⟩ none (.int 1)))],
            ⟨⟨6, 8⟩, 3⟩, none⟩],
        ⟨⟨3, 9⟩, 2⟩, none⟩, ⟨⟨2, 9⟩, 2⟩, none⟩,
    ⟨"main", .int, [],
      ⟨[], [.assign ⟨⟨11, 14⟩, 7⟩ (.location ⟨⟨11, 12⟩, 7⟩ none "x" none)
          (.literal ⟨⟨13, 14⟩, 7⟩ none (.bool true)),
          .break ⟨⟨15, 16⟩, 8⟩],
        ⟨⟨10, 17⟩, 6⟩, none⟩, ⟨⟨9, 17⟩, 6⟩, none⟩],
    ⟨⟨0, 17⟩, 1⟩, none⟩

/-- With its two functions exchanged the program gets the same three complaints, those of each
function together. -/
theorem checkProgram_modular_pairProgram :
    pairProgram.relabel .untyped = pairProgram ∧
    (pairProgram.declarations.map (·.symbol.name)).Nodup ∧
    (checkProgram pairProgram).errors.toList.map (·.line) = [4, 7, 8] ∧
    let swapped := pairProgram.withFunctions pairProgram.functions.reverse
    (checkProgram swapped).errors.toList.map (·.line) = [7, 8, 4] ∧
    (checkProgram swapped).errors.toList = pairProgram.reportWith swapped.outcomes ∧
    ∃ outcome : Function → FunctionOutcome,
      swapped.outcomes.map (·.unscoped) = pairProgram.functions.reverse.map outcome := by
  have hnames : (pairProgram.declarations.map (·.symbol.name)).Nodup := by decide
  obtain ⟨-, -, hperm⟩ := checkProgram_modular pairProgram rfl
  obtain ⟨outcome, hperm⟩ := hperm hnames
  obtain ⟨herrors, -, houtcomes⟩ := hperm pairProgram.functions.reverse (List.reverse_perm _)
  refine ⟨rfl, hnames, ?_, ?_, herrors, outcome, houtcomes⟩
  · rw [← show pairProgram.relabel .untyped = pairProgram from rfl,
      (checkProgram_untyped pairProgram).2]
    decide +kernel
  · have hplain : (pairProgram.withFunctions pairProgram.functions.reverse).relabel .untyped =
        pairProgram.withFunctions pairProgram.functions.reverse := rfl
    rw [← hplain, (checkProgram_untyped _).2]
    decide +kernel

end Decaf

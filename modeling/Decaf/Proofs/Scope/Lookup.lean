import Decaf.Scope.Build
import Decaf.Proofs.Scope.Frames
import Decaf.Proofs.Syntax.Tree

/-!
# Looking names up in the tables of a program

The tables that are built for a program say the same about names as its frames do.

A scope that was filled with declarations one after the other answers for a name with
the first declaration of it, and has the others as its duplicates (`Scope.Holds`).
Tables only ever grow at the end (`Tables.Extends`), and a scope is filled as soon as it
is opened, so that what was opened once stays as it is while the rest of the program is
gone through (`Tables.Holds`). Its parent was there before it, which is what makes the chain
of a scope go on with the chain of its parent (`lookup_eq`). So if a scope sees a list
of frames (`Tables.Sees`), a scope opened inside it sees one frame more.
-/

namespace Decaf

/-! ## Declarations as bindings -/

/-- What a symbol stands for, apart from its name. -/
def Symbol.meaning (s : Symbol) : Meaning :=
  match s.kind with
  | .scalar => .scalar s.type
  | .array _ => .array s.type
  | .function params => .function params s.type

/-- A declaration as a binding. -/
def Declaration.binding (d : Declaration) : Binding :=
  ⟨d.symbol.name, d.symbol.meaning, d.symbol.line, d.span⟩

/-- A variable is declared with the meaning that it has in frames. -/
theorem VarDecl.declaration_binding (d : VarDecl) : d.declaration.binding = d.binding := by
  obtain ⟨name, type, length, place⟩ := d
  cases length <;> rfl

/-- Read as bindings, the names that a program declares are its frame. -/
theorem Program.declarations_binding (p : Program) :
    p.declarations.map (·.binding) = p.frame := by
  have hvars : p.globals.map (fun d => d.declaration.binding) = p.globals.map (·.binding) :=
    List.map_congr_left fun d _ => d.declaration_binding
  rw [declarations, frame, List.map_append, List.map_append, List.map_map, List.map_map,
    ← hvars]
  rfl

/-- Read as bindings, the parameters of a function are its frame. -/
theorem Function.declarations_binding (f : Function) :
    f.declarations.map (·.binding) = f.frame := by
  rw [declarations, frame, List.map_map]
  rfl

theorem declarations_binding (ds : List VarDecl) :
    (ds.map (·.declaration)).map (·.binding) = ds.map (·.binding) := by
  rw [List.map_map]
  exact List.map_congr_left fun d _ => d.declaration_binding

/-! ## One scope -/

namespace Scope

/-- A scope that was filled with declarations, in order. -/
structure Holds (s : Scope) (ds : List Declaration) : Prop where
  contains_iff : ∀ x, s.positions.contains x ↔ x ∈ ds.map (·.symbol.name)
  position_lt : ∀ (x : String) (i : Nat), s.positions[x]? = some i → i < s.symbols.size
  find?_eq : ∀ x, s.find? x =
    (ds.find? (·.symbol.name == x)).map fun d => { d.symbol with level := s.level }
  duplicates_eq : s.duplicates.toList =
    (repeated (·.symbol.name) [] ds).map fun d => ⟨d.symbol.name, d.symbol.line, d.span⟩
  symbols_eq : s.symbols.toList =
    (firsts (·.symbol.name) [] ds).map fun d => { d.symbol with level := s.level }

theorem holds_empty (parent : Option ScopeId) (level line : Nat) :
    (empty parent level line).Holds [] where
  contains_iff x := by simp [empty]
  position_lt x i h := by simp [empty] at h
  find?_eq x := by simp [empty, find?]
  duplicates_eq := rfl
  symbols_eq := rfl

variable {s : Scope} {ds : List Declaration}

/-- A name with a position has been declared. -/
theorem Holds.find?_declared (h : s.Holds ds) {x : String} (hx : s.positions.contains x) :
    (ds.find? (·.symbol.name == x)).isSome := by
  obtain ⟨d, hd, heq⟩ := List.mem_map.mp ((h.contains_iff x).mp hx)
  exact List.find?_isSome.mpr ⟨d, hd, beq_iff_eq.mpr heq⟩

/-- A name without a position has not been declared. -/
theorem Holds.find?_fresh (h : s.Holds ds) {x : String} (hx : ¬ s.positions.contains x) :
    ds.find? (·.symbol.name == x) = none := by
  refine List.find?_eq_none.mpr fun d hd heq => hx ?_
  exact (h.contains_iff x).mpr (List.mem_map.mpr ⟨d, hd, beq_iff_eq.mp heq⟩)

/-- A name that is there already becomes a duplicate, and that is all. -/
theorem Holds.define_declared (h : s.Holds ds) (d : Declaration)
    (hd : s.positions.contains d.symbol.name) : (s.define d).Holds (ds ++ [d]) := by
  have hmem : d.symbol.name ∈ ds.map (·.symbol.name) := (h.contains_iff _).mp hd
  rw [define, if_pos hd]
  refine ⟨fun x => ?_, h.position_lt, fun x => ?_, ?_, ?_⟩
  · show s.positions.contains x ↔ _
    rw [h.contains_iff, List.map_append, List.mem_append]
    refine ⟨Or.inl, fun hx => ?_⟩
    rcases hx with hx | hx
    · exact hx
    · rw [List.mem_singleton.mp hx]
      exact hmem
  · show s.find? x = _
    rw [h.find?_eq, List.find?_append]
    by_cases hx : d.symbol.name = x
    · -- an earlier declaration of the name is found first
      obtain ⟨d', hd'⟩ := Option.isSome_iff_exists.mp (h.find?_declared (hx ▸ hd))
      rw [hd', Option.some_or]
    · rw [List.find?_singleton, if_neg (by simpa using hx), Option.or_none]
  · rw [Array.toList_push, h.duplicates_eq, repeated_append, if_pos (Or.inr hmem), List.map_append]
    rfl
  · show s.symbols.toList = _
    rw [h.symbols_eq, firsts_append, if_pos (Or.inr hmem), List.append_nil]

/-- A new name becomes the last symbol. -/
theorem Holds.define_fresh (h : s.Holds ds) (d : Declaration)
    (hd : ¬ s.positions.contains d.symbol.name) : (s.define d).Holds (ds ++ [d]) := by
  have hmem : d.symbol.name ∉ ds.map (·.symbol.name) := fun hx => hd ((h.contains_iff _).mpr hx)
  rw [define, if_neg hd]
  refine ⟨fun x => ?_, fun x i hi => ?_, fun x => ?_, ?_, ?_⟩
  · rw [Std.TreeMap.contains_insert, Bool.or_eq_true, h.contains_iff, List.map_append,
      List.mem_append, List.map_singleton, List.mem_singleton, beq_iff_eq, Std.compare_eq_iff_eq,
      or_comm, eq_comm]
  · rw [Array.size_push]
    rw [Std.TreeMap.getElem?_insert] at hi
    split at hi
    · cases hi
      exact Nat.lt_succ_self _
    · exact Nat.lt_succ_of_lt (h.position_lt x i hi)
  · rw [List.find?_append, find?, Std.TreeMap.getElem?_insert]
    by_cases hx : d.symbol.name = x
    · subst hx
      rw [if_pos Std.ReflCmp.compare_self, Option.bind_some, Array.getElem?_push_size,
        h.find?_fresh hd, Option.none_or, List.find?_singleton, if_pos (beq_self_eq_true _),
        Option.map_some]
    · -- the positions of the other names lie before the new symbol
      have hbefore : (s.positions[x]?.bind
          ((s.symbols.push { d.symbol with level := s.level })[·]?)) = s.find? x := by
        rw [find?]
        cases hp : s.positions[x]? with
        | none => rfl
        | some i =>
          rw [Option.bind_some, Option.bind_some, Array.getElem?_push,
            if_neg (Nat.ne_of_lt (h.position_lt x i hp))]
      rw [if_neg (by simpa using hx), hbefore, h.find?_eq, List.find?_singleton,
        if_neg (by simpa using hx), Option.or_none]
  · show s.duplicates.toList = _
    rw [h.duplicates_eq, repeated_append, if_neg (by simpa using hmem), List.append_nil]
  · rw [Array.toList_push, h.symbols_eq, firsts_append, if_neg (by simpa using hmem),
      List.map_append]
    rfl

/-- One more declaration is a symbol if its name is new, and a duplicate otherwise; both are added
at the end. -/
theorem Holds.define (h : s.Holds ds) (d : Declaration) : (s.define d).Holds (ds ++ [d]) := by
  by_cases hd : s.positions.contains d.symbol.name
  · exact h.define_declared d hd
  · exact h.define_fresh d hd

theorem define_parent (s : Scope) (d : Declaration) : (s.define d).parent = s.parent := by
  rw [Scope.define]
  split <;> rfl

theorem define_level (s : Scope) (d : Declaration) : (s.define d).level = s.level := by
  rw [Scope.define]
  split <;> rfl

theorem define_line (s : Scope) (d : Declaration) : (s.define d).line = s.line := by
  rw [Scope.define]
  split <;> rfl

/-- In a scope filled with declarations a name stands for what it stands for in the
frame of these. -/
theorem Holds.meaning_find? (h : s.Holds ds) (x : String) :
    (s.find? x).map Symbol.meaning = meaningIn (ds.map (·.binding)) x := by
  rw [h.find?_eq, meaningIn, List.find?_map, Option.map_map, Option.map_map]
  rfl

end Scope

/-! ## Tables that grow -/

namespace Tables

/-- Tables with more scopes at the end. -/
def Extends (t t' : Tables) : Prop :=
  ∃ more, t'.scopes = t.scopes ++ more

theorem Extends.refl (t : Tables) : t.Extends t :=
  ⟨#[], by rw [Array.append_empty]⟩

theorem Extends.trans {t t' t'' : Tables} (h : t.Extends t') (h' : t'.Extends t'') :
    t.Extends t'' := by
  obtain ⟨more, hm⟩ := h
  obtain ⟨more', hm'⟩ := h'
  exact ⟨more ++ more', by rw [hm', hm, Array.append_assoc]⟩

theorem Extends.size_le {t t' : Tables} (h : t.Extends t') : t.size ≤ t'.size := by
  obtain ⟨more, hm⟩ := h
  rw [size, size, hm, Array.size_append]
  exact Nat.le_add_right _ _

theorem scope?_lt_size {t : Tables} {id : ScopeId} {s : Scope} (h : t.scope? id = some s) :
    id.index < t.size :=
  (Array.getElem?_eq_some_iff.mp h).1

/-- A scope that is there stays as it is when the tables grow. -/
theorem Extends.scope?_eq {t t' : Tables} (h : t.Extends t') {id : ScopeId}
    (hid : id.index < t.size) : t'.scope? id = t.scope? id := by
  obtain ⟨more, hm⟩ := h
  rw [scope?, scope?, hm, Array.getElem?_append_left hid]

/-- The scope at a position was opened inside `parent` on a line, and filled with
declarations. The parent, if any, was there before. -/
structure Holds (t : Tables) (id : ScopeId) (parent : Option ScopeId) (line : Nat)
    (ds : List Declaration) : Prop where
  before : ∀ outer, parent = some outer → outer.index < id.index
  lt_size : id.index < t.size
  exists_scope : ∃ s, t.scope? id = some s ∧ s.parent = parent ∧ s.line = line ∧ s.Holds ds

/-- A scope that was filled stays filled with the same when the tables grow. -/
theorem Holds.extends {t t' : Tables} {id : ScopeId} {parent : Option ScopeId} {line : Nat}
    {ds : List Declaration} (h : t.Holds id parent line ds) (ht : t.Extends t') :
    t'.Holds id parent line ds := by
  refine ⟨h.before, Nat.lt_of_lt_of_le h.lt_size ht.size_le, ?_⟩
  rw [ht.scope?_eq h.lt_size]
  exact h.exists_scope

theorem modify_last (scopes : Array Scope) (s : Scope) (f : Scope → Scope) :
    (scopes.push s).modify scopes.size f = scopes.push (f s) := by
  apply Array.ext_getElem?
  intro i
  rw [Array.getElem?_modify, Array.getElem?_push, Array.getElem?_push]
  by_cases hi : i = scopes.size
  · subst hi
    simp
  · simp [hi, Ne.symm hi]

/-- Filling the last scope leaves the others as they are. -/
theorem defineAll_last (scopes : Array Scope) (s : Scope) (ds es : List Declaration)
    (hs : s.Holds ds) :
    ∃ filled, (⟨scopes.push s⟩ : Tables).defineAll ⟨scopes.size⟩ es = ⟨scopes.push filled⟩ ∧
      filled.level = s.level ∧ filled.parent = s.parent ∧ filled.line = s.line ∧
      filled.Holds (ds ++ es) := by
  induction es generalizing s ds with
  | nil => exact ⟨s, rfl, rfl, rfl, rfl, by rwa [List.append_nil]⟩
  | cons d es ih =>
    obtain ⟨filled, heq, hlevel, hparent, hline, hholds⟩ :=
      ih (s.define d) (ds ++ [d]) (hs.define d)
    refine ⟨filled, ?_, hlevel.trans (s.define_level d), hparent.trans (s.define_parent d),
      hline.trans (s.define_line d), ?_⟩
    · rw [← heq, defineAll, List.foldl_cons, define, modify_last]
      rfl
    · rwa [List.append_assoc] at hholds

/-- A new scope comes last, one level deeper than its parent. -/
theorem push_eq (t : Tables) (parent : Option ScopeId) (line : Nat) :
    t.push parent line = (⟨t.size⟩, ⟨t.scopes.push
      (.empty parent ((parent.bind t.scope?).elim 0 (·.level + 1)) line)⟩) := by
  rw [push]
  cases parent.bind t.scope? <;> rfl

/-- To open a scope adds it at the end, filled. It is one level deeper than its parent. -/
theorem openScope_spec (t : Tables) (parent : Option ScopeId) (line : Nat)
    (ds : List Declaration) :
    ∃ s, t.openScope parent line ds = (⟨t.size⟩, ⟨t.scopes.push s⟩) ∧
      s.level = (parent.bind t.scope?).elim 0 (·.level + 1) ∧
      s.parent = parent ∧ s.line = line ∧ s.Holds ds := by
  obtain ⟨s, heq, hlevel, hparent, hline, hholds⟩ :=
    defineAll_last t.scopes (.empty parent _ line) [] ds (Scope.holds_empty parent _ line)
  refine ⟨s, ?_, hlevel, hparent, hline, hholds⟩
  rw [openScope, push_eq]
  exact congrArg (Prod.mk _) heq

/-- Opening a scope and filling it touches no other scope. -/
theorem openScope_extends (t : Tables) (parent : Option ScopeId) (line : Nat)
    (ds : List Declaration) : t.Extends (t.openScope parent line ds).2 := by
  obtain ⟨s, heq, -⟩ := t.openScope_spec parent line ds
  rw [heq]
  exact ⟨#[s], Array.push_eq_append⟩

/-- The scope that was opened has all that it was filled with, its line and its parent. -/
theorem openScope_holds (t : Tables) (parent : Option ScopeId) (line : Nat)
    (ds : List Declaration) (hparent : ∀ outer, parent = some outer → outer.index < t.size) :
    (t.openScope parent line ds).2.Holds (t.openScope parent line ds).1 parent line ds := by
  obtain ⟨s, heq, _, hs⟩ := t.openScope_spec parent line ds
  rw [heq]
  refine ⟨hparent, ?_, s, ?_, hs⟩
  · show t.size < (t.scopes.push s).size
    rw [Array.size_push]
    exact Nat.lt_succ_self _
  · exact Array.getElem?_push_size

/-! ## Names -/

/-- A scope sees a list of frames: every name stands for the same in both. -/
def Sees (t : Tables) (id : ScopeId) (frames : Frames) : Prop :=
  ∀ x, (t.lookup id x).map Symbol.meaning = meaningOf frames x

variable {t : Tables} {id : ScopeId} {line : Nat} {ds : List Declaration}

/-- The outermost scope sees its own declarations. -/
theorem Holds.sees_outermost (h : t.Holds id none line ds) : t.Sees id [ds.map (·.binding)] := by
  obtain ⟨s, hs, hparent, -, hholds⟩ := h.exists_scope
  intro x
  have hchain : t.chain id = [id] := by
    rw [chain, hs]
    simp only [hparent]
  rw [lookup, hchain, List.findSome?_singleton, findIn?, hs, Option.bind_some, hholds.meaning_find?,
    meaningOf, List.findSome?_singleton]

/-- A scope sees its own declarations, and around them what its parent sees. -/
theorem Holds.sees {parent : ScopeId} {frames : Frames} (h : t.Holds id (some parent) line ds)
    (hparent : t.Sees parent frames) : t.Sees id (ds.map (·.binding) :: frames) := by
  obtain ⟨s, hs, hlink, -, hholds⟩ := h.exists_scope
  intro x
  -- the chain goes on only to scopes that were there before
  have hchain : t.chain id = id :: t.chain parent := by
    rw [chain, hs]
    simp only [hlink]
    rw [if_pos (h.before parent rfl)]
  have hlookup : t.lookup id x = (s.find? x).or (t.lookup parent x) := by
    rw [lookup, hchain, List.findSome?_cons, findIn?, hs, Option.bind_some]
    cases s.find? x <;> rfl
  rw [hlookup, meaningOf_cons, ← hholds.meaning_find?, ← hparent x]
  cases s.find? x <;> rfl

end Tables

/-! ## Growing along a program -/

theorem stmtsWithScopes_extends_of {ss : List Stmt}
    (h : ∀ x ∈ ss, ∀ (scope : ScopeId) (t : Tables), t.Extends (x.withScopes scope t).2)
    (scope : ScopeId) (t : Tables) :
    t.Extends (stmtsWithScopes scope ss t).2 := by
  induction ss generalizing t with
  | nil => exact .refl t
  | cons x ss ih =>
    have hx : t.Extends (x.withScopes scope t).2 := h x List.mem_cons_self scope t
    have hss := ih (fun y hy => h y (List.mem_cons_of_mem x hy)) (x.withScopes scope t).2
    exact hx.trans hss

/-- To go through a block or a statement only adds scopes. -/
theorem block_stmt_withScopes_extends :
    (∀ (b : Block) (parent : ScopeId) (t : Tables), t.Extends (b.withScopes parent t).2) ∧
    ∀ (x : Stmt) (scope : ScopeId) (t : Tables), t.Extends (x.withScopes scope t).2 := by
  refine Block.induction ?mk ?assign ?call ?ifThen ?ifElse ?loop ?ret ?brk ?cont ?inner
  case mk =>
    intro locals statements p scope ih parent t
    rw [Block.withScopes]
    exact (t.openScope_extends (some parent) p.line _).trans (stmtsWithScopes_extends_of ih _ _)
  case ifThen =>
    intro p test b ihb scope t
    rw [Stmt.withScopes]
    exact ihb scope t
  case ifElse =>
    intro p test b c ihb ihc scope t
    rw [Stmt.withScopes]
    exact (ihb scope t).trans (ihc scope _)
  case loop =>
    intro p test b ihb scope t
    rw [Stmt.withScopes]
    exact ihb scope t
  case inner =>
    intro p b ihb scope t
    rw [Stmt.withScopes]
    exact ihb scope t
  all_goals
    intros
    rw [Stmt.withScopes]
    exact .refl _

theorem stmtsWithScopes_extends (ss : List Stmt) (scope : ScopeId) (t : Tables) :
    t.Extends (stmtsWithScopes scope ss t).2 :=
  stmtsWithScopes_extends_of (fun x _ => block_stmt_withScopes_extends.2 x) scope t

/-- Going through a function only adds scopes at the end. -/
theorem Function.withScopes_extends (f : Function) (parent : ScopeId) (t : Tables) :
    t.Extends (f.withScopes parent t).2 := by
  rw [Function.withScopes]
  exact (t.openScope_extends (some parent) _ _).trans (block_stmt_withScopes_extends.1 f.body _ _)

/-- Going through functions only adds scopes at the end. -/
theorem functionsWithScopes_extends (fs : List Function) (parent : ScopeId) (t : Tables) :
    t.Extends (functionsWithScopes parent fs t).2 := by
  induction fs generalizing t with
  | nil => exact .refl t
  | cons f fs ih => exact (f.withScopes_extends parent t).trans (ih _)

end Decaf

import Decaf.Proofs.Scope.Building
import Decaf.Proofs.Scope.Mirror
import Decaf.Proofs.Syntax.Positions

/-!
# The order of declarations in the text

The first declaration of a name is kept and the others are duplicates. First means first in
the order in which a scope is filled; this file compares it with the order in the text
(`Scope.KeepsEarliest`).

What a function or a block declares is listed as it stands in the text, so that the two
orders agree. A program lists its variables before its functions, wherever they stand. The
orders agree there exactly if no variable stands behind a function of the same name, and none
that repeats a name behind a function that repeats one (`keepsEarliest_iff`). Otherwise it is
a later declaration that is kept, or the duplicates come in another order; the smallest case
is a function `main` with a variable `main` behind it.
-/

namespace Decaf

/-! ## Names that come again -/

section Repeated

variable {α : Type} {name : α → String} {seen : List String} {as : List α}

/-- A name comes again if it was seen, or if it stands further to the front. -/
theorem mem_repeated {a : α} :
    a ∈ repeated name seen as ↔
      ∃ front back, as = front ++ a :: back ∧ (name a ∈ seen ∨ name a ∈ front.map name) := by
  induction as generalizing seen with
  | nil => simp [repeated]
  | cons c as ih =>
    rw [repeated]
    constructor
    · intro h
      split at h
      next hseen =>
        rcases List.mem_cons.mp h with rfl | h
        · exact ⟨[], as, rfl, .inl hseen⟩
        · obtain ⟨front, back, rfl, hor⟩ := ih.mp h
          exact ⟨c :: front, back, rfl, (seen_or_mem_cons_of_seen hseen).mpr hor⟩
      next =>
        obtain ⟨front, back, rfl, hor⟩ := ih.mp h
        exact ⟨c :: front, back, rfl, cons_seen_or_mem.mp hor⟩
    · rintro ⟨front, back, heq, hor⟩
      cases front with
      | nil =>
        injection heq with hc _
        subst hc
        have hseen : name c ∈ seen := hor.resolve_right List.not_mem_nil
        rw [if_pos hseen]
        exact List.mem_cons_self
      | cons d front =>
        injection heq with hc has
        subst hc
        by_cases hseen : name c ∈ seen
        · rw [if_pos hseen]
          refine List.mem_cons_of_mem c (ih.mpr ⟨front, back, has, ?_⟩)
          exact (seen_or_mem_cons_of_seen hseen).mp hor
        · rw [if_neg hseen]
          exact ih.mpr ⟨front, back, has, cons_seen_or_mem.mpr hor⟩

/-- In a list that is sorted by position, further to the front is at an earlier position. -/
theorem mem_repeated_iff (pos : α → Nat) (h : as.Pairwise fun a b => pos a < pos b) {a : α} :
    a ∈ repeated name seen as ↔
      a ∈ as ∧ (name a ∈ seen ∨ ∃ b ∈ as, name b = name a ∧ pos b < pos a) := by
  rw [mem_repeated]
  constructor
  · intro ⟨front, back, heq, hor⟩
    subst heq
    have hbefore := (List.pairwise_append.mp h).2.2
    refine ⟨List.mem_append_right _ List.mem_cons_self, hor.imp id fun hmem => ?_⟩
    obtain ⟨b, hb, hname⟩ := List.mem_map.mp hmem
    exact ⟨b, List.mem_append_left _ hb, hname, hbefore b hb a List.mem_cons_self⟩
  · intro ⟨ha, hor⟩
    obtain ⟨front, back, heq⟩ := List.append_of_mem ha
    subst heq
    refine ⟨front, back, rfl, hor.imp id fun ⟨b, hb, hname, hlt⟩ => ?_⟩
    have hafter := (List.pairwise_cons.mp (List.pairwise_append.mp h).2.1).1
    rcases List.mem_append.mp hb with hb | hb
    · exact List.mem_map.mpr ⟨b, hb, hname⟩
    · rcases List.mem_cons.mp hb with rfl | hb
      · omega
      · have := hafter b hb
        omega

theorem find?_firsts {x : String} (hx : x ∉ seen) :
    (firsts name seen as).find? (name · == x) = as.find? (name · == x) := by
  induction as generalizing seen with
  | nil => rfl
  | cons a as ih =>
    rw [firsts]
    by_cases hseen : name a ∈ seen
    · have hne : name a ≠ x := fun heq => hx (heq ▸ hseen)
      rw [if_pos hseen, ih hx, List.find?_cons_of_neg (by simpa using hne)]
    · rw [if_neg hseen]
      by_cases heq : name a = x
      · rw [List.find?_cons_of_pos (by simpa using heq),
          List.find?_cons_of_pos (by simpa using heq)]
      · rw [List.find?_cons_of_neg (by simpa using heq),
          List.find?_cons_of_neg (by simpa using heq)]
        exact ih fun hmem => (List.mem_cons.mp hmem).elim (fun h => heq h.symm) hx

/-- In a list that is sorted by position, the member of a name that has no earlier one is
found first. -/
theorem find?_of_earliest (pos : α → Nat) (h : as.Pairwise fun a b => pos a < pos b) {a : α}
    (ha : a ∈ as) (hno : ¬ ∃ b ∈ as, name b = name a ∧ pos b < pos a) :
    as.find? (name · == name a) = some a := by
  induction as with
  | nil => cases ha
  | cons c as ih =>
    obtain ⟨hc, has⟩ := List.pairwise_cons.mp h
    rcases List.mem_cons.mp ha with rfl | ha
    · exact List.find?_cons_of_pos (beq_self_eq_true _)
    · have hne : name c ≠ name a := fun heq => hno ⟨c, List.mem_cons_self, heq, hc a ha⟩
      rw [List.find?_cons_of_neg (by simpa using hne)]
      exact ih has ha fun ⟨b, hb, hsame⟩ => hno ⟨b, List.mem_cons_of_mem c hb, hsame⟩

end Repeated

/-! ## Scopes -/

/-- What a declaration is recorded as if its name was there before. -/
def Declaration.duplicate (d : Declaration) : Duplicate :=
  ⟨d.symbol.name, d.symbol.line, d.span⟩

/-- Declarations as they stand in the text. -/
def Ordered (ds : List Declaration) : Prop :=
  ds.Pairwise fun a b => a.span.start < b.span.start

/-- A declaration has a name that is taken, or one of the others has it and begins earlier. -/
def Redeclares (taken : List String) (ds : List Declaration) (d : Declaration) : Prop :=
  d.symbol.name ∈ taken ∨ ∃ e ∈ ds, e.symbol.name = d.symbol.name ∧ e.span.start < d.span.start

/-- Of some declarations, a scope keeps for each name that is not taken the one that begins
earliest in the text. All others are its duplicates, in the order in which they begin. -/
structure Scope.KeepsEarliest (s : Scope) (taken : List String) (ds : List Declaration) : Prop where
  kept : ∀ d ∈ ds, ¬ Redeclares taken ds d → s.find? d.symbol.name = some d.symbol
  duplicates : ∀ x, x ∈ s.duplicates.toList ↔ ∃ d ∈ ds, Redeclares taken ds d ∧ x = d.duplicate
  inOrder : s.duplicates.toList.Pairwise fun a b => a.span.start < b.span.start

/-- A scope was filled with declarations, while some names were taken. -/
structure Scope.Filled (s : Scope) (taken : List String) (ds : List Declaration) : Prop where
  find?_eq : ∀ x, x ∉ taken → s.find? x = (ds.find? (·.symbol.name == x)).map (·.symbol)
  duplicates_eq : s.duplicates.toList =
    (repeated (·.symbol.name) taken ds).map Declaration.duplicate

section Orders

variable {s : Scope} {taken : List String} {vs fs : List Declaration} {d : Declaration}

/-- Duplicates among declarations that come in two parts, each as it stands in the text. -/
theorem mem_duplicates_iff (hvs : Ordered vs) (hfs : Ordered fs) :
    d ∈ repeated (·.symbol.name) taken (vs ++ fs) ↔
      (d ∈ vs ∧ Redeclares taken vs d) ∨
      (d ∈ fs ∧ Redeclares (vs.map (·.symbol.name) ++ taken) fs d) := by
  rw [repeated_append_eq, List.mem_append,
    mem_repeated_iff (fun d : Declaration => d.span.start) hvs,
    mem_repeated_iff (fun d : Declaration => d.span.start) hfs]
  exact Iff.rfl

/-- The second part does not matter for a name that it does not have earlier. -/
theorem redeclares_left_iff (taken : List String) (vs : List Declaration)
    (hno : ∀ f ∈ fs, f.span.start < d.span.start → d.symbol.name ≠ f.symbol.name) :
    Redeclares taken (vs ++ fs) d ↔ Redeclares taken vs d := by
  unfold Redeclares
  refine or_congr_right ⟨fun ⟨e, he, hname, hlt⟩ => ?_, fun ⟨e, he, hsame⟩ => ?_⟩
  · rcases List.mem_append.mp he with he | he
    · exact ⟨e, he, hname, hlt⟩
    · exact absurd hname.symm (hno e he hlt)
  · exact ⟨e, List.mem_append_left _ he, hsame⟩

/-- The names of the first part are taken for the second, if they come earlier. -/
theorem redeclares_right_iff (taken : List String) (fs : List Declaration)
    (hno : ∀ v ∈ vs, v.symbol.name = d.symbol.name → v.span.start < d.span.start) :
    Redeclares taken (vs ++ fs) d ↔ Redeclares (vs.map (·.symbol.name) ++ taken) fs d := by
  unfold Redeclares
  rw [List.mem_append]
  constructor
  · rintro (htaken | ⟨e, he, hname, hlt⟩)
    · exact .inl (.inr htaken)
    · rcases List.mem_append.mp he with he | he
      · exact .inl (.inl (List.mem_map.mpr ⟨e, he, hname⟩))
      · exact .inr ⟨e, he, hname, hlt⟩
  · rintro ((hmem | htaken) | ⟨e, he, hsame⟩)
    · obtain ⟨v, hv, hname⟩ := List.mem_map.mp hmem
      exact .inr ⟨v, List.mem_append_left _ hv, hname, hno v hv hname⟩
    · exact .inl htaken
    · exact .inr ⟨e, List.mem_append_right _ he, hsame⟩

/-- The two parts do not interfere: no member of the first stands behind one of the second
with its name, and none that is redeclared behind one that is redeclared. -/
def Apart (taken : List String) (vs fs : List Declaration) : Prop :=
  ∀ v ∈ vs, ∀ f ∈ fs, f.span.start < v.span.start → v.symbol.name ≠ f.symbol.name ∧
    ¬ (Redeclares taken (vs ++ fs) v ∧ Redeclares taken (vs ++ fs) f)

/-- If they do not, the duplicates are what is redeclared in the text. -/
theorem Apart.mem_duplicates_iff (h : Apart taken vs fs) (hvs : Ordered vs) (hfs : Ordered fs)
    (hne : ∀ v ∈ vs, ∀ f ∈ fs, v.span.start ≠ f.span.start) :
    d ∈ repeated (·.symbol.name) taken (vs ++ fs) ↔
      d ∈ vs ++ fs ∧ Redeclares taken (vs ++ fs) d := by
  have hleft (hd : d ∈ vs) :=
    redeclares_left_iff taken vs fun f hf hlt => (h d hd f hf hlt).1
  have hbefore (hd : d ∈ fs) : ∀ v ∈ vs, v.symbol.name = d.symbol.name →
      v.span.start < d.span.start := by
    intro v hv hname
    have hpos := hne v hv d hd
    have hnot : ¬ d.span.start < v.span.start := fun hlt => (h v hv d hd hlt).1 hname
    omega
  rw [Decaf.mem_duplicates_iff hvs hfs, List.mem_append]
  constructor
  · rintro (⟨hd, hre⟩ | ⟨hd, hre⟩)
    · exact ⟨.inl hd, (hleft hd).mpr hre⟩
    · exact ⟨.inr hd, (redeclares_right_iff taken fs (hbefore hd)).mpr hre⟩
  · rintro ⟨hd | hd, hre⟩
    · exact .inl ⟨hd, (hleft hd).mp hre⟩
    · exact .inr ⟨hd, (redeclares_right_iff taken fs (hbefore hd)).mp hre⟩

/-- The duplicates of a scope, first those of the first part. -/
theorem Scope.Filled.duplicates_append (hs : s.Filled taken (vs ++ fs)) :
    s.duplicates.toList = (repeated (·.symbol.name) taken vs).map Declaration.duplicate ++
      (repeated (·.symbol.name) (vs.map (·.symbol.name) ++ taken) fs).map
        Declaration.duplicate := by
  rw [hs.duplicates_eq, repeated_append_eq, List.map_append]

/-- If the two parts do not interfere, the scope goes by the text. -/
theorem Apart.keepsEarliest (h : Apart taken vs fs) (hs : s.Filled taken (vs ++ fs))
    (hvs : Ordered vs) (hfs : Ordered fs)
    (hne : ∀ v ∈ vs, ∀ f ∈ fs, v.span.start ≠ f.span.start) :
    s.KeepsEarliest taken (vs ++ fs) where
  kept d hd hfirst := by
    have htaken : d.symbol.name ∉ taken := fun hmem => hfirst (.inl hmem)
    have hearliest : ∀ ds : List Declaration, (∀ e ∈ ds, e ∈ vs ++ fs) →
        ¬ ∃ e ∈ ds, e.symbol.name = d.symbol.name ∧ e.span.start < d.span.start :=
      fun ds hsub ⟨e, he, hsame⟩ => hfirst (.inr ⟨e, hsub e he, hsame⟩)
    rw [hs.find?_eq _ htaken, List.find?_append]
    rcases List.mem_append.mp hd with hd | hd
    · rw [find?_of_earliest (fun d : Declaration => d.span.start) hvs hd
        (hearliest vs fun e he => List.mem_append_left _ he)]
      rfl
    · -- a variable of the name would begin earlier or later, and neither can be
      have hnone : vs.find? (·.symbol.name == d.symbol.name) = none := by
        refine List.find?_eq_none.mpr fun v hv hname => ?_
        have hname := beq_iff_eq.mp hname
        have hpos := hne v hv d hd
        have hlater : ¬ d.span.start < v.span.start := fun hlt => (h v hv d hd hlt).1 hname
        exact hfirst (.inr ⟨v, List.mem_append_left _ hv, hname, by omega⟩)
      rw [hnone, Option.none_or, find?_of_earliest (fun d : Declaration => d.span.start) hfs hd
        (hearliest fs fun e he => List.mem_append_right _ he)]
      rfl
  duplicates x := by
    rw [hs.duplicates_eq, List.mem_map]
    constructor
    · intro ⟨d, hd, hx⟩
      obtain ⟨hmem, hre⟩ := (h.mem_duplicates_iff hvs hfs hne).mp hd
      exact ⟨d, hmem, hre, hx.symm⟩
    · intro ⟨d, hmem, hre, hx⟩
      exact ⟨d, (h.mem_duplicates_iff hvs hfs hne).mpr ⟨hmem, hre⟩, hx.symm⟩
  inOrder := by
    rw [hs.duplicates_append, List.pairwise_append, List.pairwise_map, List.pairwise_map]
    refine ⟨hvs.sublist repeated_sublist, hfs.sublist repeated_sublist, fun x hx y hy => ?_⟩
    obtain ⟨v, hv, rfl⟩ := List.mem_map.mp hx
    obtain ⟨f, hf, rfl⟩ := List.mem_map.mp hy
    have hboth : ∀ d, d ∈ repeated (·.symbol.name) taken vs ∨
        d ∈ repeated (·.symbol.name) (vs.map (·.symbol.name) ++ taken) fs →
        Redeclares taken (vs ++ fs) d := by
      intro d hd
      rw [← List.mem_append, ← repeated_append_eq] at hd
      exact ((h.mem_duplicates_iff hvs hfs hne).mp hd).2
    have hpos := hne v (repeated_sublist.subset hv) f (repeated_sublist.subset hf)
    have hnot : ¬ f.span.start < v.span.start := fun hlt =>
      (h v (repeated_sublist.subset hv) f (repeated_sublist.subset hf) hlt).2
        ⟨hboth v (.inl hv), hboth f (.inr hf)⟩
    show v.span.start < f.span.start
    omega

/-- If the scope goes by the text, the two parts do not interfere: what is redeclared in the
first part comes before what is redeclared in the second, in the scope and so in the text. -/
theorem Scope.KeepsEarliest.apart (h : s.KeepsEarliest taken (vs ++ fs))
    (hs : s.Filled taken (vs ++ fs)) (hvs : Ordered vs) (hfs : Ordered fs)
    (hne : ∀ v ∈ vs, ∀ f ∈ fs, v.span.start ≠ f.span.start) : Apart taken vs fs := by
  intro v hv f hf hlt
  have hbefore : v.duplicate ∈ s.duplicates.toList → f.duplicate ∉ s.duplicates.toList := by
    intro hvdup hfdup
    have hordered := h.inOrder
    rw [hs.duplicates_append] at hvdup hfdup hordered
    -- no two of the declarations begin at the same point, so each is in its own part
    have hvleft : v.duplicate ∈ (repeated (·.symbol.name) taken vs).map Declaration.duplicate := by
      refine (List.mem_append.mp hvdup).resolve_right fun hmem => ?_
      obtain ⟨w, hw, heq⟩ := List.mem_map.mp hmem
      exact hne v hv w (repeated_sublist.subset hw) (congrArg (·.span.start) heq).symm
    have hfright : f.duplicate ∈
        (repeated (·.symbol.name) (vs.map (·.symbol.name) ++ taken) fs).map
          Declaration.duplicate := by
      refine (List.mem_append.mp hfdup).resolve_left fun hmem => ?_
      obtain ⟨w, hw, heq⟩ := List.mem_map.mp hmem
      exact hne w (repeated_sublist.subset hw) f hf (congrArg (·.span.start) heq)
    have horder := (List.pairwise_append.mp hordered).2.2 _ hvleft _ hfright
    exact Nat.lt_asymm hlt horder
  constructor
  · intro hname
    refine hbefore ?_ ?_
    · refine (h.duplicates _).mpr ⟨v, List.mem_append_left _ hv, ?_, rfl⟩
      exact .inr ⟨f, List.mem_append_right _ hf, hname.symm, hlt⟩
    · rw [hs.duplicates_eq]
      refine List.mem_map_of_mem ((mem_duplicates_iff hvs hfs).mpr (.inr ⟨hf, .inl ?_⟩))
      exact List.mem_append_left _ (List.mem_map.mpr ⟨v, hv, hname⟩)
  · intro ⟨hvre, hfre⟩
    refine hbefore ?_ ?_
    · exact (h.duplicates _).mpr ⟨v, List.mem_append_left _ hv, hvre, rfl⟩
    · exact (h.duplicates _).mpr ⟨f, List.mem_append_right _ hf, hfre, rfl⟩

theorem keepsEarliest_iff (hs : s.Filled taken (vs ++ fs)) (hvs : Ordered vs) (hfs : Ordered fs)
    (hne : ∀ v ∈ vs, ∀ f ∈ fs, v.span.start ≠ f.span.start) :
    s.KeepsEarliest taken (vs ++ fs) ↔ Apart taken vs fs :=
  ⟨fun h => h.apart hs hvs hfs hne, fun h => h.keepsEarliest hs hvs hfs hne⟩

/-- A scope whose declarations are all listed as they stand in the text goes by the text. -/
theorem Scope.Filled.keepsEarliest (hs : s.Filled taken vs) (hvs : Ordered vs) :
    s.KeepsEarliest taken vs := by
  have happart : Apart taken vs [] := fun _ _ _ hf => absurd hf List.not_mem_nil
  rw [← List.append_nil vs] at hs ⊢
  exact happart.keepsEarliest hs hvs .nil fun _ _ _ hf => absurd hf List.not_mem_nil

end Orders

/-! ## What stands in the tables -/

/-- A scope finds a name among its symbols. -/
theorem Scope.Indexed.find?_eq {s : Scope} (h : s.Indexed) (x : String) :
    s.find? x = s.symbols.toList.find? (·.name == x) := by
  unfold Scope.find?
  cases hfound : s.symbols.toList.find? (·.name == x) with
  | none =>
    cases hx : s.positions[x]? with
    | none => rfl
    | some i =>
      obtain ⟨y, hy, hname⟩ := (h x i).mp hx
      have hmem : y ∈ s.symbols.toList := List.mem_of_getElem? (by rw [Array.getElem?_toList, hy])
      exact absurd (beq_iff_eq.mpr hname) (List.find?_eq_none.mp hfound y hmem)
  | some y =>
    have hname : y.name = x := by simpa using List.find?_some hfound
    obtain ⟨i, hi⟩ := List.mem_iff_getElem?.mp (List.mem_of_find?_eq_some hfound)
    rw [Array.getElem?_toList] at hi
    rw [(h x i).mpr ⟨y, hi, hname⟩, Option.bind_some, hi]

/-- The scope of a site was filled with what the site declares. -/
theorem Site.Mirrored.filled {t : Tables} {site : Site} {id : ScopeId} {s : Scope}
    (h : site.Mirrored t id s) (ht : t.Reached) : s.Filled [] site.declared where
  find?_eq x _ := by
    rw [(ht.sound h.found).2.find?_eq, h.symbols, List.find?_map]
    exact congrArg (Option.map _) (find?_firsts List.not_mem_nil)
  duplicates_eq := h.duplicates

/-- The built-in functions come before all declarations of a program. -/
theorem Scope.Filled.behind {s : Scope} {before ds : List Declaration}
    (h : s.Filled [] (before ++ ds)) (hbefore : repeated (·.symbol.name) [] before = []) :
    s.Filled (before.map (·.symbol.name)) ds where
  find?_eq x hx := by
    have hnone : before.find? (·.symbol.name == x) = none := by
      refine List.find?_eq_none.mpr fun d hd hname => hx ?_
      exact List.mem_map.mpr ⟨d, hd, beq_iff_eq.mp hname⟩
    rw [h.find?_eq x List.not_mem_nil, List.find?_append, hnone, Option.none_or]
  duplicates_eq := by
    rw [h.duplicates_eq, repeated_append_eq, hbefore, List.nil_append, List.append_nil]

/-! ## What stands in the tree -/

/-- What nodes declare that follow one another in the text. -/
theorem ordered_of_nodes {α : Type} {as : List α} (node : α → Node) {declared : α → Declaration}
    (hspan : ∀ a, (declared a).span = (node a).span)
    (horder : (as.map node).Pairwise fun a b => a.span.stop ≤ b.span.start)
    (hlt : ∀ a ∈ as, (node a).span.start < (node a).span.stop) : Ordered (as.map declared) := by
  unfold Ordered
  rw [List.pairwise_map] at horder ⊢
  refine horder.imp_of_mem fun {a b} ha _ hle => ?_
  have := hlt a ha
  rw [hspan, hspan]
  omega

variable {source : String}

theorem Node.AllSound.of_child {n c : Node} (h : n.AllSound source) (hc : c ∈ n.children) :
    c.AllSound source :=
  fun m hm => h m (hm.of_child hc)

theorem stmtsWithScopes_ordered_of {ss : List Stmt}
    (h : ∀ x ∈ ss, ∀ (scope : ScopeId) (t : Tables) (outer : List (Option ScopeId)),
      ∀ site ∈ (x.withScopes scope t).1.sites outer, Ordered site.declared)
    (scope : ScopeId) (t : Tables) (outer : List (Option ScopeId)) :
    ∀ site ∈ stmtsSites outer (stmtsWithScopes scope ss t).1, Ordered site.declared := by
  induction ss generalizing t with
  | nil => exact fun _ hsite => absurd hsite List.not_mem_nil
  | cons x ss ih =>
    refine List.forall_mem_append.mpr ⟨h x List.mem_cons_self scope t outer, ?_⟩
    exact ih (fun y hy => h y (List.mem_cons_of_mem x hy)) _

/-- What a block or a statement that was read declares is listed as it stands in the text. -/
theorem block_stmt_withScopes_ordered :
    (∀ (b : Block) (parent : ScopeId) (t : Tables) (outer : List (Option ScopeId)),
      (Node.block b).AllSound source →
      ∀ site ∈ (b.withScopes parent t).1.sites outer, Ordered site.declared) ∧
    ∀ (x : Stmt) (scope : ScopeId) (t : Tables) (outer : List (Option ScopeId)),
      (Node.stmt x).AllSound source →
      ∀ site ∈ (x.withScopes scope t).1.sites outer, Ordered site.declared := by
  refine Block.induction ?mk ?assign ?call ?ifThen ?ifElse ?loop ?ret ?brk ?cont ?inner
  case mk =>
    intro locals statements p scope ih parent t outer h
    have hlocals : Ordered (locals.map (·.declaredAt outer.length)) := by
      have hsound := h _ .self
      refine ordered_of_nodes Node.varDecl (fun d => rfl) ?_ fun d hd => ?_
      · exact (List.pairwise_append.mp (hsound.inOrder _ List.mem_cons_self)).1
      · exact (hsound.proper _ (List.mem_append_left _ (List.mem_map_of_mem hd))).lt
    rw [Block.withScopes]
    refine List.forall_mem_cons.mpr ⟨hlocals, stmtsWithScopes_ordered_of ?_ _ _ _⟩
    intro x hx scope t outer
    exact ih x hx scope t outer (h.of_child (List.mem_append_right _ (List.mem_map_of_mem hx)))
  case ifThen =>
    intro p test b ihb scope t outer h
    rw [Stmt.withScopes]
    exact ihb scope t outer (h.of_child (List.mem_cons_of_mem _ List.mem_cons_self))
  case ifElse =>
    intro p test b c ihb ihc scope t outer h
    rw [Stmt.withScopes]
    refine List.forall_mem_append.mpr ⟨ihb scope t outer (h.of_child ?_),
      ihc scope _ outer (h.of_child ?_)⟩
    · exact List.mem_cons_of_mem _ List.mem_cons_self
    · exact List.mem_cons_of_mem _ (List.mem_cons_of_mem _ List.mem_cons_self)
  case loop =>
    intro p test b ihb scope t outer h
    rw [Stmt.withScopes]
    exact ihb scope t outer (h.of_child (List.mem_cons_of_mem _ List.mem_cons_self))
  case inner =>
    intro p b ihb scope t outer h
    rw [Stmt.withScopes]
    exact ihb scope t outer (h.of_child List.mem_cons_self)
  all_goals
    intros
    rw [Stmt.withScopes] at *
    contradiction

theorem Function.withScopes_ordered {f : Function} (h : (Node.function f).AllSound source)
    (parent : ScopeId) (t : Tables) (outer : List (Option ScopeId)) :
    ∀ site ∈ (f.withScopes parent t).1.sites outer, Ordered site.declared := by
  have hparams : Ordered (f.params.map (·.declaredAt outer.length)) := by
    have hsound := h _ .self
    refine ordered_of_nodes Node.param (fun d => rfl) ?_ fun d hd => ?_
    · exact (List.pairwise_append.mp (hsound.inOrder _ List.mem_cons_self)).1
    · exact (hsound.proper _ (List.mem_append_left _ (List.mem_map_of_mem hd))).lt
  rw [Function.withScopes]
  refine List.forall_mem_cons.mpr ⟨hparams, ?_⟩
  exact block_stmt_withScopes_ordered.1 f.body _ _ _
    (h.of_child (List.mem_append_right _ List.mem_cons_self))

theorem functionsWithScopes_ordered {fs : List Function}
    (h : ∀ f ∈ fs, (Node.function f).AllSound source) (parent : ScopeId) (t : Tables)
    (outer : List (Option ScopeId)) :
    ∀ site ∈ (functionsWithScopes parent fs t).1.flatMap (·.sites outer),
      Ordered site.declared := by
  induction fs generalizing t with
  | nil => exact fun _ hsite => absurd hsite List.not_mem_nil
  | cons f fs ih =>
    refine List.forall_mem_append.mpr ⟨?_, ih (fun g hg => h g (List.mem_cons_of_mem f hg)) _⟩
    exact Function.withScopes_ordered (h f List.mem_cons_self) parent t outer

/-! ## Programs -/

/-- The names of the functions that are there without being declared. -/
def builtinNames : List String :=
  builtinsDeclared.map (·.symbol.name)

/-- The variables of a program, as they are declared. -/
def Program.variablesDeclared (p : Program) : List Declaration :=
  p.globals.map (·.declaredAt 0)

/-- The functions of a program, as they are declared. -/
def Program.functionsDeclared (p : Program) : List Declaration :=
  p.functions.map (·.declared)

/-- The variables and the functions of a program that was read are listed each as they stand
in the text, and no two of them begin at the same point. -/
theorem parse_ordered {p : Program} (h : parse source = .ok p) :
    Ordered p.variablesDeclared ∧ Ordered p.functionsDeclared ∧
      ∀ v ∈ p.variablesDeclared, ∀ f ∈ p.functionsDeclared, v.span.start ≠ f.span.start := by
  have hsound := parse_allSound h _ .self
  have hlt : ∀ c ∈ (Node.program p).children, c.span.start < c.span.stop :=
    fun c hc => (hsound.proper c hc).lt
  refine ⟨?_, ?_, fun v hv f hf => ?_⟩
  · refine ordered_of_nodes Node.varDecl (fun d => rfl) (hsound.inOrder _ List.mem_cons_self) ?_
    exact fun d hd => hlt _ (List.mem_append_left _ (List.mem_map_of_mem hd))
  · refine ordered_of_nodes Node.function (fun d => rfl)
      (hsound.inOrder _ (List.mem_cons_of_mem _ List.mem_cons_self)) ?_
    exact fun f hf => hlt _ (List.mem_append_right _ (List.mem_map_of_mem hf))
  · obtain ⟨d, hd, rfl⟩ := List.mem_map.mp hv
    obtain ⟨g, hg, rfl⟩ := List.mem_map.mp hf
    have hd' := List.mem_map_of_mem (f := Node.varDecl) hd
    have hg' := List.mem_map_of_mem (f := Node.function) hg
    have hdlt := hlt _ (List.mem_append_left _ hd')
    have hglt := hlt _ (List.mem_append_right _ hg')
    have hapart := (List.pairwise_append.mp hsound.disjoint).2.2 _ hd' _ hg'
    show (Node.varDecl d).span.start ≠ (Node.function g).span.start
    omega

/-- The functions and blocks of a program that was read go by the text. -/
theorem inner_keepsEarliest {p : Program} (h : parse source = .ok p) :
    ∀ site ∈ p.withScopes.1.sites.tail, ∃ id s, site.scope = some id ∧
      p.withScopes.2.scope? id = some s ∧ s.KeepsEarliest [] site.declared := by
  intro site hsite
  obtain ⟨id, s, hmirrored⟩ := p.withScopes_grown.mirrored site (List.mem_of_mem_tail hsite)
  have hsound : ∀ f ∈ p.functions, (Node.function f).AllSound source := fun f hf =>
    (parse_allSound h).of_child (List.mem_append_right _ (List.mem_map_of_mem hf))
  have hordered : Ordered site.declared := functionsWithScopes_ordered hsound _ _ _ site hsite
  refine ⟨id, s, hmirrored.carried, hmirrored.found, ?_⟩
  exact (hmirrored.filled p.withScopes_builds.reached).keepsEarliest hordered

/-- The outermost scope of a program was filled with its variables, then with its
functions. -/
theorem Program.outermost_filled (p : Program) :
    ∃ s, p.withScopes.2.scope? ⟨0⟩ = some s ∧
      s.Filled builtinNames (p.variablesDeclared ++ p.functionsDeclared) := by
  obtain ⟨id, s, hmirrored⟩ := p.withScopes_grown.mirrored _ List.mem_cons_self
  have hid : id = ⟨0⟩ := by
    obtain ⟨_, heq, -⟩ := Tables.empty.openScope_spec none p.place.line p.declarations
    have hcarried : some (Tables.empty.openScope none p.place.line p.declarations).1 = some id :=
      hmirrored.carried
    rw [heq] at hcarried
    exact (Option.some.inj hcarried).symm
  have hdeclared : p.withScopes.1.functions.map (·.declared) = p.functionsDeclared :=
    functionsWithScopes_declared _ _ _
  have hfilled := hmirrored.filled p.withScopes_builds.reached
  change s.Filled [] (builtinsDeclared ++ p.variablesDeclared ++
    p.withScopes.1.functions.map (·.declared)) at hfilled
  rw [hdeclared, List.append_assoc] at hfilled
  subst hid
  exact ⟨s, hmirrored.found, hfilled.behind rfl⟩

/-- Which declaration a scope keeps that is filled in two parts: one of the first part that
has no earlier one there, or one of the second part whose name the first part does not have. -/
theorem Scope.Filled.kept {s : Scope} {taken : List String} {vs fs : List Declaration}
    (hs : s.Filled taken (vs ++ fs)) (hvs : Ordered vs) (hfs : Ordered fs) :
    (∀ v ∈ vs, ¬ Redeclares taken vs v → s.find? v.symbol.name = some v.symbol) ∧
    ∀ f ∈ fs, ¬ Redeclares (vs.map (·.symbol.name) ++ taken) fs f →
      s.find? f.symbol.name = some f.symbol := by
  constructor
  · intro v hv hfirst
    have hfound := find?_of_earliest (fun d : Declaration => d.span.start) hvs hv
      fun hearlier => hfirst (.inr hearlier)
    rw [hs.find?_eq _ fun hmem => hfirst (.inl hmem), List.find?_append, hfound]
    rfl
  · intro f hf hfirst
    have hfound := find?_of_earliest (fun d : Declaration => d.span.start) hfs hf
      fun hearlier => hfirst (.inr hearlier)
    have hnone : vs.find? (·.symbol.name == f.symbol.name) = none := by
      refine List.find?_eq_none.mpr fun v hv hname => hfirst (.inl (List.mem_append_left _ ?_))
      exact List.mem_map.mpr ⟨v, hv, beq_iff_eq.mp hname⟩
    have htaken : f.symbol.name ∉ taken :=
      fun hmem => hfirst (.inl (List.mem_append_right _ hmem))
    rw [hs.find?_eq _ htaken, List.find?_append, hnone, Option.none_or, hfound]
    rfl

/-- Where the first declaration in the text is the one that is kept. In the scopes of
functions and blocks it always is, and the duplicates are the other declarations as they
stand in the text. In the outermost scope variables go before functions: a name is kept for
its first variable, and for its first function only if there is none. This agrees with the
text exactly if no variable stands behind a function with the same name, and none that is
declared again behind a function that is. -/
theorem scopes_keep_earliest_iff (source : String) (p : Program) (h : parse source = .ok p) :
    (∀ site ∈ p.withScopes.1.sites.tail, ∃ id s, site.scope = some id ∧
      p.withScopes.2.scope? id = some s ∧ s.KeepsEarliest [] site.declared) ∧
    ∃ s, p.withScopes.2.scope? ⟨0⟩ = some s ∧
      (∀ v ∈ p.variablesDeclared, ¬ Redeclares builtinNames p.variablesDeclared v →
        s.find? v.symbol.name = some v.symbol) ∧
      (∀ f ∈ p.functionsDeclared, ¬ Redeclares
          (p.variablesDeclared.map (·.symbol.name) ++ builtinNames) p.functionsDeclared f →
        s.find? f.symbol.name = some f.symbol) ∧
      (s.KeepsEarliest builtinNames (p.variablesDeclared ++ p.functionsDeclared) ↔
        Apart builtinNames p.variablesDeclared p.functionsDeclared) := by
  obtain ⟨hvs, hfs, hne⟩ := parse_ordered h
  obtain ⟨s, hs, hfilled⟩ := p.outermost_filled
  obtain ⟨hvkept, hfkept⟩ := hfilled.kept hvs hfs
  exact ⟨inner_keepsEarliest h, s, hs, hvkept, hfkept, keepsEarliest_iff hfilled hvs hfs hne⟩

/-- A text in which a variable and a function are declared twice. -/
def declaredTwice : String :=
  "int x;\nbool x;\nvoid f(int a, bool a) \x7b int b; bool b; \x7d\nint f() \x7b return 0; \x7d\n"

/-- All variables stand before the functions, so that the outermost scope goes by the text. -/
theorem declaredTwice_keepsEarliest :
    ∃ p s, parse declaredTwice = .ok p ∧ p.withScopes.2.scope? ⟨0⟩ = some s ∧
      s.KeepsEarliest builtinNames (p.variablesDeclared ++ p.functionsDeclared) := by
  have h : (parse declaredTwice).toOption.map (fun p => p.variablesDeclared.all fun v =>
      p.functionsDeclared.all fun f => v.span.start < f.span.start) = some true := by
    decide +kernel
  cases hp : parse declaredTwice with
  | error e =>
    rw [hp] at h
    cases h
  | ok p =>
    rw [hp] at h
    have hbefore := List.all_eq_true.mp (Option.some.inj h)
    obtain ⟨-, s, hs, -, -, hiff⟩ := scopes_keep_earliest_iff declaredTwice p hp
    refine ⟨p, s, rfl, hs, hiff.mpr fun v hv f hf hlt => ?_⟩
    have hvf := of_decide_eq_true (List.all_eq_true.mp (hbefore v hv) f hf)
    omega

/-- A function with a variable of the same name behind it. -/
def lateVariable : String :=
  "int main() \x7b return 0; \x7d\nint main;"

/-- The variable is kept, though the function stands before it, and the function is the
duplicate. -/
theorem lateVariable_kept :
    ∃ p s, parse lateVariable = .ok p ∧ p.withScopes.2.scope? ⟨0⟩ = some s ∧
      s.find? "main" = some ⟨"main", .scalar, .int, 0, 2⟩ ∧
      s.duplicates.toList = [⟨"main", 1, ⟨0, 24⟩⟩] ∧
      ¬ s.KeepsEarliest builtinNames (p.variablesDeclared ++ p.functionsDeclared) := by
  have h : (parse lateVariable).toOption.bind (fun p => (p.withScopes.2.scope? ⟨0⟩).map fun s =>
      (s.find? "main", s.duplicates.toList)) =
        some (some ⟨"main", .scalar, .int, 0, 2⟩, [⟨"main", 1, ⟨0, 24⟩⟩]) := by
    decide +kernel
  cases hp : parse lateVariable with
  | error e =>
    rw [hp] at h
    cases h
  | ok p =>
    rw [hp] at h
    change (p.withScopes.2.scope? ⟨0⟩).map _ = _ at h
    obtain ⟨s, hs, heq⟩ := Option.map_eq_some_iff.mp h
    obtain ⟨hfind, hduplicates⟩ := Prod.mk.inj heq
    refine ⟨p, s, rfl, hs, hfind, hduplicates, fun hkeeps => ?_⟩
    -- nothing stands before the function, so it declares nothing again
    obtain ⟨d, -, hre, hd⟩ := (hkeeps.duplicates ⟨"main", 1, ⟨0, 24⟩⟩).mp (by
      rw [hduplicates]
      exact List.mem_cons_self)
    have hname : "main" = d.symbol.name := congrArg Duplicate.name hd
    have hstart : 0 = d.span.start := congrArg (fun x => x.span.start) hd
    rcases hre with htaken | ⟨e, -, -, hlt⟩
    · rw [← hname] at htaken
      exact absurd htaken (by decide)
    · omega

end Decaf

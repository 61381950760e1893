import FormCodemod.Proofs.Names.Hooks

/-!
# What comes of each statement

The field hooks of a scope are converted statement by statement, and the names that are taken are carried along. The run
therefore splits into one outcome for each statement (`FieldHook.foldl_step`): the statement itself, with the first of its
hooks bound anew if it has one, and the declarations that are put in behind it.

`FieldHook.step_eq` says once what a step does, and `FieldHook.site_inv` what the outcome of a statement with a hook is.
What is said of outcomes elsewhere is derived from these two, and carried over to a run by induction on the statements.
-/

namespace FormCodemod.FieldHook

/-! ## Declarations behind a hook -/

def declarations (es : List (String × Tree)) : List Tree := es.map fun e => Make.constNamed e.1 e.2

/-- The name that a place is bound to as a whole, if the scope refers to it. -/
def wholeName? (uses : List Use) : Tree → Option String
  | .pat _ (.binding x _) _ => if uses.contains (.ref x) then some x else none
  | _ => none

/-- The name that a setter goes by: the one that the pattern gives it, or its own, if it is called and not taken. -/
def setterName? (uses : List Use) (taken : List String) (slot : Tree) (k : String) : Option String :=
  (takenSetter? k slot).or (if uses.contains (.call k) && !taken.contains k then some k else none)

/-- `{ value: field.value, error: field.errors?.[0], initialValue: field.initialValue }` -/
def metaObject (field : String) : Tree :=
  Make.object
    [Make.keyValue "value" (fieldMember field "value"), Make.keyValue "error" (firstError field),
      Make.keyValue "initialValue" (fieldMember field "initialValue")]

def setterObject (s : Setting) (h : FieldHook) (form : String) : Tree :=
  Make.object [Make.keyValue "setValue" (setValue s h form), Make.keyValue "setTouched" (setTouched s)]

/-- What is declared for the first two places. -/
def readEntries (uses : List Use) (field : String) (values metas : Tree) : List (String × Tree) :=
  (values.takenKeys.map fun e => (e.2, fieldMember field e.1)) ++
    ((wholeName? uses metas).toList.map (·, metaObject field) ++
      metas.takenKeys.map fun e => (e.2, metaMember field e.1))

/-- What is declared for the third place. -/
def setterEntries (s : Setting) (uses : List Use) (taken : List String) (h : FieldHook) (form : String) (slot : Tree) :
    List (String × Tree) :=
  (wholeName? uses slot).toList.map (·, setterObject s h form) ++
    ((setterName? uses taken slot "setValue").toList.map (·, setValue s h form) ++
      (setterName? uses taken slot "setTouched").toList.map (·, setTouched s))

section Declarations

variable {α : Type} (s : Setting) (uses : List Use) (taken : List String) (h : FieldHook) (field form : String)

@[simp] theorem declarations_append (es es' : List (String × Tree)) :
    declarations (es ++ es') = declarations es ++ declarations es' :=
  List.map_append

@[simp] theorem declarations_map (f : α → String × Tree) (as : List α) :
    declarations (as.map f) = as.map fun a => Make.constNamed (f a).1 (f a).2 :=
  List.map_map

theorem wholeName?_binding (o : Origin) (x : String) (b : Bool) (ts : List Tree) :
    wholeName? uses (.pat o (.binding x b) ts) = if uses.contains (.ref x) then some x else none :=
  rfl

theorem wholeName?_eq_none {slot : Tree} (h : ∀ o x b ts, slot ≠ .pat o (.binding x b) ts) : wholeName? uses slot = none := by
  unfold wholeName?
  split
  next => exact (h _ _ _ _ rfl).elim
  next => rfl

/-- What is declared for the first two places are constants. -/
theorem readDecls_eq (values metas : Tree) :
    valueDecls field values ++ metaDecls uses field metas = declarations (readEntries uses field values metas) := by
  rw [valueDecls, readEntries]
  simp only [declarations_append, declarations_map]
  congr 1
  unfold metaDecls
  split
  next o x b ts =>
    have hno : (Tree.pat o (.binding x b) ts).takenKeys = [] := rfl
    rw [wholeName?_binding, hno, List.map_nil, List.append_nil]
    split <;> rfl
  next hno =>
    rw [wholeName?_eq_none uses hno]
    rfl

theorem map_fst_setterEntries (slot : Tree) :
    (setterEntries s uses taken h form slot).map (·.1) =
      (wholeName? uses slot).toList ++
        ((setterName? uses taken slot "setValue").toList ++ (setterName? uses taken slot "setTouched").toList) := by
  have hfirst : ∀ (x : Option String) (v : Tree), (x.toList.map (·, v)).map (·.1) = x.toList := by
    intro x v
    rw [List.map_map]
    exact List.map_id _
  rw [setterEntries, List.map_append, List.map_append, hfirst, hfirst, hfirst]

theorem map_fst_readEntries (values metas : Tree) :
    (readEntries uses field values metas).map (·.1) =
      values.takenKeys.map (·.2) ++ ((wholeName? uses metas).toList ++ metas.takenKeys.map (·.2)) := by
  simp only [readEntries, List.map_append, List.map_map]
  congr 2
  exact List.map_id _

/-- What is declared for the third place are constants, and their names are handed out. -/
theorem helperDecls_eq (slot : Tree) :
    helperDecls s uses taken h form slot =
      (declarations (setterEntries s uses taken h form slot),
        (setterEntries s uses taken h form slot).map (·.1)) := by
  rw [map_fst_setterEntries, setterEntries, declarations_append, declarations_append]
  simp only [declarations_map]
  unfold helperDecls
  dsimp only
  rw [← setterName?, ← setterName?]
  split
  next x _ _ =>
    rw [wholeName?_binding]
    split <;> simp [setterObject]
  next hno =>
    rw [wholeName?_eq_none uses hno]
    simp

end Declarations

/-! ## Outcomes -/

/-- A hook that is converted. -/
structure Site where
  hook : FieldHook
  /-- The name that the field goes by. -/
  field : String
  /-- The name that the form goes by. -/
  form : String
  /-- What is declared with values that are read off the field. -/
  reads : List (String × Tree)
  /-- What is declared with setters. -/
  helpers : List (String × Tree)

namespace Site

def inserted (c : Site) : List Tree := declarations (c.reads ++ c.helpers)

def setters (c : Site) : List String := c.helpers.map (·.1)

def handedOut (c : Site) : List String := c.setters ++ [c.form, c.field]

end Site

/-- A statement, and what comes of it. -/
structure Outcome where
  before : Tree
  after : Tree
  /-- The hook of the statement that is converted. -/
  site? : Option Site

namespace Outcome

def inserted (u : Outcome) : List Tree := u.site?.toList.flatMap Site.inserted

def setters (u : Outcome) : List String := u.site?.toList.flatMap Site.setters

def handedOut (u : Outcome) : List String := u.site?.toList.flatMap Site.handedOut

/-- The statements that stand in the place of the one. -/
def written (u : Outcome) : List Tree := u.after :: u.inserted

end Outcome

/-- The name that the field of the next hook goes by if it has none. -/
def Progress.nextField (p : Progress) : String :=
  freshName ("field" ++ if p.count == 0 then "" else toString p.count) p.taken

def Progress.nextForm (p : Progress) : String :=
  freshName ("form" ++ if p.count == 0 then "" else toString p.count) p.taken

def slot (h : FieldHook) (n : Nat) : Tree := (h.slots[n]?).getD .absent

def siteOf (s : Setting) (uses : List Use) (p : Progress) (h : FieldHook) : Site :=
  let field := (firstName? h.slots).getD p.nextField
  { hook := h
    field := field
    form := p.nextForm
    reads := readEntries uses field (h.slot 0) (h.slot 1)
    helpers := setterEntries s uses (p.nextForm :: field :: p.taken) h p.nextForm (h.slot 2) }

def outcome (s : Setting) (uses : List Use) (p : Progress) (t : Tree) : Outcome :=
  match convertStatement? s.names.useField p.nextField p.nextForm t with
  | none => { before := t, after := t, site? := none }
  | some (t', h) => { before := t, after := t', site? := some (siteOf s uses p h) }

def outcomes (s : Setting) (uses : List Use) : Progress → List Tree → List Outcome
  | _, [] => []
  | p, t :: ts => outcome s uses p t :: outcomes s uses (step s uses p t) ts

variable {s : Setting} {uses : List Use} {p : Progress} {t : Tree} {c : Site}

/-! ## One statement -/

/-- All that a step does is to put in the outcome and to keep account of its names. -/
theorem step_eq (s : Setting) (uses : List Use) (p : Progress) (t : Tree) :
    step s uses p t =
      { done := p.done ++ (outcome s uses p t).written
        taken := (outcome s uses p t).handedOut ++ p.taken
        setters := p.setters ++ (outcome s uses p t).setters
        count := p.count + (outcome s uses p t).site?.toList.length } := by
  unfold step outcome
  dsimp only
  rw [← Progress.nextField, ← Progress.nextForm]
  cases convertStatement? s.names.useField p.nextField p.nextForm t with
  | none => simp [Outcome.written, Outcome.inserted, Outcome.handedOut, Outcome.setters]
  | some r =>
      obtain ⟨t', h⟩ := r
      simp only [Outcome.written, Outcome.inserted, Outcome.handedOut, Outcome.setters, Site.handedOut, Site.inserted,
        Site.setters, siteOf, declarations_append, ← readDecls_eq, helperDecls_eq, slot, Option.toList_some,
        List.flatMap_singleton, List.append_assoc, List.cons_append, List.nil_append, List.length_singleton]

@[simp] theorem before_outcome (s : Setting) (uses : List Use) (p : Progress) (t : Tree) :
    (outcome s uses p t).before = t := by
  unfold outcome
  split <;> rfl

/-- What becomes of a statement with a hook. -/
theorem site_inv (hc : (outcome s uses p t).site? = some c) :
    ∃ o kw dcl pre d post, t = .stmt o (.vars kw dcl) (pre ++ d :: post) ∧
      (∀ e ∈ pre, ofDeclarator? s.names.useField e = none) ∧ ofDeclarator? s.names.useField d = some c.hook ∧
      (outcome s uses p t).after = .stmt o (.vars kw dcl) (pre ++ rebind c.field c.form d :: post) ∧
      c = siteOf s uses p c.hook := by
  unfold outcome at hc ⊢
  split at hc
  next => cases hc
  next t' h hconv =>
    cases hc
    obtain ⟨o, kw, dcl, pre, d, post, hd, rfl, rfl, hpre⟩ := convertStatement?_eq_some hconv
    exact ⟨o, kw, dcl, pre, d, post, rfl, hpre, hd, rfl, rfl⟩

/-- What is made of a statement's hook is determined by the hook and the names taken so far. -/
theorem eq_siteOf (hc : (outcome s uses p t).site? = some c) : c = siteOf s uses p c.hook := by
  obtain ⟨_, _, _, _, _, _, -, -, -, -, hsite⟩ := site_inv hc
  exact hsite

theorem reads_eq (hc : (outcome s uses p t).site? = some c) :
    c.reads = readEntries uses c.field (c.hook.slot 0) (c.hook.slot 1) := by
  rw [eq_siteOf hc]
  rfl

theorem helpers_eq (hc : (outcome s uses p t).site? = some c) :
    c.helpers = setterEntries s uses (c.form :: c.field :: p.taken) c.hook c.form (c.hook.slot 2) := by
  rw [eq_siteOf hc]
  rfl

/-- A statement without a hook stays as it is. -/
theorem after_of_site?_eq_none (hc : (outcome s uses p t).site? = none) : (outcome s uses p t).after = t := by
  unfold outcome at hc ⊢
  split at hc
  next => rfl
  next => cases hc

/-- A declarator with a hook, spelled out. -/
theorem exists_of_ofDeclarator? {hook : String} {d : Tree} {h : FieldHook} (hh : ofDeclarator? hook d = some h) :
    ∃ o b po pb rest e, d = .part o (.declarator b) [.pat po (.array pb) [.list h.slots, rest], e] ∧
      (e.callTo? hook).isSome = true := by
  unfold ofDeclarator? at hh
  split at hh
  next o b po pb slots rest e =>
    split at hh
    next hcall =>
      cases hh
      exact ⟨o, b, po, pb, rest, e, rfl, by rw [hcall]; rfl⟩
    next => cases hh
  next => cases hh

/-! ## A run -/

/-- A run over statements puts the outcomes in and keeps account of their names. -/
theorem foldl_step (s : Setting) (uses : List Use) (ss : List Tree) (p : Progress) :
    ss.foldl (step s uses) p =
      { done := p.done ++ (outcomes s uses p ss).flatMap Outcome.written
        taken := ((outcomes s uses p ss).reverse.flatMap Outcome.handedOut) ++ p.taken
        setters := p.setters ++ (outcomes s uses p ss).flatMap Outcome.setters
        count := p.count + ((outcomes s uses p ss).flatMap fun u => u.site?.toList).length } := by
  induction ss generalizing p with
  | nil => simp [outcomes]
  | cons t ss ih =>
      rw [List.foldl_cons, ih, step_eq]
      simp [outcomes, step_eq, Nat.add_assoc]

/-- Each statement has one outcome, in order. -/
theorem map_before_outcomes (s : Setting) (uses : List Use) (p : Progress) (ss : List Tree) :
    (outcomes s uses p ss).map Outcome.before = ss := by
  induction ss generalizing p with
  | nil => rfl
  | cons t ss ih => rw [outcomes, List.map_cons, before_outcome, ih]

/-- What comes of one of the statements is its outcome where the run has got to by then. Names that are taken stay so. -/
theorem exists_of_mem_outcomes {ss : List Tree} {u : Outcome} (hu : u ∈ outcomes s uses p ss) :
    ∃ p', u = outcome s uses p' u.before ∧ p.taken ⊆ p'.taken := by
  induction ss generalizing p with
  | nil => cases hu
  | cons t ss ih =>
      rcases List.mem_cons.mp hu with rfl | hu
      · exact ⟨p, by rw [before_outcome], List.Subset.refl _⟩
      · obtain ⟨p', heq, htaken⟩ := ih hu
        refine ⟨p', heq, fun x hx => htaken ?_⟩
        rw [step_eq]
        exact List.mem_append_right _ hx

/-- What comes of the statements of a body; an expression has none. -/
def bodyOutcomes (s : Setting) (body : Tree) : List Outcome :=
  match body.statements? with
  | some ss =>
      outcomes s body.uses { done := [], taken := Tree.declaredNames ss, setters := [], count := 0 } ss
  | none => []

/-- The outcomes of a block begin with those names taken that the block declares. -/
theorem bodyOutcomes_eq {body : Tree} {ss : List Tree} (hbody : body.statements? = some ss) :
    bodyOutcomes s body =
      outcomes s body.uses { done := [], taken := Tree.declaredNames ss, setters := [], count := 0 } ss := by
  rw [bodyOutcomes, hbody]

/-- Each outcome of a body is that of its statement, with the names that the body declares
taken. -/
theorem exists_of_mem_bodyOutcomes {body : Tree} {u : Outcome} (hu : u ∈ bodyOutcomes s body) :
    ∃ p', u = outcome s body.uses p' u.before ∧
      ∀ ss, body.statements? = some ss → Tree.declaredNames ss ⊆ p'.taken := by
  cases hbody : body.statements? with
  | some ss =>
      rw [bodyOutcomes_eq hbody] at hu
      obtain ⟨p', heq, htaken⟩ := exists_of_mem_outcomes hu
      refine ⟨p', heq, ?_⟩
      rintro _ ⟨⟩
      exact htaken
  | none =>
      rw [bodyOutcomes, hbody] at hu
      cases hu

end FormCodemod.FieldHook

import FormCodemod.Proofs.Convert.Declared
import FormCodemod.Proofs.FieldMarkup.Needs

/-!
# What markup reads is declared

Converted markup reads from the form and from its fields. A scope that needs them declares them afterwards, at most once
and with the fields right behind the form (`FieldMarkup.convertScope_declares`).

The fields are needed only where it was predicted that they would be, with one exception. A form becomes a `form`, and then
it is asked whether it is an error message. If messages are called `form`, it is (`formBody_declares`).
-/

namespace FormCodemod

theorem Tree.isExpression_of_isMarkup {t : Tree} (h : t.isMarkup = true) : t.isExpression = true := by
  unfold isMarkup at h
  split at h
  · rfl
  · rfl
  · cases h

namespace FieldMarkup

open FormCodemod.Tree (declaredNames declarationOf?)

variable {names : LibraryNames} {body : Tree} {needs : Needs} {ss ss' : List Tree}

/-! ## Statements -/

/-- The conversion of markup rewrites expressions only. -/
theorem rewritten_converted (names : LibraryNames) (bindings : List String) (t : Tree) :
    t.Rewritten (converted names bindings t) := by
  refine Tree.Rewritten.congruence.mapUp (fun t => ?_) Tree.opensScope t
  obtain ⟨n', hnode⟩ := exists_convertsNode names bindings t
  generalize convertedNode names bindings t = t' at hnode ⊢
  cases hnode with
  | kept => exact .refl t
  | message => exact .expression rfl (Tree.isExpression_of_isMarkup (errorMarkup_cases _).1)
  | element => exact .expression rfl rfl

def fieldsDecl : Tree := Capabilities.fieldsetHelper formName

/-- The ways to declare what markup needs. -/
inductive Declares (needs : Needs) (ss : List Tree) : List Tree → Prop
  | nothing : (needs.fieldset = true → fieldsName ∈ declaredNames ss) →
      (needs.form = true → formName ∈ declaredNames ss) → Declares needs ss ss
  | form : (needs.fieldset = true → fieldsName ∈ declaredNames ss) → needs.form = true →
      formName ∉ declaredNames ss → Declares needs ss (formDecl :: ss)
  | fields {i : Nat} : needs.fieldset = true → fieldsName ∉ declaredNames ss →
      declarationOf? formName ss = some i → Declares needs ss (insertAt (i + 1) [fieldsDecl] ss)
  | both : needs.fieldset = true → fieldsName ∉ declaredNames ss → formName ∉ declaredNames ss →
      Declares needs ss (formDecl :: fieldsDecl :: ss)

theorem declarationOf?_formDecl (ss : List Tree) : declarationOf? formName (formDecl :: ss) = some 0 := by
  rw [declarationOf?, List.findIdx?_cons]
  rfl

/-- Whether something has to be declared for a need. -/
theorem needs_and_not_anyDeclares {need : Bool} {x : String} :
    (need && !Tree.anyDeclares x ss) = true ↔ need = true ∧ x ∉ declaredNames ss := by
  rw [Bool.and_eq_true, Bool.not_eq_true', ← Bool.not_eq_true, Tree.anyDeclares_iff]

/-- What is declared for the needs of some statements. -/
theorem declares_declareNeeds (needs : Needs) (ss : List Tree) : Declares needs ss (declareNeeds needs ss).1 := by
  unfold declareNeeds
  dsimp only
  -- the fields need the form, so they are asked for first
  cases hfields : needs.fieldset && !Tree.anyDeclares fieldsName ss with
  | true =>
      obtain ⟨hneeds, hno⟩ := needs_and_not_anyDeclares.mp hfields
      rw [Bool.or_true, Bool.true_and]
      cases hform : declarationOf? formName ss with
      | some i =>
          rw [Tree.anyDeclares, hform]
          simp only [Option.isSome_some, Bool.not_true, Bool.false_eq_true, if_false, if_true, hform]
          exact .fields hneeds hno hform
      | none =>
          have hnoForm : formName ∉ declaredNames ss := by
            rw [← Tree.anyDeclares_iff, Tree.anyDeclares, hform]
            exact Bool.false_ne_true
          rw [Tree.anyDeclares, hform]
          simp only [Option.isSome_none, Bool.not_false, if_true, declarationOf?_formDecl]
          exact .both hneeds hno hnoForm
  | false =>
      have hdeclared : needs.fieldset = true → fieldsName ∈ declaredNames ss := by
        intro hneeds
        by_contra hno
        rw [needs_and_not_anyDeclares.mpr ⟨hneeds, hno⟩] at hfields
        cases hfields
      rw [Bool.or_false]
      cases hform : needs.form && !Tree.anyDeclares formName ss with
      | true =>
          obtain ⟨hneeds, hno⟩ := needs_and_not_anyDeclares.mp hform
          exact .form hdeclared hneeds hno
      | false =>
          refine .nothing hdeclared fun hneeds => ?_
          by_contra hno
          rw [needs_and_not_anyDeclares.mpr ⟨hneeds, hno⟩] at hform
          cases hform

/-- A declaration stays in its place when something is put in behind it. -/
theorem declarationOf?_insertAt {x : String} {i : Nat} {new : List Tree} (h : declarationOf? x ss = some i) :
    declarationOf? x (insertAt (i + 1) new ss) = some i := by
  rw [declarationOf?] at h ⊢
  have htake : (ss.take (i + 1)).findIdx? (Tree.declares x) = some i := by
    rw [List.findIdx?_take, h, Option.bind_some, Option.guard_eq_some_iff]
    exact ⟨rfl, decide_eq_true (Nat.lt_succ_self i)⟩
  rw [insertAt, List.append_assoc, List.findIdx?_append, htake, Option.some_or]

theorem getElem?_insertAt {t : Tree} {i : Nat} (h : i < ss.length) : (insertAt (i + 1) [t] ss)[i + 1]? = some t := by
  have hlength : (ss.take (i + 1)).length = i + 1 := List.length_take_of_le h
  rw [insertAt, List.append_assoc, List.getElem?_append_right (Nat.le_of_eq hlength), hlength, Nat.sub_self]
  rfl

namespace Declares

variable (h : Declares needs ss ss')
include h

theorem mem_fieldsName (hneeds : needs.fieldset = true) : fieldsName ∈ declaredNames ss' := by
  cases h with
  | nothing hfields => exact hfields hneeds
  | form hfields => exact List.mem_append_right _ (hfields hneeds)
  | fields => exact (Tree.declaredNames_insertAt ..).mem_iff.mpr (List.mem_append_right _ (List.mem_singleton.mpr rfl))
  | both => exact List.mem_append_right _ (List.mem_append_left _ (List.mem_singleton.mpr rfl))

theorem mem_formName (hneeds : needs.form = true) : formName ∈ declaredNames ss' := by
  cases h with
  | nothing _ hform => exact hform hneeds
  | form => exact List.mem_append_left _ (List.mem_singleton.mpr rfl)
  | fields _ _ hform => exact Tree.mem_declaredNames_of_declarationOf? (declarationOf?_insertAt hform)
  | both => exact List.mem_append_left _ (List.mem_singleton.mpr rfl)

/-- The fields are declared right behind the first statement that declares the form. -/
theorem behind_form (hneeds : needs.fieldset = true) (hno : fieldsName ∉ declaredNames ss) :
    ∃ i, declarationOf? formName ss' = some i ∧ ss'[i + 1]? = some fieldsDecl := by
  cases h with
  | nothing hfields => exact absurd (hfields hneeds) hno
  | form hfields => exact absurd (hfields hneeds) hno
  | @fields i _ _ hform =>
      have hlt : i < ss.length := (List.findIdx?_eq_some_iff_findIdx_eq.mp hform).1
      exact ⟨i, declarationOf?_insertAt hform, getElem?_insertAt hlt⟩
  | both => exact ⟨0, declarationOf?_formDecl _, rfl⟩

/-- What is declared in addition: the fields and the form, if they are needed and were not declared. -/
theorem declaredNames_perm : ∃ new : List String, (declaredNames ss').Perm (new ++ declaredNames ss) ∧ new.Nodup ∧
    ∀ x, x ∈ new ↔ x ∉ declaredNames ss ∧ (x = fieldsName ∧ needs.fieldset = true ∨
      x = formName ∧ (needs.form = true ∨ needs.fieldset = true ∧ fieldsName ∉ declaredNames ss)) := by
  cases h with
  | nothing hfields hform =>
      refine ⟨[], .refl _, .nil, fun x => iff_of_false nofun ?_⟩
      rintro ⟨hno, ⟨rfl, hneeds⟩ | ⟨rfl, hneeds | ⟨hneeds, hno'⟩⟩⟩
      · exact hno (hfields hneeds)
      · exact hno (hform hneeds)
      · exact hno' (hfields hneeds)
  | form hfields hneeds hno =>
      refine ⟨[formName], .refl _, by decide, fun x => List.mem_singleton.trans ⟨?_, ?_⟩⟩
      · rintro rfl
        exact ⟨hno, .inr ⟨rfl, .inl hneeds⟩⟩
      · rintro ⟨hno, ⟨rfl, hneeds⟩ | ⟨rfl, -⟩⟩
        · exact absurd (hfields hneeds) hno
        · rfl
  | fields hneeds hno hform =>
      have hdeclared : formName ∈ declaredNames ss := Tree.mem_declaredNames_of_declarationOf? hform
      refine ⟨[fieldsName], (Tree.declaredNames_insertAt ..).trans List.perm_append_comm, by decide,
        fun x => List.mem_singleton.trans ⟨?_, ?_⟩⟩
      · rintro rfl
        exact ⟨hno, .inl ⟨rfl, hneeds⟩⟩
      · rintro ⟨hno, ⟨rfl, -⟩ | ⟨rfl, -⟩⟩
        · rfl
        · exact absurd hdeclared hno
  | both hneeds hno hno' =>
      refine ⟨[formName, fieldsName], .refl _, by decide, fun x => List.mem_pair.trans ⟨?_, ?_⟩⟩
      · rintro (rfl | rfl)
        · exact ⟨hno', .inr ⟨rfl, .inr ⟨hneeds, hno⟩⟩⟩
        · exact ⟨hno, .inl ⟨rfl, hneeds⟩⟩
      · rintro ⟨-, ⟨rfl, -⟩ | ⟨rfl, -⟩⟩
        · exact .inr rfl
        · exact .inl rfl

end Declares

/-! ## Scopes -/

def scopeNeeds (names : LibraryNames) (body : Tree) : Needs := needsOf names (hookBindings names.useField body) body

/-- A converted scope declares what its markup needs, around its statements. -/
theorem declares_convertScope (names : LibraryNames) (body : Tree) :
    Declares (scopeNeeds names body) (converted names (hookBindings names.useField body) body).statements
      (convertScope names body).1.statements := by
  rw [← fst_run_mapUpM_convertNode body {}, scopeNeeds, needsOf]
  unfold convertScope
  dsimp only
  generalize (body.mapUpM Tree.opensScope (convertNode names (hookBindings names.useField body))).run {} = r
  obtain ⟨body', needs⟩ := r
  dsimp only
  split
  · rw [Tree.statements_withStatements]
    exact declares_declareNeeds ..
  next hneeds =>
    rw [Bool.or_eq_true, not_or] at hneeds
    exact .nothing (fun h => absurd h hneeds.1) fun h => absurd h hneeds.2

/-- **What markup reads is declared.** A scope needs the form's fields only if that was predicted, or if messages are called
`form` and a form was taken for one. What it needs it declares afterwards, the fields right behind the first declaration
of the form if it did not declare them before. It declares nothing else in addition, and nothing that it declared. -/
theorem convertScope_declares (names : LibraryNames) (body : Tree) :
    ((scopeNeeds names body).fieldset = true →
        (body.rendersFields names = true ∨ names.errorMessage = "form" ∧ body.holds names.form = true) ∧
          fieldsName ∈ declaredNames (convertScope names body).1.statements) ∧
      ((scopeNeeds names body).form = true → formName ∈ declaredNames (convertScope names body).1.statements) ∧
      ((scopeNeeds names body).fieldset = true → fieldsName ∉ declaredNames body.statements →
        ∃ i, declarationOf? formName (convertScope names body).1.statements = some i ∧
          (convertScope names body).1.statements[i + 1]? = some fieldsDecl) ∧
      ∃ new : List String,
        (declaredNames (convertScope names body).1.statements).Perm (new ++ declaredNames body.statements) ∧
          new.Nodup ∧
          ∀ x, x ∈ new ↔ x ∉ declaredNames body.statements ∧
            (x = fieldsName ∧ (scopeNeeds names body).fieldset = true ∨
              x = formName ∧ ((scopeNeeds names body).form = true ∨
                (scopeNeeds names body).fieldset = true ∧ fieldsName ∉ declaredNames body.statements)) := by
  have hdeclares := declares_convertScope names body
  have hnames := (rewritten_converted names (hookBindings names.useField body) body).declaredNames_statements
  have hbehind := hdeclares.behind_form
  have hnew := hdeclares.declaredNames_perm
  rw [hnames] at hbehind hnew
  exact ⟨fun h => ⟨rendersFields_of_needs h, hdeclares.mem_fieldsName h⟩, hdeclares.mem_formName, hbehind, hnew⟩

/-- `{ return <Form/>; }` -/
def formBody : Tree := Make.block [Make.ret (Make.element "Form" [] [])]

/-- The form is replaced by the errors of a field, for which the fields are declared, though nothing reads from the fields. -/
theorem formBody_declares :
    formBody.rendersFields { errorMessage := "form" } = false ∧ formBody.holds "Form" = true ∧
      (scopeNeeds { errorMessage := "form" } formBody).fieldset = true ∧
      fieldsName ∈ declaredNames (convertScope { errorMessage := "form" } formBody).1.statements ∧
      (convertScope { errorMessage := "form" } formBody).1.holds "form" = false ∧
      ∃ i, declarationOf? formName (convertScope { errorMessage := "form" } formBody).1.statements = some i ∧
        (convertScope { errorMessage := "form" } formBody).1.statements[i + 1]? = some fieldsDecl := by
  have hneeds : (scopeNeeds { errorMessage := "form" } formBody).fieldset = true := by decide
  obtain ⟨hfields, -, hbehind, -⟩ := convertScope_declares { errorMessage := "form" } formBody
  exact ⟨by decide, by decide, hneeds, (hfields hneeds).2, by decide, hbehind hneeds (by decide)⟩

end FieldMarkup

end FormCodemod

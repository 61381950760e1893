import Mathlib.Data.List.Flatten
import FormCodemod.Proofs.Context.Hooks
import FormCodemod.Proofs.FieldHook.Declared
import FormCodemod.Proofs.FieldHook.Reads

/-!
# Names that a scope with field hooks binds

The conversion looks for names among those of variables, functions and classes (`Tree.declaredNames`), and never declares one
of them twice. A block binds more: the variables that are disposed of at its end, enumerations and namespaces
(`Tree.otherNames`). So a name can be handed out that such a statement binds already, and
`FieldHook.convertScope_names` says that this is the only way for a name to be bound twice.
-/

namespace FormCodemod

open FormCodemod.Tree (declaredNames)

namespace Tree

variable {t t' : Tree} {ss : List Tree}

/-! ## Names beside the declared ones -/

/-- The names that a statement binds in its block and that are not looked at: those of variables that are disposed of, of
enumerations and of namespaces. -/
def otherNames : Tree → List String
  | .stmt _ (.using _) ds => ds.flatMap fun d => d.declaredPattern.boundNames
  | .stmt _ (.enum _ _) (name :: _) => name.tag?.toList
  | .stmt _ (.space _ _) (.list (name :: _) :: _) => name.tag?.toList
  | _ => []

/-- A statement binds the names that are looked at and some others. -/
theorem blockNames_eq (t : Tree) : t.blockNames = t.declared ++ t.otherNames := by
  unfold blockNames
  split
  next => rfl
  next => rfl
  next => rfl
  next husing henum hspace =>
    have hnone : t.otherNames = [] := by
      unfold otherNames
      split
      next => exact (husing _ _ _ rfl).elim
      next => exact (henum _ _ _ _ _ rfl).elim
      next => exact (hspace _ _ _ _ _ _ rfl).elim
      next => rfl
    rw [hnone, List.append_nil]

/-- The names that a block binds are the declared ones and the others. -/
theorem perm_blockNames (ss : List Tree) :
    (ss.flatMap blockNames).Perm (declaredNames ss ++ ss.flatMap otherNames) := by
  have hparts : ss.flatMap blockNames = ss.flatMap fun t => t.declared ++ t.otherNames :=
    List.flatMap_congr fun t _ => blockNames_eq t
  rw [hparts]
  exact (List.flatMap_append_perm ss declared otherNames).symm

/-- An expression in the place of another changes none of these names. -/
theorem Rewritten.otherNames_eq (h : Rewritten t t') : t'.otherNames = t.otherNames := by
  have hnone : ∀ {u : Tree}, u.isExpression = true → u.otherNames = [] := by
    intro u hu
    unfold otherNames
    split <;> first | rfl | cases hu
  -- an expression is no group of names
  have hspace : ∀ {o : Origin} {a : Bool} {b : String} {u : Tree} {ts : List Tree}, u.isExpression = true →
      (Tree.stmt o (.space a b) (u :: ts)).otherNames = [] := by
    intro o a b u ts hu
    cases u with
    | node => rfl
    | list => cases hu
    | absent => rfl
  cases h with
  | expression h h' => rw [hnone h, hnone h']
  | @node o k ts ts' h =>
      cases k with
      | stmt k =>
          cases k with
          | «using» a => exact flatMap_eq_of_map_eq (map_eq_of_forall₂ (h.imp fun _ _ h => h.declarator_eq.1))
          | enum a b =>
              cases h with
              | nil => rfl
              | cons hname _ => exact congrArg Option.toList hname.declarator_eq.2
          | space a b =>
              cases h with
              | nil => rfl
              | cons hnames _ =>
                  cases hnames with
                  | expression h h' =>
                      rw [hspace h, hspace h']
                  | node => rfl
                  | list hnames =>
                      cases hnames with
                      | nil => rfl
                      | cons hname _ => exact congrArg Option.toList hname.declarator_eq.2
                  | absent => rfl
          | _ => rfl
      | _ => rfl
  | list h => rfl
  | absent => rfl

theorem isExpression_of_unparen (h : t.unparen.isExpression = true) : t.isExpression = true := by
  unfold unparen at h
  split at h
  next => rfl
  next => exact h

end Tree

namespace FieldHook

variable {s : Setting} {uses : List Use} {p : Progress} {t : Tree} {ss : List Tree} {c : Site} {setters : List String}

/-- To drop awaits rewrites expressions only. -/
theorem rewritten_withoutAwaits (setters : List String) (t : Tree) : t.Rewritten (withoutAwaits setters t) := by
  refine Tree.Rewritten.congruence.mapUp ?_ Tree.opensScope t
  intro t
  unfold dropAwait
  split
  next o e =>
    split
    next hcalls =>
      refine .expression rfl (Tree.isExpression_of_unparen ?_)
      unfold callsSetter at hcalls
      split at hcalls
      next heq =>
        rw [heq]
        rfl
      next => cases hcalls
    next => exact .refl _
  next => exact .refl _

/-- A statement binds the other names that it bound before. -/
theorem otherNames_written (s : Setting) (uses : List Use) (p : Progress) (t : Tree) :
    (outcome s uses p t).written.flatMap Tree.otherNames = t.otherNames := by
  have hinserted : ∀ es, (declarations es).flatMap Tree.otherNames = [] := by
    intro es
    rw [List.flatMap_eq_nil_iff]
    intro d hd
    obtain ⟨e, -, rfl⟩ := List.mem_map.mp hd
    rfl
  rw [Outcome.written, Outcome.inserted, List.flatMap_cons]
  cases hc : (outcome s uses p t).site? with
  | none =>
      rw [after_of_site?_eq_none hc]
      exact List.append_nil _
  | some c =>
      obtain ⟨o, kw, dcl, pre, d, post, rfl, -, -, hafter, -⟩ := site_inv hc
      rw [hafter, Option.toList_some, List.flatMap_singleton, Site.inserted, hinserted]
      rfl

/-- Converting hooks neither adds nor removes names that are not looked at. -/
theorem otherNames_outcomes (s : Setting) (uses : List Use) (p : Progress) (ss : List Tree) :
    ((outcomes s uses p ss).flatMap Outcome.written).flatMap Tree.otherNames = ss.flatMap Tree.otherNames := by
  induction ss generalizing p with
  | nil => rfl
  | cons t ss ih =>
      rw [outcomes, List.flatMap_cons, List.flatMap_append, otherNames_written, ih, List.flatMap_cons]

/-! ## Scopes -/

def sites (s : Setting) (body : Tree) : List Site := (bodyOutcomes s body).flatMap fun u => u.site?.toList

/-- What becomes of a hook: its declarator binds a field and a form, and no statement declared the form's name. What is
declared behind its statement refers to the two, and to what the name of the field and the type of its value do. -/
structure IsConverted (hook : String) (ss : List Tree) (setters : List String) (u : Outcome) (c : Site) : Prop where
  hook : ∃ d ∈ u.before.stmtDeclarators, ofDeclarator? hook d = some c.hook
  binds : ∃ d ∈ (withoutAwaits setters u.after).stmtDeclarators, d.declaredPattern = Make.arrayPat [c.field, c.form]
  form : c.form ∉ declaredNames ss
  reads : ∀ d ∈ u.inserted, ∀ x, (withoutAwaits setters d).FreeIn x →
    x = c.field ∨ x = c.form ∨ Mentions setters x c.hook.name ∨ Mentions setters x c.hook.valueType

/-- The statements of a converted scope are what comes of the old ones, without awaits of
setters. -/
theorem statements_convertScope {body : Tree} (hbody : body.statements? = some ss) :
    (convertScope s body).statements =
      ((bodyOutcomes s body).flatMap Outcome.written).map (withoutAwaits (madeSetters s body)) := by
  obtain ⟨o, rfl⟩ := Tree.eq_block_of_statements? hbody
  rw [convertScope_eq, rebound, hbody]
  exact congrArg (fun ts => (Tree.stmt o .block ts).statements) (Tree.mapUpAll_eq_map ..)

/-- Declarators stay where they are when awaits are dropped. -/
theorem getElem?_stmtDeclarators {j : Nat} {d : Tree} (hd : t.stmtDeclarators[j]? = some d) :
    (withoutAwaits setters t).stmtDeclarators[j]? = some (withoutAwaits setters d) := by
  have hmap : ∀ {ds : List Tree}, ds[j]? = some d →
      (ds.map (withoutAwaits setters))[j]? = some (withoutAwaits setters d) := by
    intro ds hd
    rw [List.getElem?_map, hd]
    rfl
  unfold Tree.stmtDeclarators at hd
  split at hd
  next =>
    rw [withoutAwaits_eq rfl rfl]
    exact hmap hd
  next =>
    rw [withoutAwaits_eq rfl rfl]
    exact hmap hd
  next => cases hd

/-- What a declarator with a pattern of places binds stays when awaits are dropped. -/
theorem declaredPattern_withoutAwaits_rebind {hook field form : String} {d : Tree} {h : FieldHook}
    (hd : ofDeclarator? hook d = some h) :
    (withoutAwaits setters (rebind field form d)).declaredPattern = Make.arrayPat [field, form] := by
  obtain ⟨o, b, po, pb, rest, e, rfl, -⟩ := exists_of_ofDeclarator? hd
  rfl

/-- What becomes of each hook of a scope that is converted. -/
theorem isConverted_of_mem {body : Tree} {u : Outcome} (hbody : body.statements? = some ss)
    (hu : u ∈ bodyOutcomes s body) (hc : u.site? = some c) :
    IsConverted s.names.useField ss setters u c := by
  obtain ⟨p, hu, htaken⟩ := exists_of_mem_bodyOutcomes hu
  rw [hu] at hc
  obtain ⟨o, kw, dcl, pre, d, post, hbefore, -, hd, hafter, hsite⟩ := site_inv hc
  refine ⟨⟨d, ?_, hd⟩, ⟨withoutAwaits setters (rebind c.field c.form d), ?_, ?_⟩, ?_, ?_⟩
  · rw [hbefore]
    exact List.mem_append_right _ (List.mem_cons_self ..)
  · refine List.mem_of_getElem? (getElem?_stmtDeclarators (j := pre.length) ?_)
    rw [hu, hafter]
    show (pre ++ rebind c.field c.form d :: post)[pre.length]? = _
    simp
  · exact declaredPattern_withoutAwaits_rebind hd
  · have hform : c.form = p.nextForm := by
      rw [hsite]
      rfl
    rw [hform]
    exact fun hmem => freshName_not_mem _ _ (htaken ss hbody hmem)
  · intro d hd x hx
    refine mentions_of_mem_inserted hc ?_ hx
    rw [hu, Outcome.inserted, hc] at hd
    simpa using hd

/-- The names that the hooks' declarators bind are among those that the statements declare. -/
theorem pairs_sublist (s : Setting) (body : Tree) :
    ((sites s body).flatMap fun c => [c.field, c.form]).Sublist
      (declaredNames ((bodyOutcomes s body).flatMap Outcome.written)) := by
  rw [sites, List.flatMap_assoc, Tree.declaredNames, List.flatMap_assoc]
  refine List.Sublist.flatMap_right _ fun u hu => ?_
  obtain ⟨p, hu, -⟩ := exists_of_mem_bodyOutcomes hu
  cases hc : u.site? with
  | none => exact List.nil_sublist _
  | some c =>
      have hsite := hc
      rw [hu] at hsite
      obtain ⟨o, kw, dcl, pre, d, post, -, -, hd, hafter, -⟩ := site_inv hsite
      obtain ⟨od, b, po, pb, rest, e, rfl, -⟩ := exists_of_ofDeclarator? hd
      have hhere : [c.field, c.form].Sublist u.after.declared := by
        rw [hu, hafter, Tree.declared, List.flatMap_append, List.flatMap_cons]
        exact (List.sublist_append_left _ _).trans (List.sublist_append_right _ _)
      exact hhere.trans (List.sublist_append_left _ _)

/-- What a scope binds whose hooks are converted. Its statements, which bind no name twice, declare none twice
afterwards either, and they bind one twice exactly if one of the names that were brought in is that of an enumeration, of a
namespace or of a variable that is disposed of. The names of the fields and forms of all hooks are different from each
other. -/
theorem convertScope_names (s : Setting) {body : Tree} {ss : List Tree} (hbody : body.statements? = some ss)
    (hss : (ss.flatMap Tree.blockNames).Nodup) :
    (bodyOutcomes s body).map Outcome.before = ss ∧
    (convertScope s body).statements =
      ((bodyOutcomes s body).flatMap Outcome.written).map (withoutAwaits (madeSetters s body)) ∧
    (declaredNames (convertScope s body).statements).Nodup ∧
    (((convertScope s body).statements.flatMap Tree.blockNames).Nodup ↔
      ∀ x ∈ declaredNames (convertScope s body).statements, x ∉ declaredNames ss → x ∉ ss.flatMap Tree.blockNames) ∧
    ((sites s body).flatMap fun c => [c.field, c.form]).Nodup ∧
    ∀ u ∈ bodyOutcomes s body, ∀ c, u.site? = some c →
      IsConverted s.names.useField ss (madeSetters s body) u c := by
  have hstatements := statements_convertScope (s := s) hbody
  have hbefore := hss
  rw [(Tree.perm_blockNames ss).nodup_iff] at hbefore
  obtain ⟨hdeclared, hothers, hdisjoint⟩ := List.nodup_append'.mp hbefore
  have hnodup : (declaredNames ((bodyOutcomes s body).flatMap Outcome.written)).Nodup := by
    rw [bodyOutcomes_eq hbody]
    exact nodup_declaredNames s body.uses hdeclared (List.Subset.refl _)
  have hsame : declaredNames (convertScope s body).statements =
      declaredNames ((bodyOutcomes s body).flatMap Outcome.written) := by
    rw [hstatements]
    exact Tree.declaredNames_map (rewritten_withoutAwaits _) _
  have hkept : (convertScope s body).statements.flatMap Tree.otherNames = ss.flatMap Tree.otherNames := by
    rw [hstatements, List.flatMap_map]
    have hscrub : ∀ t, (withoutAwaits (madeSetters s body) t).otherNames = t.otherNames :=
      fun t => (rewritten_withoutAwaits _ t).otherNames_eq
    simp only [hscrub]
    rw [bodyOutcomes_eq hbody, otherNames_outcomes]
  refine ⟨?_, hstatements, hsame ▸ hnodup, ?_, (pairs_sublist s body).nodup hnodup, ?_⟩
  · rw [bodyOutcomes_eq hbody]
    exact map_before_outcomes ..
  · rw [(Tree.perm_blockNames _).nodup_iff, hkept, Context.nodup_append_iff_of_nodup (hsame ▸ hnodup) hothers]
    have hmem : ∀ x, x ∈ ss.flatMap Tree.blockNames ↔ x ∈ declaredNames ss ∨ x ∈ ss.flatMap Tree.otherNames := by
      intro x
      rw [(Tree.perm_blockNames ss).mem_iff, List.mem_append]
    constructor
    · intro h x hx hnew hbound
      exact h x (((hmem x).mp hbound).resolve_left hnew) hx
    · intro h x hx hdecl
      -- a name that was declared before is none of the others
      refine h x hdecl (fun hold => hdisjoint hold hx) ?_
      exact (hmem x).mpr (.inr hx)
  · intro u hu c hc
    exact isConverted_of_mem hbody hu hc

/-- `{ enum form { Idle } const [{ value }] = useField("a"); return value; }` -/
def enumBody : Tree :=
  Make.block
    [.stmt .made (.enum false false) [Make.name "form", .list [.part .made .enumMember [Make.name "Idle", .absent]]],
    Make.const (.pat .made (.array false) [.list [Make.objectPat ["value"]], .absent])
      (Make.callNamed "useField" [Make.str "a"]),
    Make.ret (Make.ident "value")]

/-- The form of the hook is called `form`, and so is the enumeration. -/
theorem enumBody_names :
    (enumBody.statements.flatMap Tree.blockNames).Nodup ∧
      ((sites ⟨{}, false⟩ enumBody).map Site.form = ["form"]) ∧
      ¬ ((convertScope ⟨{}, false⟩ enumBody).statements.flatMap Tree.blockNames).Nodup := by
  refine ⟨by decide, by decide, fun h => ?_⟩
  have hnew := (convertScope_names ⟨{}, false⟩ rfl (by decide)).2.2.2.1.mp h "form" (by decide) (by decide)
  exact hnew (by decide)

end FieldHook

end FormCodemod

import FormCodemod.Proofs.Convert.Declared
import FormCodemod.Proofs.Wrapper.Converted

/-!
# Names declared by the conversion of a wrapper

A converted scope declares what it declared before, the hook's two names, what the render function declared and the
names of the helpers. `convertScope_declares_once` says when these are distinct.

What nobody looks at is whether the component and its render function, which are one block from then on, have a name in
common, and whether one of them has a name that the conversion brings in: those of the hook, `update`, and the names
that the parameter of the render function gave to capabilities. A capability that goes by its own name is never
declared twice.
-/

namespace FormCodemod.FormWrapper

open FormCodemod.Tree (declaredNames)

variable {setting : Setting} {body body' mid : Tree} {σ : Symbols} {e : Element} {r : Rendering} {h a : Nat}
  {own : List Tree} {x : String}

/-- Lists that are each free of repetitions are so together exactly if they are apart. Of the last one, only the given
items can be in the others. -/
theorem nodup_parts_iff {outer fixed inner last : List String} {IsGiven : String → Prop} (houter : outer.Nodup)
    (hfixed : fixed.Nodup) (hinner : inner.Nodup) (hlast : ∀ x ∈ last, IsGiven x ∨ x ∉ outer ++ fixed ++ inner) :
    (outer ++ fixed ++ inner ++ last).Nodup ↔
      outer.Disjoint inner ∧ (∀ x ∈ fixed, x ∉ outer ++ inner) ∧ last.Nodup ∧
        ∀ x ∈ last, IsGiven x → x ∉ outer ++ fixed ++ inner := by
  rw [List.nodup_append', List.nodup_append', List.nodup_append', List.disjoint_append_left]
  constructor
  · rintro ⟨⟨⟨-, -, hof⟩, -, hoi, hfi⟩, hnodup, hapart⟩
    refine ⟨hoi, fun x hx hmem => ?_, hnodup, fun x hx _ hmem => hapart hmem hx⟩
    rcases List.mem_append.mp hmem with hmem | hmem
    · exact hof hmem hx
    · exact hfi hx hmem
  · rintro ⟨hoi, hfoi, hnodup, hgiven⟩
    refine ⟨⟨⟨houter, hfixed, fun x ho hf => ?_⟩, hinner, hoi, fun x hf hi => ?_⟩, hnodup, fun x hmem hx => ?_⟩
    · exact hfoi x hf (List.mem_append_left _ ho)
    · exact hfoi x hf (List.mem_append_right _ hi)
    · rcases hlast x hx with h | h
      · exact hgiven x hx h hmem
      · exact h hmem

/-- Helpers declare names of the wrapper's parameter, or what is read and not declared. -/
theorem mem_declaredNames_helpersOf {param : Tree} (hx : x ∈ declaredNames (helpersOf setting param mid)) :
    x = "update" ∨ x ∈ param.boundNames ∨ x ∈ flattened ∧ x ∉ declaredNames mid.statements := by
  rw [helpersOf, Tree.declaredNames_append, List.mem_append, Capabilities.declaredNames_wholeHelper,
    Capabilities.declaredNames_helpers] at hx
  rcases hx with hx | hx
  · have hwhole := (Option.filter_eq_some_iff.mp (Option.mem_toList.mp hx)).1
    rw [Tree.boundNames_of_wholeBinding? hwhole]
    exact .inr (.inl (List.mem_singleton.mpr rfl))
  · rcases Capabilities.mem_helped hx with hx | hx | hx
    · exact .inl hx
    · cases hx.1
    · rcases Capabilities.mem_names_resolve hx with ⟨k, hk⟩ | ⟨hflat, -, hno⟩
      · exact .inr (.inl (Tree.mem_boundNames_of_takenNames hk))
      · exact .inr (.inr ⟨hflat, hno⟩)

namespace Converted

theorem declaredNames_own (hc : Converted setting body e r h a own mid body') :
    declaredNames own = declaredNames body.statements := by
  rw [hc.own_eq, statements_rewrite hc.inside, Tree.declaredNames_map (rewritten_rewrite setting.names hc.inside)]

theorem declaredNames_mid (hc : Converted setting body e r h a own mid body') :
    (declaredNames mid.statements).Perm
      (declaredNames body.statements ++ [formName, fieldsName] ++ declaredNames r.setup) := by
  have hhook : declaredNames [r.param.convertReads (hook (hookOptions e.attrs) e.typeArgs)] = [formName, fieldsName] :=
    Tree.declaredNames_map (Tree.rewritten_convertReads r.param) [hook (hookOptions e.attrs) e.typeArgs]
  rw [hc.mid_eq, ← hc.declaredNames_own, ← hhook, ← Tree.declaredNames_map (Tree.rewritten_convertReads r.param) r.setup]
  exact (Tree.declaredNames_insertAt ..).trans ((Tree.declaredNames_insertAt ..).append_right _)

/-- All that a converted scope declares: its own names, the hook's, and those of the prelude
and the helpers. -/
theorem declaredNames_body (hc : Converted setting body e r h a own mid body') :
    (declaredNames body'.statements).Perm
      (declaredNames body.statements ++ [formName, fieldsName] ++ declaredNames r.setup ++
        declaredNames (helpersOf setting r.param mid)) := by
  rw [hc.body_eq]
  exact (Tree.declaredNames_insertAt ..).trans (hc.declaredNames_mid.append_right _)

end Converted

/-- A scope that declares no name twice, and whose render function does not either, is converted to one that declares no
name twice exactly if no name is in both of them, neither has one of the hook's names, and no helper has the name of
another or a name that was brought in without a look at the names that are declared. -/
theorem convertScope_declares_once (setting : Setting) (body body' : Tree) (σ : Symbols)
    (hok : convertScope setting body = .ok (body', σ)) (houter : (declaredNames body.statements).Nodup) :
    ((∀ p e, ¬ StandsAt setting.names body p e) → body' = body) ∧
    ∀ p e r, StandsAt setting.names body p e → Rendering.Inside e r → (declaredNames r.setup).Nodup →
      ∃ helped : List String,
        (declaredNames body'.statements).Perm
          (declaredNames body.statements ++ [formName, fieldsName] ++ declaredNames r.setup ++ helped) ∧
        (∀ x ∈ helped, x = "update" ∨ x ∈ r.param.boundNames ∨
          x ∈ flattened ∧ x ∉ declaredNames body.statements ++ [formName, fieldsName] ++ declaredNames r.setup) ∧
        ((declaredNames body'.statements).Nodup ↔
          (declaredNames body.statements).Disjoint (declaredNames r.setup) ∧
          (∀ x ∈ [formName, fieldsName], x ∉ declaredNames body.statements ++ declaredNames r.setup) ∧
          helped.Nodup ∧
          ∀ x ∈ helped, x = "update" ∨ x ∈ r.param.boundNames →
            x ∉ declaredNames body.statements ++ [formName, fieldsName] ++ declaredNames r.setup) := by
  refine ⟨fun hno => convertScope_of_none hok hno, ?_⟩
  intro p e r he hinside hinner
  obtain ⟨r', h, a, own, mid, hc⟩ := exists_converted hok he
  obtain rfl := hinside.unique hc.inside
  -- of the names of helpers only those of reads are looked up first
  have hhelped : ∀ x ∈ declaredNames (helpersOf setting r.param mid), x = "update" ∨ x ∈ r.param.boundNames ∨
      x ∈ flattened ∧ x ∉ declaredNames body.statements ++ [formName, fieldsName] ++ declaredNames r.setup := by
    intro x hx
    rw [← hc.declaredNames_mid.mem_iff]
    exact mem_declaredNames_helpersOf hx
  refine ⟨_, hc.declaredNames_body, hhelped, ?_⟩
  rw [hc.declaredNames_body.nodup_iff]
  refine nodup_parts_iff houter (by decide) hinner fun x hx => ?_
  exact or_assoc.mpr ((hhelped x hx).imp_right (Or.imp_right And.right))

/-- `<Formik onSubmit={save}>{() => <form ref={form}/>}</Formik>` -/
def plainForm : Element :=
  { origin := .made, asValue := false, selfClosing := false, name := Make.name "Formik",
    attrs := [Make.exprAttr "onSubmit" (Make.ident "save")], typeArgs := .absent,
    children := [Make.container (Make.arrow [] (Make.element "form" [Make.exprAttr "ref" (Make.ident "form")] []))],
    closing := Make.name "Formik" }

/-- `{ const form = useRef(); return <Formik ..>..</Formik>; }` -/
def refBody : Tree :=
  Make.block [Make.constNamed "form" (Make.callNamed "useRef" []), Make.ret plainForm.toTree]

/-- A variable of the component that is called `form` is declared a second time, by the hook. -/
theorem refBody_declares_twice :
    (declaredNames refBody.statements).Nodup ∧ ∃ body' σ, convertScope ⟨{}, false⟩ refBody = .ok (body', σ) ∧
      ¬ (declaredNames body'.statements).Nodup := by
  refine ⟨by decide, _, _, rfl, fun hnodup => ?_⟩
  obtain ⟨p, hp⟩ : ∃ p, StandsAt {} refBody p plainForm :=
    mem_wrappers_iff.mp (show plainForm ∈ [plainForm] from List.mem_singleton.mpr rfl)
  have hinside : Rendering.Inside plainForm _ := (Rendering.ofElement_eq_ok_iff plainForm).mp rfl
  obtain ⟨helped, -, -, hiff⟩ :=
    (convertScope_declares_once ⟨{}, false⟩ refBody _ _ rfl (by decide)).2 p plainForm _ hp hinside (by decide)
  exact (hiff.mp hnodup).2.1 "form" (by decide) (by decide)

end FormCodemod.FormWrapper

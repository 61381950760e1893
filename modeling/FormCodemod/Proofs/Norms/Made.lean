import FormCodemod.Convert.Capabilities
import FormCodemod.Proofs.Names.Made
import FormCodemod.Proofs.Norms.Basic

/-!
# Norms and made code

Made code keeps to a norm if the trees that it is made from do. It holds types only in the parameters of
made functions, and only where functions have types (`Norm.Allows`).
-/

namespace FormCodemod

/-- Where made functions have types, there may be types. -/
def Norm.Allows (n : Norm) (s : Setting) : Prop := s.typed = true → n.types = true

variable {n : Norm}

namespace Make

variable {x : String} {e f k v p : Tree} {o : Origin} {ts args : List Tree}

@[simp] theorem meets_ident : (ident x).Meets n := by simp [ident]

@[simp] theorem meets_str : (str x).Meets n := by simp [str]

@[simp] theorem meets_bool {b : Bool} : (bool b).Meets n := by simp [bool]

@[simp] theorem meets_name : (name x).Meets n := by simp [name]

@[simp] theorem meets_call : (call f args).Meets n ↔ f.Meets n ∧ ∀ a ∈ args, a.Meets n := by simp [call]

@[simp] theorem meets_callNamed : (callNamed x args).Meets n ↔ ∀ a ∈ args, a.Meets n := by simp [callNamed]

@[simp] theorem meets_member : (member e x).Meets n ↔ e.Meets n := by simp [member, key]

@[simp] theorem meets_index : (index e k).Meets n ↔ e.Meets n ∧ k.Meets n := by simp [index]

@[simp] theorem meets_keyValue : (keyValue x v).Meets n ↔ v.Meets n := by simp [keyValue, key]

@[simp] theorem meets_object : (object ts).Meets n ↔ ∀ t ∈ ts, t.Meets n := by simp [object]

@[simp] theorem meets_arrow : (arrow ts e).Meets n ↔ (∀ t ∈ ts, t.Meets n) ∧ e.Meets n := by simp [arrow]

@[simp] theorem meets_binding : (binding x).Meets n := by simp [binding]

@[simp] theorem meets_arrayPat {xs : List String} : (arrayPat xs).Meets n := by simp [arrayPat]

@[simp] theorem meets_objectPat {xs : List String} : (objectPat xs).Meets n := by simp [objectPat]

@[simp] theorem meets_block : (block ts).Meets n ↔ ∀ t ∈ ts, t.Meets n := by simp [block]

@[simp] theorem meets_constFrom : (constFrom o p e).Meets n ↔ p.Meets n ∧ e.Meets n := by simp [constFrom]

@[simp] theorem meets_constNamed : (constNamed x e).Meets n ↔ e.Meets n := by simp [constNamed, const]

@[simp] theorem meets_attr : (attr x v).Meets n ↔ v.Meets n := by simp [attr, key]

@[simp] theorem meets_container : (container e).Meets n ↔ e.Meets n := by simp [container]

end Make

/-! ## Bodies -/

namespace Tree

variable {body : Tree} {ss : List Tree}

theorem Meets.statements? (h : body.Meets n) (hss : body.statements? = some ss) : ∀ t ∈ ss, t.Meets n := by
  unfold Tree.statements? at hss
  split at hss
  · cases hss
    simpa using h
  · cases hss

theorem Meets.statements (h : body.Meets n) : ∀ t ∈ body.statements, t.Meets n := by
  unfold Tree.statements
  cases hss : body.statements? with
  | some ss => exact h.statements? hss
  | none => simpa [Make.ret] using h

theorem meets_withStatements (body : Tree) : (body.withStatements ss).Meets n ↔ ∀ t ∈ ss, t.Meets n := by
  unfold withStatements
  split
  · simp
  · exact Make.meets_block

/-- Further statements are put into a body. -/
theorem Meets.insertAt {new : List Tree} (h : body.Meets n) (hnew : ∀ t ∈ new, t.Meets n) (i : Nat) :
    (body.withStatements (FormCodemod.insertAt i new body.statements)).Meets n := by
  rw [meets_withStatements]
  intro t ht
  rcases mem_insertAt.mp ht with ht | ht
  · exact hnew t ht
  · exact h.statements t ht

end Tree

/-! ## Helpers -/

variable {s : Setting}

/-- A parameter has a type only where functions have types. -/
theorem Setting.meets_param (hs : n.Allows s) (x type : String) (b : Bool) : (s.param x type b).Meets n := by
  unfold param
  split
  · next htyped =>
      have htypes : n.types = true := hs htyped
      simp [Make.typedParam, Make.keywordType, htypes]
  · exact Make.meets_binding

namespace Capabilities

theorem meets_setter (hs : n.Allows s) (x : String) {update : Tree} (hupdate : update.Meets n) :
    (setter s x update).Meets n := by
  simp [setter, Make.doubleNot, hupdate, Setting.meets_param hs]

/-- Helpers meet every norm that allows the setting. -/
theorem meets_helpers (hs : n.Allows s) (c : Capabilities) (form : String) : ∀ t ∈ c.helpers s form, t.Meets n := by
  refine forall_mem_helpers (fun x _ => ?values) (fun x _ => ⟨?direct, ?bound⟩) ?update ?fieldset (fun x _ => ?touched)
    fun x _ => ?submitting
  case values => simp [valuesHelper]
  case direct => exact meets_setter hs x (by simp)
  case bound => exact meets_setter hs x Make.meets_ident
  case update => simp
  case fieldset => simp [fieldsetHelper, Make.methodCall]
  case touched => simp [touchedHelper, Setting.meets_param hs]
  case submitting => simp [submittingHelper]

theorem meets_wholeHelper (uses : List Use) (whole : Option String) : ∀ t ∈ wholeHelper uses whole, t.Meets n :=
  forall_mem_wholeHelper (fun _ _ => by simp) uses

end Capabilities

/-- A scope gets the helpers that it needs. -/
theorem Tree.Meets.declareHelpers {body : Tree} (hs : n.Allows s) (h : body.Meets n) (c : Capabilities) (uses : List Use)
    (whole : Option String) (i : Nat) :
    (body.withStatements (FormCodemod.insertAt i (Capabilities.wholeHelper uses whole ++ c.helpers s formName)
      body.statements)).Meets n := by
  refine h.insertAt (fun t ht => ?_) i
  rcases List.mem_append.mp ht with ht | ht
  · exact Capabilities.meets_wholeHelper uses whole t ht
  · exact Capabilities.meets_helpers hs c formName t ht

/-! ## Reads of the form state -/

namespace Tree

variable {t t' : Tree} {x form : String}

@[simp] theorem look_expr {o : Origin} {k : ExprKind} {ts : List Tree} : (expr o k ts).look = .other := look_node ..

/-- A flattened read meets the norm. -/
theorem upholds_flatRead? (h : flatRead? x form t = some t') : Upholds n t t' := by
  unfold flatRead? at h
  split at h
  · split at h
    · split at h
      · cases h
        exact .of_meets look_expr look_expr fun _ => by simp
      · split at h
        · cases h
          exact .of_meets look_expr look_expr fun _ => by simp
        · cases h
    · cases h
  · cases h

/-- A substituted handler meets the norm. -/
theorem upholds_handlerRead? {locals : Renaming} (h : handlerRead? locals form t = some t') : Upholds n t t' := by
  unfold handlerRead? at h
  split at h
  · obtain ⟨member, -, rfl⟩ := Option.map_eq_some_iff.mp h
    exact .of_meets look_expr look_expr fun _ => by simp
  · cases h

/-- Converted reads are expressions made from names, in place of expressions. -/
theorem upholds_convertReads (p body : Tree) : Upholds n body (p.convertReads body) := by
  have hcongr := upholds_congruence n
  have hhandlers : ∀ b : Tree, Upholds n b (b.substituteHandlers p.takenNames formName) :=
    fun b => hcongr.mapDown (fun _ _ => upholds_handlerRead?) _ b
  unfold convertReads
  dsimp only
  split
  · next x _ =>
      have hflat : Upholds n body (body.flatten x formName) := hcongr.mapDown (fun _ _ => upholds_flatRead?) _ body
      exact hcongr.trans hflat (hhandlers _)
  · exact hhandlers body

end Tree

end FormCodemod

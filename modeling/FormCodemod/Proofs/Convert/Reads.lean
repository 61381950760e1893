import FormCodemod.Convert.Capabilities
import FormCodemod.Proofs.Tree.Replaced

/-!
# Reads of the form state

The form state of a scope was bound to a pattern. Converting its reads is one traversal with one rule (`Tree.readIn?`,
`convertReads_eq_mapDown`): if the pattern is a variable, members that are read off it are replaced, and if it took the
state apart, the names it gave to handlers.

Reads open no scope and have no tag, before or after (`outline_readIn?`), so what belongs to a scope stays in it
(`holds_convertReads`). The rule does not see markup, and never puts a read in its own place (`readIn?_ne`).
-/

namespace FormCodemod.Tree

variable {stop : Tree → Bool} {p t t' : Tree} {x y : String}

/-! ## The rule -/

/-- What a read of the form state becomes, where `p` is the pattern that the form state was bound to. -/
def readIn? (p : Tree) : Tree → Option Tree :=
  match p.wholeBinding? with
  | some x => flatRead? x formName
  | none => handlerRead? (takenHandlers p.takenNames) formName

def reads (p t : Tree) : Bool := (p.readIn? t).isSome

/-- What a key of the form state becomes where it is read off a variable. -/
def flatKey? (form k : String) : Option Tree :=
  match handlers.lookup k with
  | some member => some (Make.member (Make.ident form) member)
  | none => if flattened.contains k then some (Make.ident k) else none

/-- Only reads off the variable are flattened, each by its key. -/
theorem flatRead?_eq_bind (x form : String) (t : Tree) : flatRead? x form t = (t.memberOf? x).bind (flatKey? form) := by
  unfold flatRead?
  split
  · next o k ts => cases memberOf? x (.expr o k ts) <;> rfl
  · next hexpr =>
      -- a member is an expression, in parentheses too
      cases h : t.memberOf? x with
      | none => rfl
      | some k =>
          obtain ⟨o, obj, key, heq, -⟩ := memberOf?_eq_some.mp h
          unfold unparen at heq
          split at heq
          · exact (hexpr _ _ _ rfl).elim
          · exact (hexpr _ _ _ heq).elim

/-- A variable is read by its members, which become members of the form or variables of their own names. -/
theorem flatRead?_eq_some (h : flatRead? x y t = some t') :
    ∃ k, t.memberOf? x = some k ∧ (t' = Make.ident k ∨ ∃ member, t' = Make.member (Make.ident y) member) := by
  rw [flatRead?_eq_bind, Option.bind_eq_some_iff] at h
  obtain ⟨k, hk, h⟩ := h
  refine ⟨k, hk, ?_⟩
  unfold flatKey? at h
  split at h
  · cases h
    exact .inr ⟨_, rfl⟩
  · split at h
    · cases h
      exact .inl rfl
    · cases h

/-- A handler is read by the name it was given, and becomes a member of the form. -/
theorem handlerRead?_eq_some {locals : Renaming} (h : handlerRead? locals y t = some t') :
    ∃ o x ts member, t = .expr o (.ident x) ts ∧ locals.get? x = some member ∧ t' = Make.member (Make.ident y) member := by
  unfold handlerRead? at h
  split at h
  · obtain ⟨member, hmember, rfl⟩ := Option.map_eq_some_iff.mp h
    exact ⟨_, _, _, member, rfl, hmember, rfl⟩
  · cases h

/-- The whole form state is bound by a plain variable that does not go by the form's name. -/
theorem wholeBinding?_eq_some (h : p.wholeBinding? = some x) : x ≠ formName ∧ ∃ o b ts, p = .pat o (.binding x b) ts := by
  unfold wholeBinding? at h
  split at h
  · split at h
    · cases h
    · next hx =>
        cases h
        exact ⟨fun hform => hx (beq_iff_eq.mpr hform), _, _, _, rfl⟩
  · cases h

/-- A variable takes nothing apart. -/
theorem takenNames_of_wholeBinding? (h : p.wholeBinding? = some x) : p.takenNames = [] := by
  obtain ⟨-, o, b, ts, rfl⟩ := wholeBinding?_eq_some h
  rfl

theorem handlerRead?_nil (t : Tree) : handlerRead? (takenHandlers []) y t = none := by
  unfold handlerRead?
  split <;> rfl

theorem readIn?_of_whole (h : p.wholeBinding? = some x) : p.readIn? = flatRead? x formName := by
  rw [readIn?, h]

theorem readIn?_of_parts (h : p.wholeBinding? = none) : p.readIn? = handlerRead? (takenHandlers p.takenNames) formName := by
  rw [readIn?, h]

/-- A read is converted by one rule or the other. -/
theorem readIn?_eq_some (h : p.readIn? t = some t') :
    (∃ x, p.wholeBinding? = some x ∧ flatRead? x formName t = some t') ∨
      handlerRead? (takenHandlers p.takenNames) formName t = some t' := by
  cases hw : p.wholeBinding? with
  | none =>
      rw [readIn?_of_parts hw] at h
      exact .inr h
  | some x =>
      rw [readIn?_of_whole hw] at h
      exact .inl ⟨x, rfl, h⟩

/-- A read and what it becomes are expressions. -/
theorem expr_of_readIn? (h : p.readIn? t = some t') : (∃ o k ts, t = .expr o k ts) ∧ ∃ o k ts, t' = .expr o k ts := by
  rcases readIn?_eq_some h with ⟨x, -, h⟩ | h
  · obtain ⟨k, hk, ht'⟩ := flatRead?_eq_some h
    obtain ⟨o, obj, key, heq, -⟩ := memberOf?_eq_some.mp hk
    refine ⟨?_, ?_⟩
    · unfold unparen at heq
      split at heq
      · exact ⟨_, _, _, rfl⟩
      · exact ⟨_, _, _, heq⟩
    · rcases ht' with rfl | ⟨member, rfl⟩
      · exact ⟨_, _, _, rfl⟩
      · exact ⟨_, _, _, rfl⟩
  · obtain ⟨o, x, ts, member, rfl, -, rfl⟩ := handlerRead?_eq_some h
    exact ⟨⟨_, _, _, rfl⟩, _, _, _, rfl⟩

/-- All reads of a scope are converted in one traversal. -/
theorem convertReads_eq_mapDown (p body : Tree) : p.convertReads body = body.mapDown opensScope p.readIn? := by
  unfold convertReads
  cases h : p.wholeBinding? with
  | none =>
      rw [readIn?_of_parts h]
      rfl
  | some x =>
      rw [readIn?_of_whole h, takenNames_of_wholeBinding? h]
      exact mapDown_of_none handlerRead?_nil _

theorem convertReads_of_whole (h : p.wholeBinding? = some x) (t : Tree) : p.convertReads t = t.flatten x formName := by
  rw [convertReads_eq_mapDown, readIn?_of_whole h]
  rfl

/-! ## Reads and what they become -/

/-- A read of a member has no outline. -/
theorem outline_of_memberOf? {k : String} (h : t.memberOf? x = some k) : t.outline = {} := by
  have hlike : ∀ u : Tree, u.unparen.outline = {} → u.outline = {} := by
    intro u hu
    fun_induction unparen u with
    | case1 o e ih =>
        rw [outline_node]
        show ({ functionLike := e.outline.functionLike } : Outline) = {}
        rw [ih hu]
    | case2 => exact hu
  refine hlike t ?_
  unfold memberOf? at h
  split at h
  · next heq =>
      rw [heq, outline_node]
      rfl
  · cases h

/-- A flattened read has the outline that it had. -/
theorem outline_flatRead? (h : flatRead? x y t = some t') : t'.outline = t.outline := by
  obtain ⟨k, hk, rfl | ⟨member, rfl⟩⟩ := flatRead?_eq_some h
  · rw [outline_of_memberOf? hk]
    rfl
  · rw [outline_of_memberOf? hk]
    rfl

/-- A read and what it becomes show nothing to their parent. -/
theorem outline_readIn? (h : p.readIn? t = some t') : t'.outline = t.outline := by
  rcases readIn?_eq_some h with ⟨x, -, h⟩ | h
  · exact outline_flatRead? h
  · obtain ⟨o, x, ts, member, rfl, -, rfl⟩ := handlerRead?_eq_some h
    rw [outline_node]
    rfl

/-- A converted read is not what it was. -/
theorem readIn?_ne (h : p.readIn? t = some t') : t' ≠ t := by
  rcases readIn?_eq_some h with ⟨x, hx, h⟩ | h
  · obtain ⟨k, hk, rfl | ⟨member, rfl⟩⟩ := flatRead?_eq_some h
    · rintro rfl
      cases hk
    · -- it is read off the form, which the variable is not
      rintro rfl
      have hno : (some formName == some x) = false :=
        beq_eq_false_iff_ne.mpr fun heq => (wholeBinding?_eq_some hx).1 (Option.some.inj heq).symm
      simp [memberOf?, unparen, Make.member, Make.ident, ident?, hno] at hk
  · obtain ⟨o, x, ts, member, rfl, -, rfl⟩ := handlerRead?_eq_some h
    intro heq
    cases heq

/-- The rule does not see the markup below a node. -/
theorem readIn?_mapDown {f : Tree → Option Tree}
    (hf : ∀ t t', f t = some t' → t.isMarkup = true ∧ t'.isMarkup = true) (t : Tree) :
    p.readIn? (t.mapDown opensScope f) = p.readIn? t := by
  have hg := rewritesMarkup_mapDown hf
  cases hw : p.wholeBinding? with
  | some x => rw [readIn?_of_whole hw, flatRead?_eq_bind, flatRead?_eq_bind, hg.memberOf?]
  | none =>
      rw [readIn?_of_parts hw]
      conv_rhs => unfold handlerRead?
      split
      next o x ts =>
        rw [hg.eq_expr.mpr ⟨ts, rfl, rfl⟩]
        rfl
      next hno =>
        unfold handlerRead?
        split
        next heq =>
          obtain ⟨ts, rfl, -⟩ := hg.eq_expr.mp heq
          exact (hno _ _ _ rfl).elim
        next => rfl

/-! ## Tags in a scope -/

/-- Whether an element with the tag belongs to the scope, and not to a component declared in it. -/
def holds (x : String) (t : Tree) : Bool := t.any opensScope (isTagged x)

/-- A converted read holds no element. -/
theorem holds_of_readIn? (h : p.readIn? t = some t') : t'.holds x = false := by
  rcases readIn?_eq_some h with ⟨y, -, h⟩ | h
  · obtain ⟨k, -, rfl | ⟨member, rfl⟩⟩ := flatRead?_eq_some h
    · rfl
    · rfl
  · obtain ⟨-, -, -, member, -, -, rfl⟩ := handlerRead?_eq_some h
    rfl

/-- Whether an element with the tag belongs to the scope and is not inside of a read, which is replaced as a whole. -/
def keeps (p : Tree) (x : String) (t : Tree) : Bool := t.any (fun u => u.opensScope || p.reads u) (isTagged x)

/-- The elements of a scope stay in it when its reads are converted, but for those inside of a read. -/
theorem holds_convertReads (p t : Tree) (x : String) : (p.convertReads t).holds x = p.keeps x t := by
  rw [Bool.eq_iff_iff, convertReads_eq_mapDown, holds, any_mapDown (fun _ _ => outline_readIn?) (isOutlined_isTagged x)]
  refine or_iff_left ?_
  rintro ⟨u, hu, h⟩
  obtain ⟨q, v, -, hv⟩ := exists_of_mem_outermost hu
  have hno : u.holds x = false := holds_of_readIn? hv
  rw [holds, h] at hno
  cases hno

end FormCodemod.Tree

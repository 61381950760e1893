import FormCodemod.Proofs.Convert.Parts
import FormCodemod.Proofs.Tree.Replaced

/-!
# Elements around rewritten markup

Where markup takes the place of markup (`Tree.RewritesMarkup`), an element stays an element, around parts that are
rewritten (`Tree.RewritesMarkup.element?`). Its attributes keep their names, and ask for the tags that they asked for
(`Tree.RewritesMarkup.askedTag?`): neither a string nor a variable is markup.
-/

namespace FormCodemod

def Element.mapParts (g : Tree → Tree) (e : Element) : Element :=
  { e with
    name := g e.name
    attrs := e.attrs.map g
    typeArgs := g e.typeArgs
    children := e.children.map g
    closing := g e.closing }

/-- An attribute names a tag as a string, or as a variable in a container. -/
theorem AttrValue.tag?_ofAttr {a : Tree} {tag : String} :
    (ofAttr a).tag? = some tag ↔
      (∃ o raw ts, a.attrValue = .expr o (.str tag raw) ts) ∨
        (∃ o e, a.attrValue = .markup o .container [e] ∧
          (e.string? = some tag ∨ e.string? = none ∧ e.ident? = some tag)) ∨
        a.attrValue.ident? = some tag := by
  unfold ofAttr
  split
  next heq => simp [tag?, heq, Tree.ident?, Tree.unparen]
  next v raw ts heq => simp [tag?, heq, Tree.ident?, Tree.unparen]
  next heq => simp [tag?, heq, Tree.ident?, Tree.string?, Tree.unparen]
  next e _ heq =>
    have hno : (Tree.markup ‹_› .container [e]).ident? = none := rfl
    rw [heq, hno]
    cases hs : e.string? <;> simp [tag?, hs]
  next habsent hstr hempty hcontainer =>
    have hident : a.attrValue.asExpr.ident? = a.attrValue.ident? := by
      unfold Tree.asExpr
      split
      next heq =>
        rw [heq]
        rfl
      next => rfl
    rw [tag?, hident]
    refine ⟨fun h => .inr (.inr h), ?_⟩
    rintro (⟨o, raw, ts, heq⟩ | ⟨o, e, heq, -⟩ | h)
    · exact (hstr _ _ _ _ heq).elim
    · exact (hcontainer _ _ heq).elim
    · exact h

namespace Tree.RewritesMarkup

variable {g : Tree → Tree} (hg : RewritesMarkup g) {t a : Tree} {ts' : List Tree} {e' : Element}
include hg

/-- A node around rewritten parts is an element only if it was one. -/
theorem element? {o : Origin} {k : Kind} {ts : List Tree} (h : (node o k (ts.map g)).element? = some e') :
    ∃ e : Element, node o k ts = e.toTree ∧ e' = e.mapParts g := by
  have htree := toTree_of_element? h
  rw [Element.toTree, node.injEq] at htree
  obtain ⟨rfl, rfl, hts⟩ := htree
  obtain ⟨name, ts₁, rfl, hname, h₁⟩ := List.map_eq_cons_iff.mp hts.symm
  obtain ⟨attrs, ts₂, rfl, hattrs, h₂⟩ := List.map_eq_cons_iff.mp h₁
  obtain ⟨targs, ts₃, rfl, htargs, h₃⟩ := List.map_eq_cons_iff.mp h₂
  obtain ⟨children, ts₄, rfl, hchildren, h₄⟩ := List.map_eq_cons_iff.mp h₃
  obtain ⟨closing, rfl, hclosing⟩ := List.map_eq_singleton_iff.mp h₄
  obtain ⟨as, rfl, has⟩ := hg.eq_list.mp hattrs
  obtain ⟨cs, rfl, hcs⟩ := hg.eq_list.mp hchildren
  refine ⟨{ e' with name, attrs := as, typeArgs := targs, children := cs, closing }, rfl, ?_⟩
  rw [Element.mapParts, hname, htargs, hclosing, ← has, ← hcs]

theorem tag? (t : Tree) : (g t).tag? = t.tag? := by
  have hname : ∀ {t o x ts'}, g t = .part o (.name x) ts' ↔ ∃ ts, t = .part o (.name x) ts ∧ ts' = ts.map g :=
    hg.eq_node (fun _ => rfl) fun _ => rfl
  conv_rhs => unfold Tree.tag?
  split
  next o x ts =>
    rw [hname.mpr ⟨ts, rfl, rfl⟩]
    rfl
  next hno =>
    unfold Tree.tag?
    split
    next heq =>
      obtain ⟨ts, rfl, -⟩ := hname.mp heq
      exact (hno _ _ _ rfl).elim
    next => rfl

/-! ## Attributes -/

/-- An attribute is left an attribute, around changed parts. -/
theorem eq_attr {o : Origin} : g t = .markup o .attr ts' ↔ ∃ ts, t = .markup o .attr ts ∧ ts' = ts.map g :=
  hg.eq_node (fun _ => rfl) fun _ => rfl

theorem attrName? (a : Tree) : (g a).attrName? = a.attrName? := by
  conv_rhs => unfold Tree.attrName?
  split
  next o ko x ts v =>
    have hkey : g (Tree.part ko (.key x) ts) = .part ko (.key x) (ts.map g) := hg.eq_key.mpr ⟨ts, rfl, rfl⟩
    rw [hg.eq_attr.mpr ⟨_, rfl, rfl⟩, List.map_cons, List.map_cons, List.map_nil, hkey]
    rfl
  next hno =>
    unfold Tree.attrName?
    split
    next heq =>
      obtain ⟨ts, rfl, hts⟩ := hg.eq_attr.mp heq
      obtain ⟨key, ts₁, rfl, hkey, h₁⟩ := List.map_eq_cons_iff.mp hts.symm
      obtain ⟨v, rfl, -⟩ := List.map_eq_singleton_iff.mp h₁
      obtain ⟨ts, rfl, -⟩ := hg.eq_key.mp hkey
      exact (hno _ _ _ _ _ rfl).elim
    next => rfl

theorem attrValue (a : Tree) : (g a).attrValue = g a.attrValue := by
  conv_rhs => unfold Tree.attrValue
  split
  next o key v =>
    rw [hg.eq_attr.mpr ⟨_, rfl, rfl⟩]
    rfl
  next hno =>
    rw [hg.absent]
    unfold Tree.attrValue
    split
    next heq =>
      obtain ⟨ts, rfl, hts⟩ := hg.eq_attr.mp heq
      obtain ⟨key, ts₁, rfl, -, h₁⟩ := List.map_eq_cons_iff.mp hts.symm
      obtain ⟨v, rfl, -⟩ := List.map_eq_singleton_iff.mp h₁
      exact (hno _ _ _ rfl).elim
    next => rfl

theorem askedTag? (a : Tree) : (g a).askedTag? = a.askedTag? := by
  have hcontainer : ∀ {t o ts'}, g t = .markup o .container ts' ↔ ∃ ts, t = .markup o .container ts ∧ ts' = ts.map g :=
    hg.eq_node (fun _ => rfl) fun _ => rfl
  refine Option.ext fun tag => ?_
  rw [askedTag?_eq_some, askedTag?_eq_some, hg.attrName?, AttrValue.tag?_ofAttr, AttrValue.tag?_ofAttr, hg.attrValue,
    hg.ident?]
  refine and_congr_right fun _ => or_congr ?_ (or_congr_left ?_)
  · constructor
    · rintro ⟨o, raw, ts', h⟩
      obtain ⟨ts, h, -⟩ := hg.eq_expr.mp h
      exact ⟨o, raw, ts, h⟩
    · rintro ⟨o, raw, ts, h⟩
      exact ⟨o, raw, _, hg.eq_expr.mpr ⟨ts, h, rfl⟩⟩
  · constructor
    · rintro ⟨o, e', h, htag⟩
      obtain ⟨ts, hvalue, hts⟩ := hcontainer.mp h
      obtain ⟨e, rfl, rfl⟩ := List.map_eq_singleton_iff.mp hts.symm
      rw [hg.string?, hg.ident?] at htag
      exact ⟨o, e, hvalue, htag⟩
    · rintro ⟨o, e, h, htag⟩
      rw [← hg.string?, ← hg.ident?] at htag
      exact ⟨o, g e, hcontainer.mpr ⟨[e], h, rfl⟩, htag⟩

end Tree.RewritesMarkup

end FormCodemod

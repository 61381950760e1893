import FormCodemod.Convert.Fieldset
import FormCodemod.Proofs.Tree.Replaced

/-!
# The normal form of access to fields

A module is in normal form if it does not call `getFieldProps` with a single argument (`Tree.asksForField`) and spells no
member of the fields with a dot (`Tree.isDottedField`). The modules in normal form are those that normalization leaves as
they are (`Fieldset.normalize_eq_self_iff`), and it brings every module there at once (`Fieldset.normalize_normal`).

The rules could get in each other's way. A converted call may be what another call calls, which is why children come
first. Spelling a member out changes what calls call too, but not the key of a member (`Fieldset.memberKey?_spelled`), so it
brings no call of `getFieldProps` back. And the first argument of `getInputProps` would be spelled out with everything
else (`Fieldset.spelled_convertInputProps`).
-/

namespace FormCodemod

namespace Tree

variable {stop : Tree → Bool} {f g : Tree → Tree} {Q : Tree → Prop} {t : Tree}

/-! ## Rules that are applied everywhere -/

/-- What a rule establishes above children that have it everywhere, it establishes everywhere. -/
theorem everywhere_mapUp (hnode : ∀ o k ts, (∀ c ∈ ts, c.Everywhere Q) → (f (.node o k ts)).Everywhere Q)
    (hlist : ∀ ts, Q (.list ts)) (habsent : Q .absent) (t : Tree) : (t.mapUp nowhere f).Everywhere Q := by
  induction t using ind with
  | node o k ts ih =>
      rw [mapUp_nowhere_node]
      exact hnode o k _ (List.forall_mem_map.mpr ih)
  | list ts ih =>
      rw [mapUp_list]
      exact everywhere_iff.mpr ⟨hlist _, List.forall_mem_map.mpr ih⟩
  | absent => exact everywhere_iff.mpr ⟨habsent, nofun⟩

/-- A rule may be left out if the next one treats what it makes like what it was made from. -/
theorem mapUp_mapUp (hfg : ∀ t, (g t).mapUp nowhere f = t.mapUp nowhere f) (t : Tree) :
    (t.mapUp nowhere g).mapUp nowhere f = t.mapUp nowhere f := by
  induction t using ind with
  | node o k ts ih =>
      rw [mapUp_nowhere_node, hfg, mapUp_nowhere_node, mapUp_nowhere_node, List.map_map,
        List.map_congr_left (f := mapUp nowhere f ∘ mapUp nowhere g) ih]
  | list ts ih =>
      rw [mapUp_list, mapUp_list, mapUp_list, List.map_map, List.map_congr_left (f := mapUp nowhere f ∘ mapUp nowhere g) ih]
  | absent => rfl

/-! ## Normal form -/

/-- A call of `getFieldProps` with one argument, which is no spread. -/
def asksForField : Tree → Bool
  | .expr _ .call [callee, .list [arg], _] => callee.isFieldPropsGetter && arg.spread?.isNone
  | _ => false

/-- A member of the fields that is spelled `fields.x`. -/
def isDottedField : Tree → Bool
  | .expr _ .member [obj, .part _ (.key _) _] => obj.ident? == some fieldsName
  | _ => false

def isMember : Tree → Bool
  | .expr _ .member _ => true
  | _ => false

def memberKey? : Tree → Option String
  | .expr _ .member [_, k] => k.key?
  | _ => none

/-- Whether an expression is the getter depends on its name or fixed key only. -/
theorem isFieldPropsGetter_eq (t : Tree) :
    t.isFieldPropsGetter = (t.ident? == some "getFieldProps" || t.unparen.memberKey? == some "getFieldProps") := by
  unfold isFieldPropsGetter ident?
  generalize t.unparen = u
  split
  next => exact (Bool.or_false _).symm
  next => rfl
  next hident hmember =>
    unfold memberKey?
    split
    next => exact (hident _ _ _ rfl).elim
    next =>
      split
      next => exact (hmember _ _ _ rfl).elim
      next => rfl

end Tree

namespace Fieldset

variable {t a e : Tree} {o : Origin} {k : Kind} {ts ts' : List Tree} {x : String}

/-! ## The rules -/

/-- A field is spelled out if a key follows a point, and nothing else changes. -/
theorem spellOut_cases (t : Tree) :
    (t.isDottedField = false ∧ spellOut t = t) ∨
      ∃ o obj ko k kids, t = .expr o .member [obj, .part ko (.key k) kids] ∧ obj.ident? = some fieldsName ∧
        spellOut t = .expr o .member [obj, .part ko .index [Make.str k]] := by
  unfold Tree.isDottedField
  split
  next o obj ko k kids =>
    cases hobj : obj.ident? == some fieldsName with
    | false => exact .inl ⟨rfl, by simp [spellOut, hobj]⟩
    | true => exact .inr ⟨o, obj, ko, k, kids, rfl, beq_iff_eq.mp hobj, by simp [spellOut, hobj]⟩
  next hno =>
    refine .inl ⟨rfl, ?_⟩
    unfold spellOut
    split
    next => exact (hno _ _ _ _ _ rfl).elim
    next => rfl

/-- A call of the getter with one argument becomes a field, and nothing else changes. -/
theorem convertGetter_cases (t : Tree) :
    (t.asksForField = false ∧ convertGetter t = t) ∨
      ∃ o callee arg targs, t = .expr o .call [callee, .list [arg], targs] ∧ t.asksForField = true ∧
        convertGetter t = Make.index (Make.ident fieldsName) arg := by
  unfold Tree.asksForField
  split
  next o callee arg targs =>
    cases hasks : callee.isFieldPropsGetter && arg.spread?.isNone with
    | false => exact .inl ⟨rfl, by simp [convertGetter, hasks]⟩
    | true => exact .inr ⟨o, callee, arg, targs, rfl, rfl, by simp [convertGetter, hasks]⟩
  next hno =>
    refine .inl ⟨rfl, ?_⟩
    unfold convertGetter
    split
    next => exact (hno _ _ _ _ rfl).elim
    next => rfl

/-! ## Converted calls -/

def gotten (t : Tree) : Tree := t.mapUp Tree.nowhere convertGetter

theorem gotten_node (o : Origin) (k : Kind) (ts : List Tree) :
    gotten (.node o k ts) = convertGetter (.node o k (ts.map gotten)) :=
  Tree.mapUp_nowhere_node

theorem gotten_list (ts : List Tree) : gotten (.list ts) = .list (ts.map gotten) := Tree.mapUp_list

/-! ## Spelling out -/

def spelled (t : Tree) : Tree := t.mapUp Tree.nowhere spellOut

theorem spelled_node (o : Origin) (k : Kind) (ts : List Tree) :
    spelled (.node o k ts) = spellOut (.node o k (ts.map spelled)) :=
  Tree.mapUp_nowhere_node

theorem spelled_list (ts : List Tree) : spelled (.list ts) = .list (ts.map spelled) := Tree.mapUp_list

/-- A member stays a member. -/
theorem exists_spelled_member (o : Origin) (ts : List Tree) :
    ∃ ts', spelled (.expr o .member ts) = .expr o .member ts' := by
  rw [Tree.expr, spelled_node]
  rcases spellOut_cases (.node o (.expr .member) (ts.map spelled)) with ⟨-, heq⟩ | ⟨o', obj, ko, x, kids, h, -, heq⟩
  · exact ⟨_, heq⟩
  · obtain rfl := (Tree.node.inj h).1
    exact ⟨_, heq⟩

/-- Any other node stays what it is, around what is spelled out. -/
theorem spelled_other (hk : (k == .expr .member) = false) : spelled (.node o k ts) = .node o k (ts.map spelled) := by
  rw [spelled_node]
  rcases spellOut_cases (.node o k (ts.map spelled)) with ⟨-, h⟩ | ⟨o', obj, ko, x, kids, h, -, -⟩
  · exact h
  · rw [(Tree.node.inj h).2.1] at hk
    cases hk

/-- Members are the nodes that need not stay what they are. -/
theorem rewrites_spelled : Tree.Rewrites Tree.isMember spelled where
  inside {t} h := by
    unfold Tree.isMember at h
    split at h
    next o ts =>
      obtain ⟨ts', hts'⟩ := exists_spelled_member o ts
      rw [hts']
      rfl
    next => cases h
  outside {t} h := by
    cases t with
    | node o k ts =>
        refine spelled_other ?_
        rw [beq_eq_false_iff_ne]
        rintro rfl
        cases h
    | list ts => exact spelled_list ts
    | absent => rfl
  shape {t} h := by
    unfold Tree.isShape at h
    split at h
    all_goals first | rfl | cases h

/-- A node that is no member was one of its kind before fields were spelled out. -/
theorem exists_of_spelled_node (h : spelled t = .node o k ts') (hk : ∀ ts, (Tree.node o k ts).isMember = false) :
    ∃ ts, t = .node o k ts ∧ ts' = ts.map spelled :=
  (rewrites_spelled.eq_node hk).mp h

theorem exists_of_spelled_list (h : spelled t = .list ts') : ∃ ts, t = .list ts ∧ ts' = ts.map spelled :=
  (rewrites_spelled.eq_list fun _ => rfl).mp h

/-- A member has the same key however it is spelled. -/
theorem memberKey?_spelled (t : Tree) : (spelled t).memberKey? = t.memberKey? := by
  conv_rhs => unfold Tree.memberKey?
  split
  next o obj key =>
    have hmember : spelled (.expr o .member [obj, key]) = spellOut (.expr o .member [spelled obj, spelled key]) :=
      spelled_node ..
    rw [hmember]
    rcases spellOut_cases (.expr o .member [spelled obj, spelled key]) with
      ⟨-, heq⟩ | ⟨o', obj', ko, x, kids, h, -, heq⟩
    · rw [heq]
      exact rewrites_spelled.key? key
    · rw [heq]
      -- the key is the name that it was
      have hkey : spelled key = .part ko (.key x) kids := (List.cons.inj (List.cons.inj (Tree.node.inj h).2.2).2).1
      rw [← rewrites_spelled.key? key, hkey]
      rfl
  next hno =>
    unfold Tree.memberKey?
    split
    next o obj' key' heq =>
      cases t with
      | node o₁ k₁ ts =>
          rw [spelled_node] at heq
          rcases spellOut_cases (.node o₁ k₁ (ts.map spelled)) with ⟨-, h⟩ | ⟨o', obj, ko, x, kids, h, -, -⟩
          · obtain ⟨rfl, rfl, hts⟩ := Tree.node.inj (h.symm.trans heq)
            obtain ⟨obj, ts₁, rfl, -, h₁⟩ := List.map_eq_cons_iff.mp hts
            obtain ⟨key, rfl, -⟩ := List.map_eq_singleton_iff.mp h₁
            exact (hno _ _ _ rfl).elim
          · obtain ⟨-, rfl, hts⟩ := Tree.node.inj h
            obtain ⟨obj, ts₁, rfl, -, h₁⟩ := List.map_eq_cons_iff.mp hts
            obtain ⟨key, rfl, -⟩ := List.map_eq_singleton_iff.mp h₁
            exact (hno _ _ _ rfl).elim
      | list ts => cases (spelled_list ts).symm.trans heq
      | absent => cases heq
    next => rfl

/-- To spell fields out makes no getter and loses none. -/
theorem isFieldPropsGetter_spelled (t : Tree) : (spelled t).isFieldPropsGetter = t.isFieldPropsGetter := by
  rw [Tree.isFieldPropsGetter_eq, Tree.isFieldPropsGetter_eq, rewrites_spelled.ident?, rewrites_spelled.unparen,
    memberKey?_spelled]

/-- A call that asks for a field did so before. -/
theorem asksForField_of_spelled (h : (spelled t).asksForField = true) : t.asksForField = true := by
  unfold Tree.asksForField at h
  split at h
  next o callee' arg' targs' heq =>
    obtain ⟨ts, rfl, hts⟩ := exists_of_spelled_node heq fun _ => rfl
    obtain ⟨callee, ts₁, rfl, rfl, h₁⟩ := List.map_eq_cons_iff.mp hts.symm
    obtain ⟨args, ts₂, rfl, hargs, h₂⟩ := List.map_eq_cons_iff.mp h₁
    obtain ⟨targs, rfl, -⟩ := List.map_eq_singleton_iff.mp h₂
    obtain ⟨as, rfl, has⟩ := exists_of_spelled_list hargs
    obtain ⟨arg, rfl, rfl⟩ := List.map_eq_singleton_iff.mp has.symm
    rw [isFieldPropsGetter_spelled, rewrites_spelled.spread?, Option.isNone_map] at h
    exact h
  next => cases h

/-! ### What is spelled out before -/

/-- To spell out one field in advance makes no difference. -/
theorem spelled_spellOut (t : Tree) : spelled (spellOut t) = spelled t := by
  rcases spellOut_cases t with ⟨-, heq⟩ | ⟨o, obj, ko, x, kids, rfl, hobj, heq⟩
  · rw [heq]
  · have hfields : (spelled obj).ident? == some fieldsName := by rw [rewrites_spelled.ident?, hobj, beq_self_eq_true]
    have hkey : spelled (.part ko (.key x) kids) = .part ko (.key x) (kids.map spelled) := spelled_other rfl
    have hindex : spelled (.part ko .index [Make.str x]) = .part ko .index [Make.str x] := rfl
    rw [heq, Tree.expr, spelled_node, Tree.expr, spelled_node]
    simp only [List.map_cons, List.map_nil, hkey, hindex]
    simp [spellOut, hfields]

theorem spelled_spellOutArg (a : Tree) : spelled (spellOutArg a) = spelled a := by
  have hspread : ∀ o e, spelled (.part o .spread [e]) = .part o .spread [spelled e] := fun _ _ => spelled_other rfl
  unfold spellOutArg
  split
  next o e => rw [hspread, hspread, spelled_spellOut]
  next => exact spelled_spellOut a

/-- To spell out the field of an input in advance makes no difference. -/
theorem spelled_convertInputProps (t : Tree) : spelled (convertInputProps t) = spelled t := by
  have hcall : ∀ o ts, spelled (.expr o .call ts) = .expr o .call (ts.map spelled) := fun _ _ => spelled_other rfl
  unfold convertInputProps
  split
  next o callee arg args targs =>
    split
    next =>
      rw [hcall, hcall]
      simp only [List.map_cons, List.map_nil, spelled_list, spelled_spellOutArg]
    next => rfl
  next => rfl

/-! ## What the rules leave -/

theorem everywhere_str (s : String) {Q : Tree → Prop} (h : Q (Make.str s)) : (Make.str s).Everywhere Q :=
  Tree.everywhere_iff.mpr ⟨h, nofun⟩

/-- No member of the fields is left with a dot. -/
theorem everywhere_isDottedField (t : Tree) : (spelled t).Everywhere fun u => u.isDottedField = false := by
  refine Tree.everywhere_mapUp (fun o k ts hts => ?_) ?_ ?_ t
  rotate_left
  · exact fun _ => rfl
  · rfl
  rcases spellOut_cases (.node o k ts) with ⟨hno, heq⟩ | ⟨_, obj, ko, x, kids, h, -, heq⟩
  · rw [heq]
    exact Tree.everywhere_iff.mpr ⟨hno, hts⟩
  · obtain ⟨-, -, rfl⟩ := Tree.node.inj h
    rw [heq, Tree.everywhere_iff]
    refine ⟨rfl, List.forall_mem_cons.mpr ⟨hts obj (List.mem_cons_self ..), List.forall_mem_singleton.mpr ?_⟩⟩
    exact Tree.everywhere_iff.mpr ⟨rfl, List.forall_mem_singleton.mpr (everywhere_str x rfl)⟩

/-- No call that asks for a field is left. -/
theorem everywhere_asksForField (t : Tree) : (gotten t).Everywhere fun u => u.asksForField = false := by
  refine Tree.everywhere_mapUp (fun o k ts hts => ?_) ?_ ?_ t
  rotate_left
  · exact fun _ => rfl
  · rfl
  rcases convertGetter_cases (.node o k ts) with ⟨hno, heq⟩ | ⟨_, callee, arg, targs, h, -, heq⟩
  · rw [heq]
    exact Tree.everywhere_iff.mpr ⟨hno, hts⟩
  · obtain ⟨-, -, rfl⟩ := Tree.node.inj h
    have hargs : (Tree.list [arg]).Everywhere fun u => u.asksForField = false := hts _ (by simp)
    rw [heq, Tree.everywhere_iff]
    refine ⟨rfl, List.forall_mem_cons.mpr ⟨Tree.everywhere_iff.mpr ⟨rfl, nofun⟩, List.forall_mem_singleton.mpr ?_⟩⟩
    exact Tree.everywhere_iff.mpr ⟨rfl, List.forall_mem_singleton.mpr (hargs.child (List.mem_singleton.mpr rfl))⟩

/-- Spelling out brings no such call back. -/
theorem everywhere_spelled_asksForField (h : t.Everywhere fun u => u.asksForField = false) :
    (spelled t).Everywhere fun u => u.asksForField = false := by
  have hroot : ∀ {t : Tree}, (t.Everywhere fun u => u.asksForField = false) → (spelled t).asksForField = false := by
    intro t h
    cases hasks : (spelled t).asksForField with
    | false => rfl
    | true => exact (asksForField_of_spelled hasks).symm.trans h.here
  induction t using Tree.ind with
  | node o k ts ih =>
      have hts := List.forall_mem_map.mpr fun c hc => ih c hc (h.child hc)
      have hnode := hroot h
      rw [spelled_node] at hnode ⊢
      rcases spellOut_cases (.node o k (ts.map spelled)) with ⟨-, heq⟩ | ⟨_, obj, ko, x, kids, hmember, -, heq⟩
      · rw [heq] at hnode ⊢
        exact Tree.everywhere_iff.mpr ⟨hnode, hts⟩
      · rw [(Tree.node.inj hmember).2.2] at hts
        rw [heq, Tree.everywhere_iff]
        refine ⟨rfl, List.forall_mem_cons.mpr ⟨hts obj (List.mem_cons_self ..), List.forall_mem_singleton.mpr ?_⟩⟩
        exact Tree.everywhere_iff.mpr ⟨rfl, List.forall_mem_singleton.mpr (everywhere_str x rfl)⟩
  | list ts ih =>
      have hnode := hroot h
      rw [spelled_list] at hnode ⊢
      exact Tree.everywhere_iff.mpr ⟨hnode, List.forall_mem_map.mpr fun c hc => ih c hc (h.child hc)⟩
  | absent => exact h

/-! ## Modules -/

/-- Nothing in the module asks for a field by `getFieldProps`, and no field is spelled with a dot. -/
def IsNormal (m : Module) : Prop := ∀ p t, m.at? p = some t → t.asksForField = false ∧ t.isDottedField = false

/-- A module is normal if neither rule has anything left to do in it. -/
theorem isNormal_iff {m : Module} :
    IsNormal m ↔ (∀ t ∈ m.items, t.Everywhere fun u => u.asksForField = false) ∧
      ∀ t ∈ m.items, t.Everywhere fun u => u.isDottedField = false := by
  have hitems : ∀ p : Tree → Bool, p (.list m.items) = false →
      ((Tree.list m.items).Everywhere (fun u => p u = false) ↔ ∀ t ∈ m.items, t.Everywhere fun u => p u = false) :=
    fun p hp => Tree.everywhere_iff.trans (and_iff_right hp)
  rw [← hitems Tree.asksForField rfl, ← hitems Tree.isDottedField rfl]
  exact ⟨fun h => ⟨fun p t ht => (h p t ht).1, fun p t ht => (h p t ht).2⟩, fun h p t ht => ⟨h.1 p t ht, h.2 p t ht⟩⟩

/-- The first argument of `getInputProps` needs no rule of its own. -/
theorem everywhere_convertInputProps (m : Module) :
    everywhere spellOut (everywhere convertInputProps m) = everywhere spellOut m := by
  unfold everywhere
  dsimp only
  rw [Tree.mapUpAll_eq_map, Tree.mapUpAll_eq_map, Tree.mapUpAll_eq_map, List.map_map]
  exact congrArg (fun items => { m with items })
    (List.map_congr_left fun t _ => Tree.mapUp_mapUp spelled_convertInputProps t)

/-- Normalization converts the getters and spells out the fields. What it does to inputs in
between is done by the spelling out as well. -/
theorem normalize_eq (m : Module) : normalize m = everywhere spellOut (everywhere convertGetter m) :=
  everywhere_convertInputProps _

def normalized (t : Tree) : Tree := spelled (gotten t)

theorem normalized_list (ts : List Tree) : normalized (.list ts) = .list (ts.map normalized) := by
  rw [normalized, gotten_list, spelled_list, List.map_map]
  rfl

/-- Normalization treats every item alone. -/
theorem items_normalize (m : Module) : normalize m = { m with items := m.items.map normalized } := by
  rw [normalize_eq, everywhere, everywhere, Tree.mapUpAll_eq_map, Tree.mapUpAll_eq_map, List.map_map]
  rfl

/-- A normalized module is normal. -/
theorem isNormal_normalize (m : Module) : IsNormal (normalize m) := by
  rw [isNormal_iff, items_normalize]
  constructor
  · exact List.forall_mem_map.mpr fun t _ => everywhere_spelled_asksForField (everywhere_asksForField t)
  · exact List.forall_mem_map.mpr fun t _ => everywhere_isDottedField _

/-- A rule that leaves all nodes of a module alone leaves the module. -/
theorem everywhere_of_items {f : Tree → Tree} {Q : Tree → Prop} {m : Module} (hf : ∀ u, Q u → f u = u)
    (h : ∀ t ∈ m.items, t.Everywhere Q) : everywhere f m = m := by
  rw [everywhere, Tree.mapUpAll_eq_map, List.map_congr_left fun t ht => Tree.mapUp_of_everywhere hf (h t ht),
    List.map_id']

/-- The modules in normal form are those that stay as they are. -/
theorem normalize_eq_self_iff {m : Module} : normalize m = m ↔ IsNormal m := by
  constructor
  · intro h
    rw [← h]
    exact isNormal_normalize m
  · intro h
    obtain ⟨hasks, hdotted⟩ := isNormal_iff.mp h
    have hgetter : ∀ u : Tree, u.asksForField = false → convertGetter u = u := by
      intro u hu
      rcases convertGetter_cases u with ⟨-, heq⟩ | ⟨_, _, _, _, -, hasks, -⟩
      · exact heq
      · rw [hasks] at hu
        cases hu
    have hspell : ∀ u : Tree, u.isDottedField = false → spellOut u = u := by
      intro u hu
      rcases spellOut_cases u with ⟨-, heq⟩ | ⟨_, _, _, _, _, rfl, hobj, -⟩
      · exact heq
      · rw [Tree.isDottedField, hobj] at hu
        cases hu
    rw [normalize_eq, everywhere_of_items hgetter hasks, everywhere_of_items hspell hdotted]

/-- Normalization is done after one run: a second run changes nothing, no call of `getFieldProps` with a single argument
and no member of the fields with a dot is left, and the rule for the arguments of `getInputProps` makes no difference. -/
theorem normalize_normal (m : Module) :
    normalize (normalize m) = normalize m ∧
      (∀ p t, (normalize m).at? p = some t → t.asksForField = false ∧ t.isDottedField = false) ∧
      everywhere spellOut (everywhere convertGetter m) = normalize m :=
  ⟨normalize_eq_self_iff.mpr (isNormal_normalize m), isNormal_normalize m, (normalize_eq m).symm⟩

end Fieldset

end FormCodemod

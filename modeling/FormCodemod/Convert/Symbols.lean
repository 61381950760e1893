/-!
# Symbols

The exports of the target library that converted markup turns out to need, besides those
that are known from the start.
-/

namespace FormCodemod

/-- Which exports of the target library converted markup needs. -/
structure Symbols where
  formProvider : Bool := false
  getInputProps : Bool := false
  useFormMetadata : Bool := false
  deriving DecidableEq, Repr, Inhabited

namespace Symbols

def union (a b : Symbols) : Symbols :=
  { formProvider := a.formProvider || b.formProvider
    getInputProps := a.getInputProps || b.getInputProps
    useFormMetadata := a.useFormMetadata || b.useFormMetadata }

instance : Append Symbols := ⟨union⟩

/-- The exports by name, in alphabetical order. -/
def toList (s : Symbols) : List String :=
  (if s.formProvider then ["FormProvider"] else []) ++
    (if s.getInputProps then ["getInputProps"] else []) ++
    (if s.useFormMetadata then ["useFormMetadata"] else [])

@[simp] theorem append_empty (s : Symbols) : s ++ ({} : Symbols) = s := by
  cases s; simp [HAppend.hAppend, Append.append, union]

@[simp] theorem empty_append (s : Symbols) : ({} : Symbols) ++ s = s := by
  cases s; simp [HAppend.hAppend, Append.append, union]

theorem append_assoc (a b c : Symbols) : a ++ b ++ c = a ++ (b ++ c) := by
  cases a; cases b; cases c
  simp [HAppend.hAppend, Append.append, union, Bool.or_assoc]

end Symbols

end FormCodemod

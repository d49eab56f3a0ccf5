import LazyGL.Binding.Target

/-!
Declarators. A shape is what is left of a declaration without its type and its
name, and many shapes mean nothing. Those that mean something are the texts of
declarators: a value, one or two pointers, or an array. Main statement: the table
of shapes and the rule for arrays give a type to these and to no others, and the
type has the pointers of the declarator; any other shape leaves a warning.
-/

namespace LazyGL.Binding

/-- Memory that a declaration calls constant is not written. -/
def Mutability.ofConstant (constant : Bool) : Mutability := if constant then .const else .mutable

/-- What stands behind the type in a declaration. -/
inductive Form
  | value
  | pointer
  /-- Two stars, and maybe `const` between them. -/
  | pointerToPointer (constant : Bool)
  /-- A name with its dimension in brackets. -/
  | array (dimension : String)
deriving DecidableEq

def Form.text : Form → String
  | .value => "?"
  | .pointer => "*?"
  | .pointerToPointer constant => if constant then "*const*?" else "**?"
  | .array dimension => "?[" ++ dimension ++ "]"

structure Declarator where
  constant : Bool
  form : Form
deriving DecidableEq

namespace Declarator

def front (constant : Bool) : String := if constant then "const!" else "!"

def shape (d : Declarator) : String := front d.constant ++ d.form.text

/-- There is no rule for a constant that is passed as it is. -/
def Typed (d : Declarator) : Prop := d.constant = true → d.form ≠ .value

/-- An array has one dimension only. -/
def Single (d : Declarator) : Prop :=
  ∀ dimension, d.form = .array dimension → '[' ∉ dimension.toList ∧ ']' ∉ dimension.toList

/-- The pointers of a declarator, the outermost one first. -/
def levels (d : Declarator) : List Mutability :=
  match d.form with
  | .value => []
  | .pointer => [.ofConstant d.constant]
  | .pointerToPointer constant => [.ofConstant constant, .ofConstant d.constant]
  | .array _ => [.ofConstant d.constant]

def target (d : Declarator) (base : String) : Target :=
  match d.form with
  | .value => .value base
  | .pointer => .pointer (.ofConstant d.constant) (.ofBase base)
  | .pointerToPointer constant =>
      .pointerToPointer (.ofConstant constant) (.ofConstant d.constant) (.ofBase base)
  | .array _ => .pointer (.ofConstant d.constant) (.ofBase base)

theorem text_target (d : Declarator) {base : String} (h : base ≠ "void") :
    (d.target base).text = String.join (d.levels.map fun level => level.text ++ " ") ++ base := by
  have hbase : (Pointee.ofBase base).text = base := by
    rw [Pointee.ofBase, if_neg h, Pointee.text]
  unfold target levels
  split <;> simp [Target.text, hbase, String.join, String.append_assoc]

theorem isUnverified_target (d : Declarator) (base : String) :
    (d.target base).isUnverified = false := by
  unfold target
  split <;> rfl

end Declarator

/-! ### Arrays -/

namespace Target

theorem splitAtDimension_append {front : List Char} (h : '?' ∉ front) (read after : List Char) :
    splitAtDimension read (front ++ '?' :: '[' :: after) = some (read.reverse ++ front, after) := by
  induction front generalizing read with
  | nil => simp [splitAtDimension]
  | cons c front ih =>
      rw [List.mem_cons, not_or] at h
      have hstep : splitAtDimension read (c :: (front ++ '?' :: '[' :: after)) =
          splitAtDimension (c :: read) (front ++ '?' :: '[' :: after) := by
        rw [splitAtDimension]
        rintro _ rfl
        exact absurd rfl h.1
      rw [List.cons_append, hstep, ih h.2]
      simp

theorem eq_of_splitAtDimension {read chars before after : List Char}
    (h : splitAtDimension read chars = some (before, after)) :
    read.reverse ++ chars = before ++ '?' :: '[' :: after := by
  fun_induction splitAtDimension read chars with
  | case1 read => cases h
  | case2 read rest =>
      cases h
      rfl
  | case3 read c rest hother ih =>
      rw [← ih h]
      simp

/-- The text of an array is not in the table of shapes, nor is any other that ends
with a bracket. -/
theorem ofShape_of_bracket {shape : String} (h : shape.toList.getLast? = some ']') (base : String) :
    ofShape base shape =
      match arrayMutability? shape with
      | some mutability => .pointer mutability (.ofBase base)
      | none => .unverified (.ofBase base) := by
  unfold ofShape
  split
  case h_8 => rfl
  all_goals exact absurd h (by decide)

end Target

namespace Declarator

theorem toList_array (constant : Bool) (dimension : String) :
    (shape ⟨constant, .array dimension⟩).toList =
      (front constant).toList ++ '?' :: '[' :: (dimension.toList ++ [']']) := by
  simp [shape, Form.text]

theorem arrayMutability?_shape (constant : Bool) (dimension : String) :
    Target.arrayMutability? (shape ⟨constant, .array dimension⟩) = some (.ofConstant constant) := by
  have hfront : '?' ∉ (front constant).toList := by
    cases constant <;> decide
  rw [Target.arrayMutability?, toList_array, Target.splitAtDimension_append hfront]
  cases constant <;> simp [front, Mutability.ofConstant]

/-- The rule for arrays only takes what has the text of one. -/
theorem exists_of_arrayMutability? {text : String} {mutability : Mutability}
    (h : Target.arrayMutability? text = some mutability) :
    ∃ constant dimension, shape ⟨constant, .array dimension⟩ = text ∧
      mutability = .ofConstant constant := by
  unfold Target.arrayMutability? at h
  split at h
  · cases h
  next before after hsplit =>
  have htext := Target.eq_of_splitAtDimension hsplit
  split at h
  case isFalse => cases h
  next hlast =>
  obtain ⟨dimension, rfl⟩ := List.getLast?_eq_some_iff.mp hlast
  have hshape {constant : Bool} (hbefore : before = (front constant).toList) :
      shape ⟨constant, .array (String.ofList dimension)⟩ = text := by
    rw [← String.toList_inj, toList_array, ← hbefore, String.toList_ofList]
    exact htext.symm
  split at h
  · next hbefore =>
      cases h
      exact ⟨false, _, hshape hbefore, rfl⟩
  split at h
  · next hbefore =>
      cases h
      exact ⟨true, _, hshape hbefore, rfl⟩
  · cases h

/-! ### Shapes -/

/-- The text of a declarator is read as that declarator. -/
theorem ofShape_shape {d : Declarator} (h : d.Typed) (base : String) :
    Target.ofShape base d.shape = d.target base := by
  obtain ⟨constant, form⟩ := d
  cases form with
  | value =>
      cases constant with
      | false => rfl
      | true => exact absurd rfl (h rfl)
  | pointer => cases constant <;> rfl
  | pointerToPointer between => cases constant <;> cases between <;> rfl
  | array dimension =>
      have hlast : (shape ⟨constant, .array dimension⟩).toList.getLast? = some ']' := by
        rw [toList_array]
        refine List.getLast?_eq_some_iff.mpr
          ⟨(front constant).toList ++ '?' :: '[' :: dimension.toList, ?_⟩
        simp
      rw [Target.ofShape_of_bracket hlast, arrayMutability?_shape]
      rfl

/-- What is not guessed has the text of a declarator. -/
theorem exists_of_ofShape {base text : String}
    (h : (Target.ofShape base text).isUnverified = false) :
    ∃ d : Declarator, d.Typed ∧ d.shape = text := by
  unfold Target.ofShape at h
  split at h
  · exact ⟨⟨false, .value⟩, nofun, rfl⟩
  · exact ⟨⟨false, .pointer⟩, nofun, rfl⟩
  · exact ⟨⟨true, .pointer⟩, nofun, rfl⟩
  · exact ⟨⟨false, .pointerToPointer false⟩, nofun, rfl⟩
  · exact ⟨⟨true, .pointerToPointer false⟩, nofun, rfl⟩
  · exact ⟨⟨false, .pointerToPointer true⟩, nofun, rfl⟩
  · exact ⟨⟨true, .pointerToPointer true⟩, nofun, rfl⟩
  · split at h
    · next mutability hmutability =>
        obtain ⟨constant, dimension, htext, -⟩ := exists_of_arrayMutability? hmutability
        exact ⟨⟨constant, .array dimension⟩, nofun, htext⟩
    · cases h

/-- A guess is a pointer that allows writing. -/
theorem ofShape_of_isUnverified {base text : String}
    (h : (Target.ofShape base text).isUnverified = true) :
    Target.ofShape base text = .unverified (.ofBase base) := by
  unfold Target.ofShape at h ⊢
  split at h
  case h_8 => split at h <;> trivial
  all_goals cases h

end Declarator

/-- A parameter of an ordinary base type is given a type by a rule if its shape is
the text of a typed declarator, and then it has the pointers of that declarator.
Any other shape is taken for a pointer, with one warning. Of an array the text of
the dimension is not looked into: the declarators with one dimension at most are
the only ones as long as there is no bracket in it. -/
theorem ofParam_declarator {base : String} (hvoid : base ≠ "void")
    (htag : base ∉ Target.handleTags) (text : String) :
    (∀ d : Declarator, d.Typed → d.shape = text →
        Target.ofParam base text = d.target base ∧
          (d.target base).text =
            String.join (d.levels.map fun level => level.text ++ " ") ++ base ∧
          Target.paramLog base text = []) ∧
      ((¬∃ d : Declarator, d.Typed ∧ d.shape = text) →
        Target.ofParam base text = .unverified (.base base) ∧
          Target.paramLog base text = [⟨.warn, "no rule for parameter shape " ++ Quoted.quote text ++
            " of " ++ base ++ ", using " ++ (Target.ofParam base text).text⟩]) ∧
      ((∀ d : Declarator, d.shape = text → d.Single) →
        ((Target.ofParam base text).isUnverified = false ↔
          ∃ d : Declarator, d.Typed ∧ d.Single ∧ d.shape = text)) := by
  have hshape : Target.ofParam base text = Target.ofShape base text := by
    rw [Target.ofParam, if_neg hvoid, if_neg htag]
  have htarget (d : Declarator) (htyped : d.Typed) (hd : d.shape = text) :
      Target.ofParam base text = d.target base := by
    rw [hshape, ← hd]
    exact Declarator.ofShape_shape htyped base
  refine ⟨fun d htyped hd => ⟨htarget d htyped hd, d.text_target hvoid, ?_⟩,
    fun hother => ?_, fun hsingle => ⟨fun hrule => ?_, ?_⟩⟩
  · rw [Target.paramLog, htarget d htyped hd, d.isUnverified_target]
    rfl
  · have hguess : Target.ofParam base text = .unverified (.base base) := by
      have hpointee : Pointee.ofBase base = .base base := if_neg hvoid
      rw [hshape, ← hpointee]
      refine Declarator.ofShape_of_isUnverified ?_
      rw [← Bool.not_eq_false]
      exact fun hrule => hother (Declarator.exists_of_ofShape hrule)
    refine ⟨hguess, ?_⟩
    rw [Target.paramLog, hguess]
    rfl
  · rw [hshape] at hrule
    obtain ⟨d, htyped, hd⟩ := Declarator.exists_of_ofShape hrule
    exact ⟨d, htyped, hsingle d hd, hd⟩
  · rintro ⟨d, htyped, -, hd⟩
    rw [htarget d htyped hd]
    exact d.isUnverified_target base

/-- A constant pointer behind another one, an array, and a word that no rule
knows. -/
theorem ofParam_declarator_pointers :
    Target.ofParam "GLchar" "const!**?" = .pointerToPointer .mutable .const (.base "GLchar") ∧
      Target.paramLog "GLchar" "const!**?" = [] ∧
      Target.ofParam "GLchar" "!?[16]" = .pointer .mutable (.base "GLchar") ∧
      Target.ofParam "GLchar" "volatile!*?" = .unverified (.base "GLchar") ∧
      Target.paramLog "GLchar" "volatile!*?" = [⟨.warn, "no rule for parameter shape " ++
        "\"volatile!*?\" of GLchar, using *mut GLchar"⟩] := by
  have hrule (text : String) :=
    ofParam_declarator (show "GLchar" ≠ "void" by decide) (by decide) text
  obtain ⟨hpointers, -, hsilent⟩ := (hrule _).1 ⟨true, .pointerToPointer false⟩ nofun rfl
  obtain ⟨harray, -, -⟩ := (hrule _).1 ⟨false, .array "16"⟩ nofun rfl
  have hunknown : ¬∃ d : Declarator, d.Typed ∧ d.shape = "volatile!*?" := by
    rintro ⟨⟨constant, form⟩, -, hshape⟩
    have hfirst := congrArg (fun text => text.toList.head?) hshape
    cases constant <;> simp [Declarator.shape, Declarator.front] at hfirst
  obtain ⟨hguess, hwarned⟩ := (hrule _).2.1 hunknown
  refine ⟨hpointers, hsilent, harray, hguess, hwarned.trans ?_⟩
  decide +kernel

example : Target.ofParam "GLint" "const!?" = .unverified (.base "GLint") := by decide

/-- Not every shape that a rule covers is the text of a declarator with at most one
dimension: two dimensions are taken for one, without a warning. -/
theorem ofParam_two_dimensions :
    ¬∀ base text : String, base ≠ "void" → base ∉ Target.handleTags →
      (Target.ofParam base text).isUnverified = false →
        ∃ d : Declarator, d.Single ∧ d.shape = text := by
  intro h
  obtain ⟨⟨constant, form⟩, hsingle, hshape⟩ :=
    h "GLfloat" "!?[2][3]" (by decide) (by decide) (by decide)
  cases form with
  | value => cases constant <;> exact absurd hshape (by decide)
  | pointer => cases constant <;> exact absurd hshape (by decide)
  | pointerToPointer between =>
      cases constant <;> cases between <;> exact absurd hshape (by decide)
  | array dimension =>
      -- a dimension without brackets leaves the shape with only one that closes
      have hclosing : ']' ∉ dimension.toList := (hsingle dimension rfl).2
      have hfront : ']' ∉ (Declarator.front constant).toList := by
        cases constant <;> decide
      have hcount := congrArg (fun text => text.toList.count ']') hshape
      simp only [Declarator.toList_array, List.count_append, List.count_cons,
        List.count_eq_zero_of_not_mem hfront, List.count_eq_zero_of_not_mem hclosing] at hcount
      exact absurd hcount (by decide)

end LazyGL.Binding

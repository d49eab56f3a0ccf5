import LazyGL.Proofs.Binding.Emission
import LazyGL.Proofs.Binding.Lines

/-!
The texts of a signature stay on one line if those of its command do. A type is
made of the names in it and of fixed words.
-/

namespace LazyGL.Binding

def OneLineTarget : Target → Prop
  | .void => True
  | .value base => OneLine base
  | .opaqueHandle => True
  | .pointer _ pointee => OneLine pointee.text
  | .pointerToPointer _ _ pointee => OneLine pointee.text
  | .unverified pointee => OneLine pointee.text

theorem oneLine_target {target : Target} (h : OneLineTarget target) : OneLine target.text := by
  have hmutability (mutability : Mutability) : OneLine mutability.text := by
    cases mutability <;> decide
  have hspace : OneLine " " := oneLine_literal
  cases target with
  | void => decide
  | value base => exact h
  | opaqueHandle => decide
  | pointer mutability pointee =>
      simp only [Target.text, oneLine_append]
      exact ⟨⟨hmutability mutability, hspace⟩, h⟩
  | pointerToPointer outer inner pointee =>
      simp only [Target.text, oneLine_append]
      exact ⟨⟨⟨⟨hmutability outer, hspace⟩, hmutability inner⟩, hspace⟩, h⟩
  | unverified pointee => exact oneLine_append.mpr ⟨oneLine_literal, h⟩

theorem oneLineTarget_ofShape {base : String} (h : OneLine base) (shape : String) :
    OneLineTarget (.ofShape base shape) := by
  have hpointee : OneLine (Pointee.ofBase base).text := by
    unfold Pointee.ofBase
    split
    · decide
    · exact h
  unfold Target.ofShape
  split
  · exact h
  · exact hpointee
  · exact hpointee
  · exact hpointee
  · exact hpointee
  · exact hpointee
  · exact hpointee
  · split <;> exact hpointee

theorem oneLineTarget_ofVoidShape? {shape : String} {target : Target}
    (h : Target.ofVoidShape? shape = some target) : OneLineTarget target := by
  have hbytes : OneLine Pointee.bytes.text := oneLine_literal
  unfold Target.ofVoidShape? at h
  split at h
  · cases h; trivial
  · cases h; exact hbytes
  · cases h; exact hbytes
  · cases h; exact hbytes
  · cases h; exact hbytes
  · cases h; exact hbytes
  · cases h; exact hbytes
  · cases h

theorem oneLineTarget_ofParam {base : String} (h : OneLine base) (shape : String) :
    OneLineTarget (.ofParam base shape) := by
  unfold Target.ofParam
  split
  · cases hvoid : Target.ofVoidShape? shape with
    | none => exact oneLineTarget_ofShape h shape
    | some target => exact oneLineTarget_ofVoidShape? hvoid
  · split
    · trivial
    · exact oneLineTarget_ofShape h shape

theorem oneLineTarget_ofReturn {returnType : String} (h : OneLine returnType) :
    OneLineTarget (.ofReturn returnType) := by
  unfold Target.ofReturn
  split
  · trivial
  · trivial
  · exact oneLine_literal
  · exact oneLine_literal
  · exact h

structure SingleLine (command : Command) : Prop where
  name : OneLine command.name
  returnType : OneLine command.returnType
  params : ∀ param ∈ command.params, OneLine param.name ∧ OneLine param.base

theorem oneLine_paramList {command : Command} (h : SingleLine command) :
    OneLine (Signature.ofCommand command).paramList := by
  refine oneLine_intercalate oneLine_literal ?_
  simp only [Signature.ofCommand, List.map_map, List.forall_mem_map]
  intro param hparam
  obtain ⟨hname, hbase⟩ := h.params param hparam
  have htarget := oneLine_target (oneLineTarget_ofParam hbase param.shape)
  exact oneLine_append.mpr ⟨oneLine_append.mpr ⟨hname, oneLine_literal⟩, htarget⟩

theorem oneLine_argumentList {command : Command} (h : SingleLine command) :
    OneLine (Signature.ofCommand command).argumentList := by
  refine oneLine_intercalate oneLine_literal ?_
  simp only [Signature.ofCommand, List.map_map, List.forall_mem_map]
  exact fun param hparam => (h.params param hparam).1

theorem oneLine_returnClause {command : Command} (h : SingleLine command) :
    OneLine (Signature.ofCommand command).returnClause := by
  unfold Signature.returnClause
  split
  · decide
  · have htarget := oneLine_target (oneLineTarget_ofReturn h.returnType)
    exact oneLine_append.mpr ⟨oneLine_literal, htarget⟩

end LazyGL.Binding

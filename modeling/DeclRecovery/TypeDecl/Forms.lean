import DeclRecovery.Position.Map
import DeclRecovery.TypeDecl.Basic

/-!
Changing how the constructors of a type are written.
-/

namespace DeclRecovery.TypeDecl

/-- The type with every constructor form changed by `f`. -/
def mapForms (f : CtorId → Constructor → Form) (t : TypeDecl) : TypeDecl :=
  { t with constructors := t.constructors.mapIdx fun i c => { c with form := f i c } }

/-- Gives the listed constructors, all of which have to exist, their new forms. -/
def withForms (forms : PosMap Form) (t : TypeDecl) : Except OutOfRange TypeDecl := do
  forms.keys.toList.forM fun id => discard (t.constructor id)
  return t.mapForms fun i c => (forms.find? i).getD c.form

end DeclRecovery.TypeDecl

import DebugSymbols.Model.Merge

/-!
# Renumbering

Renumbering twice is renumbering by the composition, and the renumbering that
fixes every handle changes nothing.
-/

namespace DebugSymbols

def Renumbering.trans (f g : Renumbering) : Renumbering where
  composite := g.composite ∘ f.composite
  enum := g.enum ∘ f.enum
  typedef := g.typedef ∘ f.typedef

/-! ## Types -/

mutual

theorem CType.renumber_id : ∀ t : CType, t.renumber {} = t
  | .base _ => rfl
  | .pointer t => congrArg CType.pointer (CType.renumber_id t)
  | .array t n => congrArg (CType.array · n) (CType.renumber_id t)
  | .function r ps v => by rw [CType.renumber, CType.renumber_id r, renumberParams_id ps]
  | .composite _ _ => rfl
  | .enum _ => rfl
  | .typedef _ => rfl

theorem renumberParams_id : ∀ ps : List (Decl CType), renumberParams {} ps = ps
  | [] => rfl
  | ⟨a, s, c, t, n⟩ :: ps => by rw [renumberParams, CType.renumber_id t, renumberParams_id ps]

end

mutual

theorem CType.renumber_renumber (f g : Renumbering) : ∀ t : CType,
    (t.renumber f).renumber g = t.renumber (f.trans g)
  | .base _ => rfl
  | .pointer t => congrArg CType.pointer (CType.renumber_renumber f g t)
  | .array t n => congrArg (CType.array · n) (CType.renumber_renumber f g t)
  | .function r ps v => by
    simp only [CType.renumber, CType.renumber_renumber f g r, renumberParams_renumber f g ps]
  | .composite _ _ => rfl
  | .enum _ => rfl
  | .typedef _ => rfl

theorem renumberParams_renumber (f g : Renumbering) : ∀ ps : List (Decl CType),
    renumberParams g (renumberParams f ps) = renumberParams (f.trans g) ps
  | [] => rfl
  | ⟨a, s, c, t, n⟩ :: ps => by
    simp only [renumberParams, CType.renumber_renumber f g t, renumberParams_renumber f g ps]

end

theorem CType.category_renumber (f : Renumbering) (t : CType) : (t.renumber f).category = t.category := by
  cases t <;> rfl

/-! ## Declarations and definitions -/

theorem Decl.renumber_id : Decl.renumber {} = id := by
  funext d
  simp [Decl.renumber, CType.renumber_id]

theorem Decl.renumber_comp (f g : Renumbering) :
    Decl.renumber g ∘ Decl.renumber f = Decl.renumber (f.trans g) := by
  funext d
  simp [Decl.renumber, CType.renumber_renumber]

theorem Function.renumber_id : Function.renumber {} = id := by
  funext fn
  have hblock : Block.renumber {} = id := by
    funext b
    simp [Block.renumber, Decl.renumber_id]
  simp [Function.renumber, Signature.renumber, CType.renumber_id, Decl.renumber_id, hblock]

theorem Function.renumber_comp (f g : Renumbering) :
    Function.renumber g ∘ Function.renumber f = Function.renumber (f.trans g) := by
  funext fn
  have hblock : Block.renumber g ∘ Block.renumber f = Block.renumber (f.trans g) := by
    funext b
    simp [Block.renumber, Decl.renumber_comp]
  simp [Function.renumber, Signature.renumber, CType.renumber_renumber, Decl.renumber_comp, hblock]

theorem Field.renumber_id : Field.renumber {} = id := by
  funext x
  simp [Field.renumber, CType.renumber_id]

theorem Field.renumber_comp (f g : Renumbering) :
    Field.renumber g ∘ Field.renumber f = Field.renumber (f.trans g) := by
  funext x
  simp [Field.renumber, CType.renumber_renumber]

end DebugSymbols

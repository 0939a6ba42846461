import Resolution.Proofs.Returning
import Resolution.Symbol.Kind
import Resolution.Type.Conversion

/-!
# Reading types

What the questions about a type answer, in terms of the entry that is stored for it.  A question
faults where the type is not stored, and some walks from type to type may be without end.
-/

namespace Resolution

/-- Sort of the type that a symbol of a sort declares. -/
def SymbolKind.typeKind? : SymbolKind → Option TypeKind
  | .space => some .space
  | .enum => some .enum
  | .flags => some .flags
  | .classType => some .classType
  | .interface => some .interface
  | .typeParameter => some .parameter
  | _ => none

def Answers {α : Type} (question : Except Fault α) : Prop := ∃ answer, question = .ok answer

section Answers

variable {α β : Type}

@[simp] theorem answers_pure (answer : α) : Answers (pure answer : Except Fault α) := ⟨answer, rfl⟩

theorem Answers.bind {question : Except Fault α} {next : α → Except Fault β}
    (first : Answers question)
    (rest : ∀ answer, Answers (next answer)) : Answers (question >>= next) := by
  obtain ⟨answer, rfl⟩ := first
  exact rest answer

theorem Answers.ite {condition : Prop} [Decidable condition] {yes no : Except Fault α}
    (first : Answers yes)
    (second : Answers no) : Answers (if condition then yes else no) := by
  split
  · exact first
  · exact second

end Answers

namespace Types

variable {types : Types} {type : TypeId} {entry : TypeEntry}

theorem entry_eq_ok_iff : types.entry type = .ok entry ↔ types.entries.get? type = some entry :=
  Table.fetch_eq_ok_iff _ _ _

theorem membersOf_eq_ok_iff {members : List (String × MemberId)} :
    types.membersOf type = .ok members ↔
      ∃ entry, types.entries.get? type = some entry ∧ entry.members.sorted = members := by
  unfold membersOf
  simp only [except_bind_eq_ok_iff, except_pure_eq_ok_iff, entry_eq_ok_iff]

theorem kind_eq_ok_iff {kind : TypeKind} :
    types.kind type = .ok kind ↔ ∃ entry, types.entries.get? type = some entry ∧
    entry.kind = kind := by
  unfold Types.kind
  simp only [except_bind_eq_ok_iff, except_pure_eq_ok_iff, entry_eq_ok_iff]

theorem isEnum_eq_ok_iff {answer : Bool} : types.isEnum type = .ok answer ↔
      ∃ entry, types.entries.get? type = some entry ∧ entry.kind.isEnum = answer := by
  unfold isEnum
  simp only [except_bind_eq_ok_iff, except_pure_eq_ok_iff, kind_eq_ok_iff]
  grind

variable (stored : types.entries.get? type = some entry)

include stored

theorem answers_kind : Answers (types.kind type) :=
  ⟨_, kind_eq_ok_iff.mpr ⟨entry, stored, rfl⟩⟩

theorem answers_isEnum : Answers (types.isEnum type) :=
  ⟨_, isEnum_eq_ok_iff.mpr ⟨entry, stored, rfl⟩⟩

theorem answers_isNumberLike : Answers (types.isNumberLike type) :=
  .ite (answers_pure true) (answers_isEnum stored)

theorem answers_isIntegerLike : Answers (types.isIntegerLike type) :=
  .ite (answers_pure true) (answers_isEnum stored)

theorem answers_isReference : Answers (types.isReference type) :=
  .ite (answers_pure false) (.bind (answers_kind stored) fun _ => answers_pure _)

end Types
end Resolution

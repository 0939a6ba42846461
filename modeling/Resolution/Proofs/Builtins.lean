import Mathlib.Data.List.Forall2
import Resolution.Prelude
import Resolution.Proofs.Surgery
import Resolution.Type.Basic

/-!
# The file of built-in declarations

The declarations of the built-in classes stand in one block, which only the built-in file has.  No
other node has one of them as a part, whatever the source is that the built-in file joins, so that
each of them is met once when everything is declared.
-/

namespace Resolution

/-- The built-in type that the declaration with a header introduces. -/
def Header.builtin? (header : Header) : Option TypeId :=
  if header.span.isPrelude then Types.builtin? header.name else none

theorem Header.builtin?_of_name {header : Header} (plain : Types.builtin? header.name = none) :
    header.builtin? = none := by
  rw [Header.builtin?, plain, ite_self]

namespace Tree

variable {before after : Tree} {id : NodeId}

/-- A node that declares no built-in class. -/
def Ordinary (tree : Tree) (id : NodeId) : Prop :=
  ∃ node, tree.get? id = some node ∧ ∀ header, node.kind.header? = some header →
    header.builtin? = none

/-- A node that declares a built-in class. -/
def DeclaresBuiltin (tree : Tree) (id : NodeId) (type : TypeId) : Prop :=
  ∃ node header parameters bases body, tree.get? id = some node ∧
    node.kind = .objectDecl header .classType parameters bases body ∧ header.builtin? = some type

/-- The parts of nodes declare no built-in classes. -/
def Sheltered (tree : Tree) : Prop :=
  ∀ id node, tree.get? id = some node → ∀ child ∈ node.kind.children, tree.Ordinary child

instance (tree : Tree) (id : NodeId) : Decidable (tree.Ordinary id) :=
  decidable_of_iff
    ((tree.get? id).any (fun node => node.kind.header?.all fun header => header.builtin?.isNone) =
      true) (by
      simp only [Ordinary, Option.any_eq_true, Option.all_eq_true, Option.isNone_iff_eq_none])

instance (tree : Tree) : Decidable tree.Sheltered :=
  decidable_of_iff
    (∀ id ∈ tree.handles, ((tree.get? id).map fun node => node.kind.children).getD
      [] |>.all fun child =>
      decide (tree.Ordinary child)) (by
      simp only [Sheltered, Table.mem_handles, List.all_eq_true, decide_eq_true_eq]
      constructor
      · intro checked id node stored child listed
        exact checked id (Table.lt_size_of_get? stored) child (by simpa [stored] using listed)
      · intro sheltered id inside child listed
        obtain ⟨node, stored⟩ := Table.exists_get?_of_lt inside
        exact sheltered id node stored child (by simpa [stored] using listed))

/-- Nodes join, and the sorts of the others stay. -/
def Grows (before after : Tree) : Prop :=
  ∀ id node, before.get? id = some node → ∃ later, after.get? id = some later ∧
    later.kind = node.kind

theorem Grows.refl (tree : Tree) : tree.Grows tree := fun _ node stored => ⟨node, stored, rfl⟩

theorem Grows.trans {first second third : Tree} (one : first.Grows second)
    (two : second.Grows third) :
    first.Grows third :=
  Table.later_trans one two fun _ _ _ kind same => same.trans kind

theorem Ordinary.grow (ordinary : before.Ordinary id) (grows : before.Grows after) :
    after.Ordinary id := by
  obtain ⟨node, stored, plain⟩ := ordinary
  obtain ⟨later, found, kind⟩ := grows id node stored
  exact ⟨later, found, kind ▸ plain⟩

theorem DeclaresBuiltin.grow {type : TypeId}
    (declares : before.DeclaresBuiltin id type) (grows : before.Grows after) :
    after.DeclaresBuiltin id type := by
  obtain ⟨node, header, parameters, bases, body, stored, kind, builtin⟩ := declares
  obtain ⟨later, found, same⟩ := grows id node stored
  exact ⟨later, header, parameters, bases, body, found, same.trans kind, builtin⟩

/-- A stored node joins, and its parts get it as their parent. -/
theorem grows_alloc {tree final : Tree} {kind : NodeKind} {span : Span}
    (lookup : ∀ id, final.get? id =
      if id = tree.next then some { kind, span } else tree.adopted tree.next kind.children id) :
    tree.Grows final ∧ final.get? tree.next = some { kind, span } ∧
      ∀ id node, id ≠ tree.next → final.get? id = some node →
        ∃ earlier, tree.get? id = some earlier ∧ node.kind = earlier.kind := by
  refine ⟨fun id node stored => ?_, (lookup _).trans (if_pos rfl), fun id node different found =>
    ?_⟩
  · rw [lookup, if_neg (Table.ne_next_of_get? stored), adopted]
    split
    · exact ⟨{ node with parent := some tree.next }, by rw [stored]; rfl, rfl⟩
    · exact ⟨node, stored, rfl⟩
  · rw [lookup, if_neg different, adopted] at found
    split at found
    · obtain ⟨earlier, stored, rfl⟩ := Option.map_eq_some_iff.mp found
      exact ⟨earlier, stored, rfl⟩
    · exact ⟨node, found, rfl⟩

end Tree

/-! ## Building -/

namespace Draft

/-- A draft of the built-in file before the block of the classes. -/
structure Fine (draft : Draft) : Prop where
  file : draft.file = Span.preludeFile
  sheltered : draft.tree.Sheltered

/-- A draft was continued. -/
structure Continues (before after : Draft) : Prop where
  fine : after.Fine
  grows : before.tree.Grows after.tree

theorem Continues.trans {first second third : Draft} (one : first.Continues second)
    (two : second.Continues third) :
    first.Continues third :=
  ⟨two.fine, one.grows.trans two.grows⟩

end Draft

namespace Build

variable {draft : Draft} {kind : NodeKind} {name : String}

theorem ensures_node {post : NodeId → Draft → Prop} (holds : ∀ after : Draft,
    after.file = draft.file →
      (∃ span, ∀ id, after.tree.get? id =
        if id = draft.tree.next then some { kind, span } else draft.tree.adopted draft.tree.next
        kind.children id) →
      post draft.tree.next after) : (node kind).Ensures draft post := by
  unfold node nextSpan
  refine Action.ensures_bind.mpr (Action.ensures_bind.mpr (Action.ensures_get.mpr ?_))
  refine Action.ensures_bind.mpr fun _ _ run => ?_
  cases run
  refine .pure (Action.ensures_zoom.mpr (Tree.ensures_alloc fun final _ lookup _ => ?_))
  exact holds _ rfl ⟨_, lookup⟩

variable (fine : draft.Fine)

include fine

section

variable (parts : ∀ child ∈ kind.children, draft.tree.Ordinary child)

include parts

theorem ensures_shelteredNode :
    (node kind).Ensures draft fun id after =>
      draft.Continues after ∧ ∃ node, after.tree.get? id = some node ∧ node.kind = kind := by
  refine ensures_node fun after file ⟨span, lookup⟩ => ?_
  obtain ⟨grows, here, others⟩ := Tree.grows_alloc lookup
  refine ⟨⟨⟨file.trans fine.file, ?_⟩, grows⟩, _, here, rfl⟩
  intro id node found child listed
  by_cases same : id = draft.tree.next
  · subst same
    cases here.symm.trans found
    exact (parts child listed).grow grows
  · obtain ⟨earlier, stored, kind⟩ := others id node same found
    rw [kind] at listed
    exact (fine.sheltered id earlier stored child listed).grow grows

/-- A node without a header, or with one that declares no built-in class. -/
theorem ensures_ordinaryNode (plain : ∀ header, kind.header? = some header →
    header.builtin? = none) :
    (node kind).Ensures draft fun id after => draft.Continues after ∧ after.tree.Ordinary id := by
  refine (ensures_shelteredNode fine parts).weaken ?_
  rintro id after ⟨continues, node, stored, rfl⟩
  exact ⟨continues, node, stored, plain⟩

omit parts in
theorem ensures_intern {post : Unit → Draft → Prop}
    (holds : ∀ after, draft.Continues after → after.tree = draft.tree → post () after) :
    (intern name).Ensures draft post :=
  Action.ensures_modify.mpr (holds _ ⟨⟨fine.file, fine.sheltered⟩, .refl _⟩ rfl)

omit parts in
/-- A header of the built-in file. -/
theorem ensures_header {post : Header → Draft → Prop}
    (holds : ∀ span after, span.isPrelude = true → draft.Continues after → after.tree = draft.tree →
      post { name, span } after) : (header name).Ensures draft post := by
  unfold header nextSpan
  refine Action.ensures_bind.mpr (Action.ensures_bind.mpr (Action.ensures_get.mpr ?_))
  refine Action.ensures_bind.mpr fun _ _ run => ?_
  cases run
  refine .pure (Action.ensures_bind.mpr (Action.ensures_modify.mpr (.pure ?_)))
  refine holds _ _ ?_ ⟨⟨fine.file, fine.sheltered⟩, .refl _⟩ rfl
  simp [Span.isPrelude, fine.file]

omit parts in
theorem ensures_ordinaryNodes {β : Type} {items : List β} {step : β → Build NodeId}
    (each : ∀ item ∈ items, ∀ here : Draft, here.Fine → draft.tree.Grows here.tree →
      (step item).Ensures here fun id after => here.Continues after ∧ after.tree.Ordinary id) :
    (items.mapM step).Ensures draft fun ids after =>
      draft.Continues after ∧ ∀ id ∈ ids, after.tree.Ordinary id := by
  have walked := @Action.ensures_mapM_all _ _ _ draft Draft.Fine items step (fun id here =>
    here.tree.Ordinary id) fine
    (fun here there => here.tree.Grows there.tree) (fun _ => .refl _) (fun _ _ _ => .trans)
    (fun _ _ _ grows ordinary => ordinary.grow grows) fun item listed here fineHere grows =>
      (each item listed here fineHere grows).weaken fun id after ⟨continues, ordinary⟩ =>
        ⟨continues.fine, continues.grows, ordinary⟩
  refine walked.weaken ?_
  rintro ids after ⟨fineAfter, grows, _, ordinary⟩
  exact ⟨⟨fineAfter, grows⟩, ordinary⟩

theorem ensures_noted {text : String}
    (plain : ∀ header, kind.header? = some header → header.builtin? = none) :
    (do intern text; node kind).Ensures draft fun id after => draft.Continues after ∧
    after.tree.Ordinary id := by
  refine Action.ensures_bind.mpr (ensures_intern fine fun noted continues same => ?_)
  refine (ensures_ordinaryNode continues.fine (same ▸ parts) plain).weaken ?_
  rintro id after ⟨further, ordinary⟩
  exact ⟨continues.trans further, ordinary⟩

end

theorem ensures_declared {kind : Header → NodeKind}
    (parts : ∀ span, ∀ child ∈ (kind { name, span }).children, draft.tree.Ordinary child)
    (headed : ∀ header, (kind header).header? = some header) (plain : Types.builtin? name = none) :
    (do let written ← header name; node (kind written)).Ensures draft fun id after =>
      draft.Continues after ∧ after.tree.Ordinary id := by
  refine Action.ensures_bind.mpr (ensures_header fine fun span written _ continues same => ?_)
  refine (ensures_ordinaryNode continues.fine (same ▸ parts span) fun other also => ?_).weaken ?_
  · rw [headed] at also
    cases also
    exact Header.builtin?_of_name plain
  · rintro id after ⟨further, ordinary⟩
    exact ⟨continues.trans further, ordinary⟩

theorem ensures_name :
    (Build.name name).Ensures draft fun id after => draft.Continues after ∧
    after.tree.Ordinary id :=
  ensures_noted fine (by simp [NodeKind.children]) fun _ headed => by cases headed

end Build

/-! ## The built-in classes -/

namespace Prelude

variable {draft : Draft} {signature : Signature}

/-- None of the names is that of a built-in class. -/
def Signature.Plain (signature : Signature) : Prop :=
  Types.builtin? signature.name = none ∧ ∀ argument ∈ signature.arguments,
    Types.builtin? argument.1 = none

theorem ensures_buildArgument {argument : String × String} (fine : draft.Fine)
    (plain : Types.builtin? argument.1 = none) :
    (buildArgument argument).Ensures draft fun id after => draft.Continues after ∧
    after.tree.Ordinary id := by
  refine .bind (Build.ensures_name fine) ?_
  rintro type named ⟨continues, ordinary⟩
  refine (Build.ensures_declared continues.fine (fun span child listed => ?_) (fun _ =>
    rfl) plain).weaken ?_
  · obtain rfl : child = type := by simpa [NodeKind.children] using listed
    exact ordinary
  · rintro id after ⟨further, ordinaryAfter⟩
    exact ⟨continues.trans further, ordinaryAfter⟩

theorem ensures_buildSignature {header : Header} (fine : draft.Fine)
    (plain : signature.Plain) (named : header.name = signature.name)
    (decorations : ∀ decoration ∈ header.decorations, draft.tree.Ordinary decoration) :
    (buildSignature signature header).Ensures draft fun id after => draft.Continues after ∧
    after.tree.Ordinary id := by
  refine .bind (Build.ensures_ordinaryNodes fine fun argument listed here fineHere _ =>
    ensures_buildArgument fineHere (plain.2 argument listed)) ?_
  rintro arguments argued ⟨one, ordinaryArguments⟩
  have resulted : (signature.result.mapM Build.name).Ensures argued fun result after =>
      argued.Continues after ∧ ∀ id ∈ result, after.tree.Ordinary id := by
    cases signature.result with
    | none => exact .pure ⟨⟨one.fine, .refl _⟩, nofun⟩
    | some name =>
      rw [Option.mapM_some]
      refine Action.ensures_map.mpr ((Build.ensures_name one.fine).weaken ?_)
      rintro id after ⟨continues, ordinary⟩
      refine ⟨continues, ?_⟩
      rintro other ⟨⟩
      exact ordinary
  refine .bind resulted ?_
  rintro result typed ⟨two, ordinaryResult⟩
  refine (Build.ensures_ordinaryNode two.fine ?_ ?_).weaken ?_
  · intro child listed
    simp only [NodeKind.children, List.append_nil, Option.toList_none, List.mem_append,
      Option.mem_toList] at listed
    rcases listed with (decoration | argument) | result
    · exact (decorations child (by simpa using decoration)).grow (one.trans two).grows
    · exact (ordinaryArguments child argument).grow two.grows
    · exact ordinaryResult child result
  · rintro other ⟨⟩
    exact Header.builtin?_of_name (named ▸ plain.1)
  · rintro id after ⟨three, ordinary⟩
    exact ⟨(one.trans two).trans three, ordinary⟩

theorem ensures_buildFunction (fine : draft.Fine) (plain : signature.Plain) :
    (buildFunction signature).Ensures draft fun id after => draft.Continues after ∧
    after.tree.Ordinary id := by
  refine .bind (Build.ensures_ordinaryNodes fine fun token _ here fineHere _ => ?_) ?_
  · refine .bind (Build.ensures_noted fineHere (by simp [NodeKind.children])
      fun _ headed => by cases headed) ?_
    rintro text noted ⟨one, ordinary⟩
    refine (Build.ensures_noted one.fine ?_ fun _ headed => by cases headed).weaken ?_
    · intro child listed
      obtain rfl : child = text := by simpa [NodeKind.children] using listed
      exact ordinary
    · rintro id after ⟨two, ordinaryAfter⟩
      exact ⟨one.trans two, ordinaryAfter⟩
  rintro decorations decorated ⟨one, ordinaryDecorations⟩
  refine Action.ensures_bind.mpr (Build.ensures_header one.fine fun span written _ two same => ?_)
  refine (ensures_buildSignature two.fine plain rfl (same ▸ ordinaryDecorations)).weaken ?_
  rintro id after ⟨three, ordinary⟩
  exact ⟨(one.trans two).trans three, ordinary⟩

/-- None of the names inside of a class is that of a built-in class. -/
def Shape.Plain (shape : Shape) : Prop :=
  (∀ name ∈ shape.parameters, Types.builtin? name = none) ∧ ∀ function ∈ shape.functions,
    function.Plain

theorem ensures_buildClass {shape : Shape} {type : TypeId} (fine : draft.Fine) (plain : shape.Plain)
    (builtin : Types.builtin? shape.name = some type) :
    (buildClass shape).Ensures draft fun id after => draft.Continues after ∧
    after.tree.DeclaresBuiltin id type := by
  refine .bind (Build.ensures_ordinaryNodes fine fun function listed here fineHere _ =>
    ensures_buildFunction fineHere (plain.2 function listed)) ?_
  rintro functions built ⟨one, ordinaryFunctions⟩
  refine Action.ensures_bind.mpr
    (Build.ensures_header one.fine fun span written isPrelude two sameWritten => ?_)
  refine .bind (Build.ensures_ordinaryNodes two.fine fun name listed here fineHere _ =>
    Build.ensures_declared fineHere (by simp [NodeKind.children]) (fun _ => rfl)
      (plain.1 name listed)) ?_
  rintro parameters parameterized ⟨three, ordinaryParameters⟩
  refine .bind (Build.ensures_ordinaryNode three.fine ?_ fun _ headed => by cases headed) ?_
  · intro child listed
    exact (ordinaryFunctions child listed).grow (two.trans three).grows
  rintro body blocked ⟨four, ordinaryBody⟩
  refine (Build.ensures_shelteredNode four.fine ?_).weaken ?_
  · intro child listed
    simp only [NodeKind.children, Header.withModifier, List.nil_append, List.append_nil,
      List.mem_append,
      List.mem_singleton] at listed
    rcases listed with parameter | rfl
    · exact (ordinaryParameters child parameter).grow four.grows
    · exact ordinaryBody
  · rintro id after ⟨five, node, stored, kind⟩
    refine ⟨(((one.trans two).trans three).trans four).trans five, node, _, _, _, _, stored, kind,
      ?_⟩
    simp [Header.builtin?, Header.withModifier, isPrelude, builtin]

theorem ensures_buildClasses {shapes : List Shape} {types : List TypeId} (fine : draft.Fine)
    (named : List.Forall₂ (fun shape type => shape.Plain ∧ Types.builtin? shape.name = some type)
      shapes types) :
    (shapes.mapM buildClass).Ensures draft fun ids after =>
      draft.Continues after ∧ List.Forall₂ after.tree.DeclaresBuiltin ids types := by
  induction named generalizing draft with
  | nil => exact .pure ⟨⟨fine, .refl _⟩, .nil⟩
  | cons first _ ih =>
    rw [List.mapM_cons]
    refine .bind (ensures_buildClass fine first.1 first.2) ?_
    rintro id built ⟨one, declares⟩
    refine .bind (ih one.fine) ?_
    rintro ids after ⟨two, others⟩
    exact .pure ⟨one.trans two, .cons (declares.grow two.grows) others⟩

/-- Types of the built-in classes in order. -/
def classTypes : List TypeId := [.bool, .int, .float, .double, .string, .list, .map]

theorem classes_named :
    List.Forall₂ (fun shape type => shape.Plain ∧ Types.builtin? shape.name = some type) classes
    classTypes := by
  simp [classes, classTypes, scalar, text, list, map, Shape.Plain, Signature.Plain, textFunction,
    countFunction,
    constructorSignature, Types.builtin?]
  constructor <;> rintro name type (⟨rfl, _⟩ | ⟨rfl, _⟩) <;> rfl

theorem ensures_buildMath (fine : draft.Fine) :
    buildMath.Ensures draft fun id after => draft.Continues after ∧ after.tree.Ordinary id := by
  refine Action.ensures_bind.mpr (Build.ensures_header fine fun span written _ one _ => ?_)
  refine .bind (ensures_buildSignature one.fine ?_ rfl (by simp)) ?_
  · simp [Signature.Plain, power, Types.builtin?]
  rintro function built ⟨two, ordinary⟩
  refine Action.ensures_bind.mpr (Build.ensures_header two.fine fun span named _ three same => ?_)
  refine .bind (Build.ensures_ordinaryNode three.fine ?_ fun _ headed => by cases headed) ?_
  · intro child listed
    obtain rfl := List.mem_singleton.mp listed
    exact same ▸ ordinary
  rintro body blocked ⟨four, ordinaryBody⟩
  refine (Build.ensures_ordinaryNode four.fine ?_ ?_).weaken ?_
  · intro child listed
    obtain rfl : child = body := by simpa [NodeKind.children] using listed
    exact ordinaryBody
  · rintro _ ⟨⟩
    exact Header.builtin?_of_name (by simp [Types.builtin?])
  · rintro id after ⟨five, ordinaryAfter⟩
    exact ⟨(((one.trans two).trans three).trans four).trans five, ordinaryAfter⟩

end Prelude

/-- Only one block, which only one file has, has declarations of built-in classes. -/
structure Tree.Guarded (tree : Tree) (file block : NodeId) : Prop where
  isFile : ∃ node, tree.get? file = some node ∧ node.kind = .file block
  inner : ∀ id node, tree.get? id = some node → id ≠ block → ∀ child ∈ node.kind.children,
    tree.Ordinary child
  outer : ∀ id node, tree.get? id = some node → id ≠ file → block ∉ node.kind.children

/-- The built-in file: all built-in classes, each once, and what comes after them. -/
structure Tree.Holds (tree : Tree) (file : NodeId) (block : NodeId) (classes rest : List NodeId) :
    Prop where
  guarded : tree.Guarded file block
  block : ∃ node, tree.get? block = some node ∧ node.kind = .block (classes ++ rest)
  classes : List.Forall₂ tree.DeclaresBuiltin classes Prelude.classTypes
  rest : ∀ id ∈ rest, tree.Ordinary id

namespace Prelude

variable {draft : Draft}

theorem ensures_build (fine : draft.Fine) : build.Ensures draft fun file after =>
    draft.tree.Grows after.tree ∧
      (∀ id node, after.tree.get? id = some node → file ∉ node.kind.children) ∧
        ∃ block classes rest, after.tree.Holds file block classes rest := by
  refine .bind (ensures_buildClasses fine classes_named) ?_
  rintro classes built ⟨one, declared⟩
  refine .bind (ensures_buildMath one.fine) ?_
  rintro math added ⟨two, ordinary⟩
  refine Action.ensures_bind.mpr (Build.ensures_node fun blocked _ ⟨_, lookup⟩ => ?_)
  refine Build.ensures_node fun after _ ⟨_, lookupFile⟩ => ?_
  obtain ⟨growsBlock, block, beforeBlock⟩ := Tree.grows_alloc lookup
  obtain ⟨growsFile, file, beforeFile⟩ := Tree.grows_alloc lookupFile
  have grows : added.tree.Grows after.tree := growsBlock.trans growsFile
  have distinct : added.tree.next ≠ blocked.tree.next := Table.ne_next_of_get? block
  have known : ∀ id ∈ classes, ∃ node, added.tree.get? id = some node := by
    refine ((List.forall₂_and_left _ _).mp (declared.imp fun id type declares => ⟨?_, declares⟩)).1
    obtain ⟨node, _, _, _, _, stored, _⟩ := declares.grow two.grows
    exact ⟨node, stored⟩
  have stored : ∀ id ∈ classes ++ [math], ∃ node, added.tree.get? id = some node := by
    intro id inside
    rcases List.mem_append.mp inside with isClass | isMath
    · exact known id isClass
    · obtain rfl := List.mem_singleton.mp isMath
      obtain ⟨node, there, _⟩ := ordinary
      exact ⟨node, there⟩
  -- A node is the file, the block or one whose parts were there before both.
  have parts : ∀ id node, after.tree.get? id = some node →
      id = blocked.tree.next ∧ node.kind = .file added.tree.next ∨
      id = added.tree.next ∧ node.kind = .block (classes ++ [math]) ∨
      id ≠ added.tree.next ∧ ∀ child ∈ node.kind.children, added.tree.Ordinary child := by
    intro id node found
    by_cases isFile : id = blocked.tree.next
    · subst isFile
      cases file.symm.trans found
      exact .inl ⟨rfl, rfl⟩
    · obtain ⟨middle, between, kind⟩ := beforeFile id node isFile found
      by_cases isBlock : id = added.tree.next
      · subst isBlock
        rw [block] at between
        cases between
        exact .inr (.inl ⟨rfl, kind⟩)
      · obtain ⟨earlier, early, same⟩ := beforeBlock id middle isBlock between
        refine .inr (.inr ⟨isBlock, fun child listed => ?_⟩)
        rw [kind, same] at listed
        exact two.fine.sheltered id earlier early child listed
  have missing : ∀ node, added.tree.get? blocked.tree.next ≠ some node := by
    intro node found
    obtain ⟨later, there, _⟩ := growsBlock _ node found
    rw [blocked.tree.get?_next] at there
    cases there
  refine ⟨(one.trans two).grows.trans grows, ?_, added.tree.next, classes, [math],
    ⟨⟨_, file, rfl⟩, ?_, ?_⟩, ?_, ?_, ?_⟩
  · intro id node found listed
    rcases parts id node found with ⟨_, kind⟩ | ⟨_, kind⟩ | ⟨_, others⟩
    · rw [kind] at listed
      exact distinct (List.mem_singleton.mp listed).symm
    · rw [kind] at listed
      obtain ⟨known, there⟩ := stored _ listed
      exact missing known there
    · obtain ⟨known, there, _⟩ := others _ listed
      exact missing known there
  · intro id node found notBlock child listed
    rcases parts id node found with ⟨_, kind⟩ | ⟨isBlock, _⟩ | ⟨_, others⟩
    · rw [kind] at listed
      obtain rfl : child = added.tree.next := by simpa [NodeKind.children] using listed
      obtain ⟨later, there, kind⟩ := growsFile _ _ block
      refine ⟨later, there, fun header headed => ?_⟩
      rw [kind] at headed
      cases headed
    · exact (notBlock isBlock).elim
    · exact (others child listed).grow grows
  · intro id node found notFile listed
    rcases parts id node found with ⟨isFile, _⟩ | ⟨_, kind⟩ | ⟨_, others⟩
    · exact notFile isFile
    · rw [kind] at listed
      obtain ⟨known, there⟩ := stored _ listed
      rw [added.tree.get?_next] at there
      cases there
    · obtain ⟨known, there, _⟩ := others _ listed
      rw [added.tree.get?_next] at there
      cases there
  · obtain ⟨later, there, kind⟩ := growsFile _ _ block
    exact ⟨later, there, kind⟩
  · exact declared.imp fun _ _ declares => declares.grow (two.grows.trans grows)
  · intro id listed
    obtain rfl := List.mem_singleton.mp listed
    exact ordinary.grow grows

end Prelude

end Resolution

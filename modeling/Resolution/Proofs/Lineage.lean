import Resolution.Tree.Basic

/-!
# Lines of descent

A map that gives a node the one right above it spans lines of descent.  Three changes of such a map
bring no node above itself: some nodes move up to a host that is above them already, so that those
between are passed over; nodes with nothing above them join a host that is not below them; and a new
node steps between a host and some of the nodes right below it.
-/

namespace Resolution

/-- Climbing from a node leads to another one. -/
inductive Climbs (up : NodeId → Option NodeId) : NodeId → NodeId → Prop
  | single {node above : NodeId} (link : up node = some above) : Climbs up node above
  | further {node next above : NodeId} (link : up node = some next) (rest : Climbs up next above) :
      Climbs up node above

namespace Climbs

variable {up : NodeId → Option NodeId} {node middle above other : NodeId}

theorem trans (first : Climbs up node middle) (second : Climbs up middle above) :
    Climbs up node above := by
  induction first with
  | single link => exact .further link second
  | further link _ ih => exact .further link (ih second)

theorem iff_of_link (link : up node = some middle) : Climbs up node above ↔ above = middle ∨
    Climbs up middle above := by
  constructor
  · rintro (same | ⟨same, rest⟩)
    · exact .inl (Option.some.inj (same.symm.trans link))
    · cases link.symm.trans same
      exact .inr rest
  · rintro (rfl | rest)
    · exact .single link
    · exact .further link rest

theorem linear (first : Climbs up node above) (second : Climbs up node other) :
    above = other ∨ Climbs up above other ∨ Climbs up other above := by
  induction first with
  | single link =>
    rcases (iff_of_link link).mp second with rfl | rest
    · exact .inl rfl
    · exact .inr (.inl rest)
  | further link rest ih =>
    rcases (iff_of_link link).mp second with rfl | more
    · exact .inr (.inr rest)
    · exact ih more

end Climbs

/-! ## Moving up -/

/-- Some nodes move right below a host. -/
def moved (up : NodeId → Option NodeId) (nodes : List NodeId) (host node : NodeId) :
    Option NodeId :=
  if node ∈ nodes then some host else up node

section Moved

variable {up : NodeId → Option NodeId} {nodes : List NodeId} {host node above : NodeId}

theorem moved_of_mem (listed : node ∈ nodes) : moved up nodes host node = some host := if_pos listed

theorem moved_of_notMem (other : node ∉ nodes) : moved up nodes host node = up node := if_neg other

section

variable (below : ∀ child ∈ nodes, Climbs up child host)

include below

/-- Nothing new comes to stand above a node. -/
theorem Climbs.of_moved (climbs : Climbs (moved up nodes host) node above) :
    Climbs up node above := by
  have link {lower upper : NodeId} (step : moved up nodes host lower = some upper) :
    Climbs up lower upper := by
    unfold moved at step
    split at step
    · rename_i listed
      cases step
      exact below lower listed
    · exact .single step
  induction climbs with
  | single step => exact link step
  | further step _ ih => exact (link step).trans ih

theorem Climbs.moved_of_above (clear : ¬Climbs up host host)
    (start : node = host ∨ Climbs up host node) (climbs : Climbs up node above) :
    Climbs (moved up nodes host) node above := by
  have apart {lower : NodeId} (origin : lower = host ∨ Climbs up host lower) : lower ∉ nodes := by
    intro listed
    rcases origin with rfl | reached
    · exact clear (below lower listed)
    · exact clear (reached.trans (below lower listed))
  induction climbs with
  | single link => exact .single ((moved_of_notMem (apart start)).trans link)
  | further link rest ih =>
    refine .further ((moved_of_notMem (apart start)).trans link) (ih (.inr ?_))
    rcases start with rfl | reached
    · exact .single link
    · exact reached.trans (.single link)

/-- What was above a node still is, unless it stands between a moved node and the host. -/
theorem Climbs.moved_or_between (clear : ¬Climbs up host host)
    (climbs : Climbs up node above) :
    Climbs (moved up nodes host) node above ∨ ∃ child ∈ nodes, Climbs up child above ∧
    Climbs up above host := by
  have here {child top : NodeId} (listed : child ∈ nodes) (reached : Climbs up child top) :
      Climbs (moved up nodes host) child top ∨ ∃ child ∈ nodes, Climbs up child top ∧
        Climbs up top host := by
    rcases reached.linear (below child listed) with rfl | under | beyond
    · exact .inl (.single (moved_of_mem listed))
    · exact .inr ⟨child, listed, reached, under⟩
    · exact .inl (.further (moved_of_mem listed) (beyond.moved_of_above below clear (.inl rfl)))
  induction climbs with
  | @single lower upper link =>
    by_cases listed : lower ∈ nodes
    · exact here listed (.single link)
    · exact .inl (.single ((moved_of_notMem listed).trans link))
  | @further lower next upper link rest ih =>
    by_cases listed : lower ∈ nodes
    · exact here listed (.further link rest)
    · exact ih.imp_left (.further ((moved_of_notMem listed).trans link))

end

/-! ## Joining

Nodes with nothing above them may join any host that is not below them. -/

theorem Climbs.joined (tops : ∀ top ∈ nodes, up top = none) (climbs : Climbs up node above) :
    Climbs (moved up nodes host) node above := by
  have link {lower upper : NodeId} (step : up lower = some upper) :
    moved up nodes host lower = some upper := by
    refine (moved_of_notMem fun listed => ?_).trans step
    rw [tops lower listed] at step
    cases step
  induction climbs with
  | single step => exact .single (link step)
  | further step _ ih => exact .further (link step) ih

/-- A new way up leads through the host. -/
theorem Climbs.of_joined (climbs : Climbs (moved up nodes host) node above) :
    Climbs up node above ∨ ∃ top ∈ nodes, (node = top ∨ Climbs up node top) ∧
      (above = host ∨ Climbs (moved up nodes host) host above) := by
  induction climbs with
  | @single lower upper step =>
    by_cases listed : lower ∈ nodes
    · rw [moved_of_mem listed] at step
      exact .inr ⟨lower, listed, .inl rfl, .inl (Option.some.inj step).symm⟩
    · exact .inl (.single ((moved_of_notMem listed).symm.trans step))
  | @further lower next upper step rest ih =>
    by_cases listed : lower ∈ nodes
    · rw [moved_of_mem listed] at step
      cases step
      exact .inr ⟨lower, listed, .inl rfl, .inr rest⟩
    · rw [moved_of_notMem listed] at step
      rcases ih with climbs | ⟨top, isTop, way, beyond⟩
      · exact .inl (.further step climbs)
      · refine .inr ⟨top, isTop, .inr ?_, beyond⟩
        rcases way with rfl | climbs
        · exact .single step
        · exact .further step climbs

/-- Neither the node nor one above it is listed. -/
def Clear (up : NodeId → Option NodeId) (nodes : List NodeId) (node : NodeId) : Prop :=
  ∀ top ∈ nodes, node ≠ top ∧ ¬Climbs up node top

theorem Clear.climbs_iff (clear : Clear up nodes node) (tops : ∀ top ∈ nodes, up top = none) :
    Climbs (moved up nodes host) node above ↔ Climbs up node above := by
  refine ⟨fun climbs => ?_, .joined tops⟩
  rcases climbs.of_joined with climbs | ⟨top, listed, rfl | below, _⟩
  · exact climbs
  · exact absurd rfl (clear node listed).1
  · exact absurd below (clear top listed).2

theorem Clear.acyclic (clear : Clear up nodes host) (tops : ∀ top ∈ nodes, up top = none)
    (acyclic : ¬Climbs up node node) : ¬Climbs (moved up nodes host) node node := by
  intro climbs
  rcases climbs.of_joined with climbs | ⟨top, listed, way, beyond⟩
  · exact acyclic climbs
  · obtain ⟨apart, notBelow⟩ := clear top listed
    rcases beyond with rfl | climbs
    · exact way.elim apart notBelow
    · have climbs := (clear.climbs_iff tops).mp climbs
      rcases way with rfl | below
      · exact notBelow climbs
      · exact notBelow (climbs.trans below)

end Moved

/-! ## Stepping in -/

/-- A new node steps between a host and some of the nodes right below it. -/
def parted (up : NodeId → Option NodeId) (nodes : List NodeId) (fresh host node : NodeId) :
    Option NodeId :=
  if node = fresh then some host else if node ∈ nodes then some fresh else up node

/-- The nodes are right below the host, and the new node has no place yet. -/
structure Parting (up : NodeId → Option NodeId) (nodes : List NodeId) (fresh host : NodeId) :
    Prop where
  links : ∀ child ∈ nodes, up child = some host
  unused : ∀ node, up node ≠ some fresh
  apart : host ≠ fresh
  unlisted : fresh ∉ nodes

namespace Parting

variable {up : NodeId → Option NodeId} {nodes : List NodeId} {fresh host node above : NodeId}

theorem parted_fresh : parted up nodes fresh host fresh = some host := if_pos rfl

variable (parting : Parting up nodes fresh host)

include parting

theorem parted_of_mem (listed : node ∈ nodes) :
    parted up nodes fresh host node = some fresh := by
  have old : node ≠ fresh := fun same => parting.unlisted (same ▸ listed)
  rw [parted, if_neg old, if_pos listed]

omit parting in
theorem parted_of_notMem (different : node ≠ fresh) (other : node ∉ nodes) :
    parted up nodes fresh host node = up node := by
  rw [parted, if_neg different, if_neg other]

theorem of_parted (different : above ≠ fresh)
    (climbs : Climbs (parted up nodes fresh host) node above) :
    (node ≠ fresh → Climbs up node above) ∧
    (node = fresh → above = host ∨ Climbs up host above) := by
  induction climbs with
  | @single lower upper link =>
    constructor
    · intro old
      by_cases listed : lower ∈ nodes
      · rw [parting.parted_of_mem listed] at link
        exact absurd (Option.some.inj link).symm different
      · exact .single ((parted_of_notMem old listed).symm.trans link)
    · rintro rfl
      exact .inl (Option.some.inj (link.symm.trans parted_fresh))
  | @further lower next upper link rest ih =>
    obtain ⟨ofOld, ofNew⟩ := ih different
    constructor
    · intro old
      by_cases listed : lower ∈ nodes
      · rw [parting.parted_of_mem listed] at link
        rcases ofNew (Option.some.inj link).symm with rfl | climbs
        · exact .single (parting.links lower listed)
        · exact .further (parting.links lower listed) climbs
      · rw [parted_of_notMem old listed] at link
        exact .further link (ofOld fun same => parting.unused lower (same ▸ link))
    · rintro rfl
      cases link.symm.trans parted_fresh
      exact .inr (ofOld parting.apart)

theorem parts (old : node ≠ fresh) (climbs : Climbs up node above) :
    Climbs (parted up nodes fresh host) node above := by
  have link {lower upper : NodeId} (old : lower ≠ fresh) (step : up lower = some upper) :
      Climbs (parted up nodes fresh host) lower upper := by
    by_cases listed : lower ∈ nodes
    · cases (parting.links lower listed).symm.trans step
      exact .further (parting.parted_of_mem listed) (.single parted_fresh)
    · exact .single ((parted_of_notMem old listed).trans step)
  induction climbs with
  | single step => exact link old step
  | @further lower next upper step _ ih =>
    exact (link old step).trans (ih fun same => parting.unused lower (same ▸ step))

theorem climbs_iff (old : node ≠ fresh) (different : above ≠ fresh) :
    Climbs (parted up nodes fresh host) node above ↔ Climbs up node above :=
  ⟨fun climbs => (parting.of_parted different climbs).1 old, parting.parts old⟩

theorem at_or_below (climbs : Climbs (parted up nodes fresh host) node above)
    (old : node ≠ fresh) (reached : above = fresh) : ∃ child ∈ nodes, node = child ∨
    Climbs up node child := by
  induction climbs with
  | @single lower upper link =>
    by_cases listed : lower ∈ nodes
    · exact ⟨lower, listed, .inl rfl⟩
    · rw [parted_of_notMem old listed] at link
      exact absurd (reached ▸ link) (parting.unused lower)
  | @further lower next upper link rest ih =>
    by_cases listed : lower ∈ nodes
    · exact ⟨lower, listed, .inl rfl⟩
    · rw [parted_of_notMem old listed] at link
      obtain ⟨child, inside, way⟩ := ih (fun same => parting.unused lower (same ▸ link)) reached
      refine ⟨child, inside, .inr ?_⟩
      rcases way with rfl | climbs
      · exact .single link
      · exact .further link climbs

/-- The new node stands above the nodes that it stepped over and above what is below them. -/
theorem climbs_fresh_iff (old : node ≠ fresh) :
    Climbs (parted up nodes fresh host) node fresh ↔ ∃ child ∈ nodes, node = child ∨
    Climbs up node child := by
  constructor
  · exact fun climbs => parting.at_or_below climbs old rfl
  · rintro ⟨child, listed, rfl | climbs⟩
    · exact .single (parting.parted_of_mem listed)
    · exact (parting.parts old climbs).trans (.single (parting.parted_of_mem listed))

/-- The new node is not above itself. -/
theorem acyclic (clear : ¬Climbs up host host) :
    ¬Climbs (parted up nodes fresh host) fresh fresh := by
  intro climbs
  rcases (Climbs.iff_of_link parted_fresh).mp climbs with same | climbs
  · exact parting.apart same.symm
  · obtain ⟨child, listed, rfl | below⟩ := (parting.climbs_fresh_iff parting.apart).mp climbs
    · exact clear (.single (parting.links _ listed))
    · exact clear (below.trans (.single (parting.links child listed)))

end Parting
end Resolution

import LinkedMarkup.Protocol.Registry
import Mathlib.Data.List.Basic

namespace LinkedMarkup.Protocols

/-- What can be done to a registry of handlers. -/
inductive Operation where
  | register (handler : Handler)
  | erase (name : String)
  | clear

def Operation.apply (protocols : Protocols) : Operation → Protocols
  | .register handler => protocols.register handler
  | .erase name => protocols.erase name
  | .clear => protocols.clear

def run (operations : List Operation) : Protocols := operations.foldl Operation.apply {}

/-- The handlers that are registered after an operation, the earliest first. -/
def Operation.note (registered : List Handler) : Operation → List Handler
  | .register handler => registered ++ [handler]
  | .erase name => registered.filter (·.name != name)
  | .clear => []

/-- The handlers that are registered after a sequence of operations, the earliest first. -/
def registered (operations : List Operation) : List Handler := operations.foldl Operation.note []

/-- The priorities descend. -/
def Descending (handlers : List Handler) : Prop :=
  handlers.Pairwise fun first second => second.priority ≤ first.priority

/-- The handlers stand by descending priority, and in the order of registration among equals. -/
structure Ordered (protocols : Protocols) (registered : List Handler) : Prop where
  same : protocols.handlers.Perm registered
  descending : Descending protocols.handlers
  stable : ∀ priority, protocols.handlers.filter (·.priority = priority) =
    registered.filter (·.priority = priority)

/-- Of the handlers that pass a test, this one has the highest priority, and it is the first one that
has it. -/
def Foremost (registered : List Handler) (test : Handler → Bool) (handler : Handler) : Prop :=
  ∃ before after, registered = before ++ handler :: after ∧ test handler = true ∧
    (∀ other ∈ before, test other = true → other.priority < handler.priority) ∧
    (∀ other ∈ after, test other = true → other.priority ≤ handler.priority)

theorem Descending.le_head {head : Handler} {rest : List Handler} (descending : Descending (head :: rest))
    {handler : Handler} (member : handler ∈ head :: rest) : handler.priority ≤ head.priority := by
  rcases List.mem_cons.mp member with rfl | behind
  · exact Int.le_refl _
  · exact (List.pairwise_cons.mp descending).1 handler behind

/-! ### The place of a handler -/

theorem place_perm (handler : Handler) (handlers : List Handler) :
    (place handler handlers).Perm (handlers ++ [handler]) := by
  induction handlers with
  | nil => exact .refl _
  | cons first rest ih =>
    rw [place]
    split
    · exact (List.perm_append_singleton handler (first :: rest)).symm
    · exact ih.cons first

theorem place_descending (handler : Handler) {handlers : List Handler}
    (descending : Descending handlers) : Descending (place handler handlers) := by
  induction handlers with
  | nil => exact List.pairwise_singleton _ _
  | cons first rest ih =>
    obtain ⟨below, others⟩ := List.pairwise_cons.mp descending
    rw [place]
    split
    · next less =>
      refine List.pairwise_cons.mpr ⟨fun other member => ?_, descending⟩
      exact Int.le_trans (descending.le_head member) (Int.le_of_lt less)
    · next atLeast =>
      refine List.pairwise_cons.mpr ⟨fun other member => ?_, ih others⟩
      rcases List.mem_append.mp ((place_perm handler rest).mem_iff.mp member) with old | new
      · exact below other old
      · exact List.mem_singleton.mp new ▸ Int.not_lt.mp atLeast

/-- A handler is put behind those of its own priority, and leaves the others where they are. -/
theorem filter_place (handler : Handler) {handlers : List Handler}
    (descending : Descending handlers) (priority : Int) :
    (place handler handlers).filter (·.priority = priority) =
      (handlers ++ [handler]).filter (·.priority = priority) := by
  induction handlers with
  | nil => rfl
  | cons first rest ih =>
    rw [place]
    split
    · next less =>
      by_cases own : handler.priority = priority
      · have behind : (first :: rest).filter (·.priority = priority) = [] := by
          apply List.filter_eq_nil_iff.mpr
          intro other member
          have lower := descending.le_head member
          rw [decide_eq_true_iff]
          omega
        rw [List.filter_append, behind, List.filter_cons_of_pos (by simpa using own), behind,
          List.nil_append, List.filter_cons_of_pos (by simpa using own), List.filter_nil]
      · rw [List.filter_append, List.filter_cons_of_neg (by simpa using own),
          List.filter_cons_of_neg (l := []) (by simpa using own), List.filter_nil, List.append_nil]
    · rw [List.cons_append, List.filter_cons, List.filter_cons, ih (List.pairwise_cons.mp descending).2]

/-! ### Sequences of operations -/

variable {protocols : Protocols} {present : List Handler}

theorem Ordered.step (ordered : protocols.Ordered present) (operation : Operation) :
    (operation.apply protocols).Ordered (operation.note present) := by
  cases operation with
  | register handler =>
    refine ⟨?_, place_descending handler ordered.descending, ?_⟩
    · exact (place_perm handler protocols.handlers).trans (ordered.same.append_right [handler])
    · intro priority
      calc (place handler protocols.handlers).filter (·.priority = priority)
          = (protocols.handlers ++ [handler]).filter (·.priority = priority) :=
            filter_place handler ordered.descending priority
        _ = (present ++ [handler]).filter (·.priority = priority) := by
            rw [List.filter_append, ordered.stable priority, List.filter_append]
  | erase name =>
    refine ⟨ordered.same.filter _, List.Pairwise.filter _ ordered.descending, ?_⟩
    intro priority
    calc (protocols.handlers.filter (·.name != name)).filter (·.priority = priority)
        = (protocols.handlers.filter (·.priority = priority)).filter (·.name != name) :=
          List.filter_comm ..
      _ = (present.filter (·.priority = priority)).filter (·.name != name) := by
          rw [ordered.stable priority]
      _ = (present.filter (·.name != name)).filter (·.priority = priority) := List.filter_comm ..
  | clear => exact ⟨.refl _, List.Pairwise.nil, fun _ => rfl⟩

theorem run_ordered (operations : List Operation) : (run operations).Ordered (registered operations) := by
  suffices general : ∀ (operations : List Operation) {protocols : Protocols} {present : List Handler},
      protocols.Ordered present →
        (operations.foldl Operation.apply protocols).Ordered (operations.foldl Operation.note present) from
    general operations ⟨.refl _, .nil, fun _ => rfl⟩
  intro operations
  induction operations with
  | nil => exact id
  | cons operation rest ih => exact fun ordered => ih (ordered.step operation)

/-! ### Sorting -/

/-- Lists with the same handlers of each priority have the same handlers. -/
theorem mem_of_levels {left right : List Handler} (levels : ∀ priority,
      left.filter (·.priority = priority) = right.filter (·.priority = priority))
    {handler : Handler} (member : handler ∈ left) : handler ∈ right := by
  have level : handler ∈ left.filter (·.priority = handler.priority) :=
    List.mem_filter.mpr ⟨member, by simp⟩
  rw [levels] at level
  exact (List.mem_filter.mp level).1

theorem Descending.eq_of_levels {first second : List Handler} (one : Descending first)
    (other : Descending second) (levels : ∀ priority,
      first.filter (·.priority = priority) = second.filter (·.priority = priority)) :
    first = second := by
  have levels' := fun priority => (levels priority).symm
  induction first generalizing second with
  | nil =>
    cases second with
    | nil => rfl
    | cons top _ => exact absurd (mem_of_levels levels' List.mem_cons_self) List.not_mem_nil
  | cons head rest ih =>
    cases second with
    | nil => exact absurd (mem_of_levels levels List.mem_cons_self) List.not_mem_nil
    | cons top others =>
      have same : head.priority = top.priority := by
        apply Int.le_antisymm
        · exact other.le_head (mem_of_levels levels List.mem_cons_self)
        · exact one.le_head (mem_of_levels levels' List.mem_cons_self)
      have heads := levels top.priority
      rw [List.filter_cons_of_pos (by simpa using same), List.filter_cons_of_pos (by simp)] at heads
      obtain ⟨rfl, _⟩ := List.cons.inj heads
      have tails (priority : Int) : rest.filter (·.priority = priority) =
          others.filter (·.priority = priority) := by
        have level := levels priority
        rw [List.filter_cons, List.filter_cons] at level
        split at level
        · exact (List.cons.inj level).2
        · exact level
      rw [ih (List.pairwise_cons.mp one).2 (List.pairwise_cons.mp other).2 tails
        fun priority => (tails priority).symm]

/-- Keeping the order at each registration comes to a stable sort of all that are registered. -/
theorem Ordered.eq_mergeSort (ordered : protocols.Ordered present) :
    protocols.handlers = present.mergeSort fun first second => second.priority ≤ first.priority := by
  have trans (first second third : Handler) (one : decide (second.priority ≤ first.priority) = true)
      (other : decide (third.priority ≤ second.priority) = true) :
      decide (third.priority ≤ first.priority) = true := by
    rw [decide_eq_true_iff] at one other ⊢
    exact Int.le_trans other one
  have total (first second : Handler) : (decide (second.priority ≤ first.priority) ||
      decide (first.priority ≤ second.priority)) = true := by
    simpa using Int.le_total second.priority first.priority
  have sorted : Descending (present.mergeSort fun first second => second.priority ≤ first.priority) :=
    (List.pairwise_mergeSort trans total present).imp of_decide_eq_true
  apply ordered.descending.eq_of_levels sorted
  intro priority
  rw [ordered.stable]
  have level : (present.filter (·.priority = priority)).Pairwise fun first second =>
      decide (second.priority ≤ first.priority) = true := by
    apply List.pairwise_of_forall_mem_list
    intro first one second other
    have same := (List.mem_filter.mp one).2
    have again := (List.mem_filter.mp other).2
    simp only [decide_eq_true_eq] at same again ⊢
    omega
  have kept := (List.sublist_mergeSort trans total level List.filter_sublist).filter
    fun handler => handler.priority = priority
  simp only [List.filter_filter, Bool.and_self] at kept
  exact kept.eq_of_length (((List.mergeSort_perm present _).filter _).length_eq).symm

/-! ### The choice -/

private theorem eq_of_foremost {test : Handler → Bool} {first second : Handler}
    {middle after behind : List Handler} (split : first :: after = middle ++ second :: behind)
    (passes : test first = true) (passed : test second = true)
    (atLeast : ∀ other ∈ after, test other = true → other.priority ≤ first.priority)
    (above : ∀ other ∈ middle, test other = true → other.priority < second.priority) :
    first = second := by
  cases middle with
  | nil => exact (List.cons.inj split).1
  | cons head rest =>
    obtain ⟨rfl, rfl⟩ := List.cons.inj split
    have less := above first List.mem_cons_self passes
    have most := atLeast second (by simp) passed
    omega

theorem Foremost.unique {test : Handler → Bool} {first second : Handler}
    (one : Foremost present test first) (other : Foremost present test second) : first = second := by
  obtain ⟨before, after, split, passes, above, atLeast⟩ := one
  obtain ⟨ahead, behind, resplit, passed, higher, most⟩ := other
  rw [split] at resplit
  rcases List.append_eq_append_iff.mp resplit with ⟨middle, rfl, rest⟩ | ⟨middle, rfl, rest⟩
  · exact eq_of_foremost rest passes passed atLeast fun handler member =>
      higher handler (List.mem_append_right _ member)
  · exact (eq_of_foremost rest passed passes most fun handler member =>
      above handler (List.mem_append_right _ member)).symm

/-- Who comes first in the order of the registry is the choice among those that were registered. -/
theorem Ordered.foremost (ordered : protocols.Ordered present) {test : Handler → Bool}
    {handler : Handler} (found : protocols.handlers.find? test = some handler) :
    Foremost present test handler := by
  obtain ⟨passes, front, rest, split, fails⟩ := List.find?_eq_some_iff_append.mp found
  have highest : ∀ other ∈ present, test other = true → other.priority ≤ handler.priority := by
    intro other member passed
    have inside := ordered.same.mem_iff.mpr member
    rw [split] at inside
    rcases List.mem_append.mp inside with ahead | behind
    · have refused := fails other ahead
      rw [passed] at refused
      cases refused
    · have descending := ordered.descending
      rw [Descending, split] at descending
      exact Descending.le_head (List.pairwise_append.mp descending).2.1 behind
  -- among those of its priority the handler was registered behind the same ones that it stands behind
  have equals := ordered.stable handler.priority
  rw [split, List.filter_append, List.filter_cons_of_pos (by simp)] at equals
  obtain ⟨before, others, rfl, level, here⟩ := List.filter_eq_append_iff.mp equals.symm
  obtain ⟨lower, after, rfl, unlike, _, _⟩ := List.filter_eq_cons_iff.mp here
  refine ⟨before ++ lower, after, by simp, passes, ?_, ?_⟩
  · intro other member passed
    have inside : other ∈ before ++ (lower ++ handler :: after) := by
      rw [← List.append_assoc]
      exact List.mem_append_left _ member
    refine Int.lt_iff_le_and_ne.mpr ⟨highest other inside passed, fun same => ?_⟩
    rcases List.mem_append.mp member with early | late
    · have ahead : other ∈ front.filter (·.priority = handler.priority) := by
        rw [← level]
        exact List.mem_filter.mpr ⟨early, by simpa using same⟩
      have refused := fails other (List.mem_filter.mp ahead).1
      rw [passed] at refused
      cases refused
    · exact unlike other late (by simpa using same)
  · exact fun other member passed => highest other (by simp [member]) passed

theorem Ordered.find?_eq_none_iff (ordered : protocols.Ordered present) {test : Handler → Bool} :
    protocols.handlers.find? test = none ↔ ∀ handler ∈ present, test handler = false := by
  simp only [List.find?_eq_none, Bool.not_eq_true, ordered.same.mem_iff]

theorem Ordered.find?_eq_some_iff (ordered : protocols.Ordered present) {test : Handler → Bool}
    {handler : Handler} :
    protocols.handlers.find? test = some handler ↔ Foremost present test handler := by
  constructor
  · exact ordered.foremost
  · intro foremost
    cases outcome : protocols.handlers.find? test with
    | none =>
      obtain ⟨before, after, rfl, passes, _⟩ := foremost
      have fails := ordered.find?_eq_none_iff.mp outcome handler (by simp)
      rw [passes] at fails
      cases fails
    | some chosen => rw [(ordered.foremost outcome).unique foremost]

/-- After any sequence of operations the handlers stand by priority and registration, as a stable sort
puts them, and the one that answers for a protocol is the first registered of the highest priority among
those that accept it. -/
theorem run_find?_foremost (operations : List Operation) :
    (run operations).Ordered (registered operations) ∧
    (run operations).handlers =
      (registered operations).mergeSort (fun first second => second.priority ≤ first.priority) ∧
    ∀ protocol,
      (∀ handler, (run operations).find? protocol = some handler ↔
        Foremost (registered operations) (·.handles (Text.asciiLower protocol)) handler) ∧
      ((run operations).find? protocol = none ↔
        ∀ handler ∈ registered operations, handler.handles (Text.asciiLower protocol) = false) := by
  have ordered := run_ordered operations
  refine ⟨ordered, ordered.eq_mergeSort, fun protocol => ⟨fun handler => ?_, ?_⟩⟩
  · exact ordered.find?_eq_some_iff
  · exact ordered.find?_eq_none_iff

end LinkedMarkup.Protocols

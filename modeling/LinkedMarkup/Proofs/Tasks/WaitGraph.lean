import LinkedMarkup.Resolution.State
import Mathlib.Logic.Relation
import Mathlib.Data.Finset.Card
import Mathlib.Data.Finset.Dedup
import Mathlib.Data.Fintype.Card
import Mathlib.Data.Set.Finite.List
import Mathlib.Order.WellFounded

namespace LinkedMarkup

section Cycles
variable {α : Type} {before after : α → α → Prop}
open Relation

/-- No chain of edges leads from a point back to it. -/
def Acyclic (edge : α → α → Prop) : Prop := ∀ point, ¬ TransGen edge point point

theorem Acyclic.mono (acyclic : Acyclic before) (fewer : ∀ first next, after first next →
    before first next) : Acyclic after :=
  fun point cycle => acyclic point (TransGen.mono fewer point point cycle)

private theorem transGen_avoids_sink {sink : α}
    (edges : ∀ first next, after first next → before first next ∨ next = sink)
    (stops : ∀ next, ¬ after sink next) {first last beyond : α} (chain : TransGen after first last)
    (leads : after last beyond) : TransGen before first last := by
  induction chain generalizing beyond with
  | single edge =>
    rcases edges _ _ edge with old | ended
    · exact .single old
    · subst ended
      exact False.elim (stops _ leads)
  | tail _ edge ih =>
    rcases edges _ _ edge with old | ended
    · exact .tail (ih edge) old
    · subst ended
      exact False.elim (stops _ leads)

/-- New edges into a point that no edge leaves close no cycle. -/
theorem Acyclic.into_sink (acyclic : Acyclic before) (sink : α)
    (edges : ∀ first next, after first next → before first next ∨ next = sink)
    (stops : ∀ next, ¬ after sink next) : Acyclic after := by
  intro point cycle
  obtain ⟨next, leads, _⟩ := TransGen.head'_iff.mp cycle
  exact acyclic point (transGen_avoids_sink edges stops cycle leads)

private theorem transGen_new_edge {source target : α}
    (edges : ∀ first next, after first next → before first next ∨ first = source ∧ next = target)
    {first last : α} (chain : TransGen after first last) :
    TransGen before first last ∨
      ReflTransGen before first source ∧ ReflTransGen before target last := by
  induction chain with
  | single edge =>
    rcases edges _ _ edge with old | ⟨rfl, rfl⟩
    · exact .inl (.single old)
    · exact .inr ⟨.refl, .refl⟩
  | tail _ edge ih =>
    rcases edges _ _ edge with old | ⟨rfl, rfl⟩
    · rcases ih with chain | ⟨start, rest⟩
      · exact .inl (chain.tail old)
      · exact .inr ⟨start, rest.tail old⟩
    · rcases ih with chain | ⟨start, _⟩
      · exact .inr ⟨chain.to_reflTransGen, .refl⟩
      · exact .inr ⟨start, .refl⟩

/-- A new edge whose target does not lead to its source closes no cycle. -/
theorem Acyclic.new_edge (acyclic : Acyclic before) {source target : α}
    (edges : ∀ first next, after first next → before first next ∨ first = source ∧ next = target)
    (apart : ¬ ReflTransGen before target source) : Acyclic after := by
  intro point cycle
  rcases transGen_new_edge edges cycle with old | ⟨start, rest⟩
  · exact acyclic point old
  · exact apart (rest.trans start)

/-- A relation without cycles has an end in every finite part. -/
theorem Acyclic.exists_end {edge : α → α → Prop} (acyclic : Acyclic edge)
    {points : List α} (nonempty : points ≠ []) : ∃ point ∈ points, ∀ next ∈ points, ¬ edge point next := by
  let below (first second : { point // point ∈ points }) : Prop :=
    TransGen edge second.1 first.1
  have : Finite { point // point ∈ points } := List.finite_toSet points
  have wellFounded : WellFounded below :=
    have : IsTrans _ below := ⟨fun _ _ _ first second => second.trans first⟩
    have : Std.Irrefl below := ⟨fun point cycle => acyclic _ cycle⟩
    Finite.wellFounded_of_trans_of_irrefl below
  obtain ⟨first, rest, rfl⟩ := List.exists_cons_of_ne_nil nonempty
  obtain ⟨⟨point, member⟩, _, least⟩ :=
    wellFounded.has_min Set.univ ⟨⟨first, by simp⟩, trivial⟩
  exact ⟨point, member, fun next there edge => least ⟨next, there⟩ trivial (.single edge)⟩

end Cycles

namespace Shared
open Relation
variable {shared : Shared} {start target : Nat}

/-- The wait of a task for another one that is recorded for the search. -/
def Recorded (shared : Shared) (task other : Nat) : Prop := other ∈ shared.needs task

theorem recorded_iff {task other : Nat} :
    shared.Recorded task other ↔
      (∃ key, shared.waiting.lookup task = some key ∧ shared.owners.find? key = some other) ∨
        (other, task) ∈ shared.forks := by
  simp only [Recorded, needs, List.mem_append, Option.mem_toList, Option.bind_eq_some_iff,
    List.mem_map, List.mem_filter, beq_iff_eq, Prod.exists]
  constructor
  · rintro (wait | ⟨child, parent, ⟨fork, rfl⟩, rfl⟩)
    · exact .inl wait
    · exact .inr fork
  · rintro (wait | fork)
    · exact .inl wait
    · exact .inr ⟨other, task, ⟨fork, rfl⟩, rfl⟩

def widen (shared : Shared) (tasks : List Nat) : List Nat :=
  tasks ++ (tasks.flatMap shared.needs).filter (!tasks.contains ·)

theorem mem_widen {tasks : List Nat} {task : Nat} :
    task ∈ shared.widen tasks ↔ task ∈ tasks ∨ ∃ near ∈ tasks, shared.Recorded near task := by
  simp only [widen, List.mem_append, List.mem_filter, List.mem_flatMap, Recorded]
  by_cases known : task ∈ tasks <;> simp [known]

theorem closure_eq_iterate (rounds : Nat) (tasks : List Nat) :
    shared.closure rounds tasks = shared.widen^[rounds] tasks := by
  induction rounds generalizing tasks with
  | zero => rfl
  | succ rounds ih => simp only [closure, Function.iterate_succ_apply, ih, widen]

theorem closure_succ (rounds : Nat) (tasks : List Nat) :
    shared.closure (rounds + 1) tasks = shared.widen (shared.closure rounds tasks) := by
  simp only [closure_eq_iterate, Function.iterate_succ_apply']

theorem closure_subset_succ (rounds : Nat) (tasks : List Nat) :
    shared.closure rounds tasks ⊆ shared.closure (rounds + 1) tasks := by
  intro task member
  rw [closure_succ]
  exact mem_widen.mpr (.inl member)

theorem closure_mono {few many : Nat} (fewer : few ≤ many) (tasks : List Nat) :
    shared.closure few tasks ⊆ shared.closure many tasks := by
  induction fewer with
  | refl => exact fun _ member => member
  | step _ ih => exact fun _ member => closure_subset_succ _ _ (ih member)

/-- The search finds only tasks that are needed. -/
theorem path_of_mem_closure {rounds : Nat} {task : Nat}
    (member : task ∈ shared.closure rounds [start]) : ReflTransGen shared.Recorded start task := by
  induction rounds generalizing task with
  | zero =>
    have same : task = start := by simpa [closure] using member
    exact same ▸ .refl
  | succ rounds ih =>
    rw [closure_succ] at member
    rcases mem_widen.mp member with old | ⟨near, found, edge⟩
    · exact ih old
    · exact (ih found).tail edge

def ends (shared : Shared) : List Nat :=
  shared.waiting.filterMap (fun wait => shared.owners.find? wait.2) ++ shared.forks.map (·.1)

theorem length_ends_le (shared : Shared) : shared.ends.length ≤ shared.waiting.length + shared.forks.length := by
  have fewer := List.length_filterMap_le (fun wait : Nat × String => shared.owners.find? wait.2)
    shared.waiting
  simp only [ends, List.length_append, List.length_map]
  omega

theorem mem_waiting_of_lookup {task : Nat} {key : String}
    (found : shared.waiting.lookup task = some key) : (task, key) ∈ shared.waiting := by
  obtain ⟨before, after, split, _⟩ := List.lookup_eq_some_iff.mp found
  simp [split]

theorem mem_ends {task other : Nat} (edge : shared.Recorded task other) : other ∈ shared.ends := by
  rcases recorded_iff.mp edge with ⟨key, waits, owner⟩ | fork
  · exact List.mem_append_left _
      (List.mem_filterMap.mpr ⟨(task, key), mem_waiting_of_lookup waits, owner⟩)
  · exact List.mem_append_right _ (List.mem_map.mpr ⟨_, fork, rfl⟩)

/-- Rounds that each find a new task find at least as many ends of edges as there were rounds. -/
private theorem rounds_le_card {rounds : Nat} (growing : ∀ round < rounds,
    ¬ shared.closure (round + 1) [start] ⊆ shared.closure round [start]) :
    rounds ≤ (shared.ends.toFinset ∩ (shared.closure rounds [start]).toFinset).card := by
  induction rounds with
  | zero => exact Nat.zero_le _
  | succ rounds ih =>
    have below := ih fun round less => growing round (Nat.lt_succ_of_lt less)
    have fresh := growing rounds (Nat.lt_succ_self _)
    obtain ⟨task, found, missing⟩ : ∃ task ∈ shared.closure (rounds + 1) [start],
        task ∉ shared.closure rounds [start] := by simpa [List.subset_def] using fresh
    have edge : ∃ near ∈ shared.closure rounds [start], shared.Recorded near task := by
      rw [closure_succ] at found
      exact (mem_widen.mp found).resolve_left missing
    obtain ⟨near, _, edge⟩ := edge
    refine Nat.lt_of_le_of_lt below (Finset.card_lt_card ?_)
    refine Finset.ssubset_iff_of_subset ?_ |>.mpr ⟨task, ?_, ?_⟩
    · intro other member
      simp only [Finset.mem_inter, List.mem_toFinset] at member ⊢
      exact ⟨member.1, closure_subset_succ _ _ member.2⟩
    · simpa using ⟨mem_ends edge, found⟩
    · simp [missing]

/-- The search comes to rest within its bound. -/
theorem exists_closed_round (shared : Shared) (start : Nat) : ∃ round ≤ shared.waiting.length + shared.forks.length,
    shared.closure (round + 1) [start] ⊆ shared.closure round [start] := by
  by_contra none
  have growing : ∀ round < shared.waiting.length + shared.forks.length + 1,
      ¬ shared.closure (round + 1) [start] ⊆ shared.closure round [start] :=
    fun round less closed => none ⟨round, Nat.lt_succ_iff.mp less, closed⟩
  have many := rounds_le_card growing
  have few : (shared.ends.toFinset ∩
      (shared.closure (shared.waiting.length + shared.forks.length + 1) [start]).toFinset).card ≤
      shared.ends.length :=
    (Finset.card_le_card Finset.inter_subset_left).trans (List.toFinset_card_le _)
  have bound := length_ends_le shared
  omega

private theorem mem_closed_round {round : Nat}
    (closed : shared.closure (round + 1) [start] ⊆ shared.closure round [start])
    (path : ReflTransGen shared.Recorded start target) : target ∈ shared.closure round [start] := by
  induction path with
  | refl => exact closure_mono (Nat.zero_le round) _ (by simp [closure])
  | tail _ edge ih =>
    apply closed
    rw [closure_succ]
    exact mem_widen.mpr (.inr ⟨_, ih, edge⟩)

/-- The search finds a task exactly when a chain of recorded waits leads to it. -/
theorem reaches_iff : shared.reaches start target = true ↔
    ReflTransGen shared.Recorded start target := by
  rw [reaches, List.contains_iff_mem]
  constructor
  · exact path_of_mem_closure
  · intro path
    obtain ⟨round, bounded, closed⟩ := exists_closed_round shared start
    exact closure_mono bounded _ (mem_closed_round closed path)

theorem wouldCycle_iff {key : String} : shared.wouldCycle target key = true ↔
    ∃ owner, shared.owners.find? key = some owner ∧ ReflTransGen shared.Recorded owner target := by
  simp only [wouldCycle, Option.any_eq_true, reaches_iff]

end Shared
end LinkedMarkup

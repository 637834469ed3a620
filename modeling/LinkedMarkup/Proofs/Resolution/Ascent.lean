import LinkedMarkup.Proofs.Resolution.Care
import LinkedMarkup.Proofs.Resolution.Lineage
import LinkedMarkup.Proofs.Resolution.Rehearsal
/-! Resolutions that run alone, with any number of levels for the expansion of what is inherited. Each
ancestor that is found leads to a lower level, and those that an expansion leaves behind are barren for
good. So levels above all those of the session are enough: more of them make no difference. -/
namespace LinkedMarkup
open Session

namespace Program
variable {α β : Type} {post mid : α → Session → Prop} {first second : Program Session α}
  {now : Session}

/-- Two programs that run alone do the same, and `post` holds of the result and the last session. -/
def Matches (post : α → Session → Prop) (first second : Program Session α) (now : Session) : Prop :=
  first.alone now = second.alone now ∧ post (first.alone now).1 (first.alone now).2

namespace Matches

theorem mono (matched : Matches mid first second now)
    (weaker : ∀ {result later}, mid result later → post result later) :
    Matches post first second now :=
  ⟨matched.1, weaker matched.2⟩

theorem bind {f g : α → Program Session β} {last : β → Session → Prop}
    (matched : Matches mid first second now)
    (rest : ∀ {result later}, mid result later → Matches last (f result) (g result) later) :
    Matches last (first.bind f) (second.bind g) now := by
  rw [Matches, alone_bind, alone_bind, ← matched.1]
  exact rest matched.2

theorem read {f g : Session → Program Session α} (rest : Matches post (f now) (g now) now) :
    Matches post (.read f) (.read g) now :=
  rest

theorem change {update : Session → Session} (rest : Matches post first second (update now)) :
    Matches post (.change update first) (.change update second) now :=
  rest

theorem pause (rest : Matches post first second now) :
    Matches post (.pause first) (.pause second) now :=
  rest

theorem pauses {turns : Nat} (rest : Matches post first second now) :
    Matches post (pauses first turns) (pauses second turns) now := by
  induction turns with
  | zero => exact rest
  | succ turns ih => exact ih

theorem await {ready : Session → Bool} {limit : Nat} {late later : Program Session α}
    (goesOn : ready now = true → Matches post first second now)
    (expires : ready now = false → Matches post late later now) :
    Matches post (.await ready limit first late) (.await ready limit second later) now := by
  rw [Matches, alone, alone]
  cases holds : ready now with
  | true => exact goesOn holds
  | false => exact expires holds

end Matches
end Program

namespace Resolving
variable {α β : Type} {level : String → Nat} {now : Session}

/-- Two resolutions that run alone do the same and keep the session layered. -/
def Tally (level : String → Nat) (now : Session) (ok : Session → α → Prop)
    (error : Session → ReferenceError → Prop) (first second : Resolving α) : Prop :=
  Program.Matches (fun outcome later => now.Proceeds level later ∧
    Meets (ok later) (error later) outcome) first.run second.run now

namespace Tally
variable {ok mid : Session → α → Prop} {error fails : Session → ReferenceError → Prop}
  {first second : Resolving α}

theorem pure {result : α} (holds : ok now result) :
    Tally level now ok error (Pure.pure result) (Pure.pure result) :=
  ⟨rfl, .refl level now, holds⟩

theorem throw {cause : ReferenceError} (holds : error now cause) :
    Tally level now ok error (MonadExcept.throw cause) (MonadExcept.throw cause) :=
  ⟨rfl, .refl level now, holds⟩

theorem mono (tally : Tally level now mid fails first second)
    (weaker : ∀ {later result}, mid later result → ok later result)
    (softer : ∀ {later cause}, fails later cause → error later cause) :
    Tally level now ok error first second :=
  Program.Matches.mono tally fun ⟨proceeds, meets⟩ => ⟨proceeds, meets.imp weaker softer⟩

theorem bind {last : Session → β → Prop} {next following : α → Resolving β}
    (tally : Tally level now mid error first second)
    (rest : ∀ {later result}, now.Proceeds level later → mid later result →
      Tally level later last error (next result) (following result)) :
    Tally level now last error (first >>= next) (second >>= following) :=
  Program.Matches.bind tally fun {outcome later} ⟨proceeds, meets⟩ => by
    cases outcome with
    | ok result =>
      exact Program.Matches.mono (rest proceeds meets)
        fun ⟨goesOn, ends⟩ => ⟨proceeds.trans goesOn, ends⟩
    | error cause => exact ⟨rfl, proceeds, meets⟩

theorem map {last : Session → β → Prop} {f : α → β} (tally : Tally level now mid error first second)
    (rest : ∀ {later result}, mid later result → last later (f result)) :
    Tally level now last error (f <$> first) (f <$> second) :=
  tally.bind fun _ meets => .pure (rest meets)

theorem tryCatch {handle cope : ReferenceError → Resolving α}
    (tally : Tally level now ok fails first second)
    (copes : ∀ {later cause}, now.Proceeds level later → fails later cause →
      Tally level later ok error (handle cause) (cope cause)) :
    Tally level now ok error (MonadExcept.tryCatch first handle)
      (MonadExcept.tryCatch second cope) :=
  Program.Matches.bind tally fun {outcome later} ⟨proceeds, meets⟩ => by
    cases outcome with
    | ok result => exact ⟨rfl, proceeds, meets⟩
    | error cause =>
      exact Program.Matches.mono (copes proceeds meets)
        fun ⟨goesOn, ends⟩ => ⟨proceeds.trans goesOn, ends⟩

theorem update {change : Session → Session} (proceeds : now.Proceeds level (change now)) :
    Tally level now (fun _ _ => True) error (Resolving.update change) (Resolving.update change) :=
  ⟨rfl, proceeds, trivial⟩

theorem warn (code : Code) (message : String) :
    Tally level now (fun _ _ => True) error (Resolving.warn code message)
      (Resolving.warn code message) :=
  update (.of_same rfl rfl rfl id rfl)

theorem tolerate (cause : ReferenceError) (position : Span) :
    Tally level now (fun _ _ => cause.isPathDependent = false) (fun _ _ => True)
      (Resolving.tolerate cause position) (Resolving.tolerate cause position) := by
  refine ⟨rfl, ?_⟩
  rw [alone_tolerate]
  rcases now.context.report_ofReference cause position with ⟨passes, same⟩ | ⟨_, stop, same⟩
  · rw [same]
    exact ⟨.of_same rfl rfl rfl id rfl, passes.1⟩
  · rw [same]
    exact ⟨.refl level now, trivial⟩

end Tally

/-- Two ways to resolve references tally. A reference that is resolved has its value afterwards, and
one that fails for itself is barren. -/
def Tallies (level : String → Nat) (first second : Uri → Resolving Resolved) : Prop :=
  ∀ {uri : Uri} {now : Session}, now.Layered level →
    Tally level now (fun later value => later.shared.results.find? uri.key = some value)
      (fun later error => error.isPathDependent = false → later.Barren uri.key)
      (first uri) (second uri)

end Resolving

/-- All ancestors that trees name are barren. -/
def Session.Spent (now : Session) (nodes : List Node) : Prop :=
  ∀ next ∈ Node.ancestorsOf nodes, now.Barren next.key

theorem Session.Spent.append {now : Session} {nodes others : List Node} (first : now.Spent nodes)
    (second : now.Spent others) : now.Spent (nodes ++ others) := fun next names => by
  rw [Node.ancestorsOf_append] at names
  exact (List.mem_append.mp names).elim (first next) (second next)

theorem Session.Proceeds.spent {level : String → Nat} {before after : Session} {nodes : List Node}
    (proceeds : Proceeds level before after) (spent : before.Spent nodes) : after.Spent nodes :=
  fun next names => proceeds.barren (spent next names)

open Resolving

namespace Resolver
variable {resolver : Resolver} {level : String → Nat} {first second : Uri → Resolving Resolved}
  {one other : Expansion} {bound : Nat} {now : Session} {uri : Uri}

/-- Two expansions tally on elements whose ancestors are barren or below a level. -/
structure Expansion.Tallies (level : String → Nat) (bound : Nat) (one other : Expansion) : Prop where
  reference : ∀ {now : Session} (r : Reference), now.Layered level →
    Tally level now (fun _ _ => True) (fun _ _ => True) (one.reference r) (other.reference r)
  inherit : ∀ {now : Session} {e : Element}, now.Layered level →
    (∀ uri ∈ e.ancestor?.toList, now.Barren uri.key ∨ level uri.key < bound) →
    Tally level now (fun later (head, inherited) =>
        (∀ uri ∈ head.ancestor?.toList, later.Barren uri.key) ∧ later.Spent inherited)
      (fun _ _ => True) (one.inherit e) (other.inherit e)

mutual
private theorem node_tally (tallies : Expansion.Tallies level bound one other) :
    ∀ {now : Session} {node : Node}, now.Layered level → now.Below level bound [node] →
      Tally level now (fun later after => later.Spent [after]) (fun _ _ => True)
        (one.node node) (other.node node)
  | _, .element _, layered, below => (element_tally tallies layered below).map id
  | _, .reference r, layered, _ => (tallies.reference r layered).map fun _ _ names => by cases names
  | _, .content _, _, _ => .pure fun _ names => by cases names
private theorem nodes_tally (tallies : Expansion.Tallies level bound one other) :
    ∀ {now : Session} {nodes : List Node}, now.Layered level → now.Below level bound nodes →
      Tally level now (fun later after => later.Spent after) (fun _ _ => True)
        (one.nodes nodes) (other.nodes nodes)
  | _, [], _, _ => .pure fun _ names => by cases names
  | now, node :: rest, layered, below => by
    have here : now.Below level bound [node] :=
      below.subset (Node.ancestorsOf_subset List.mem_cons_self)
    have there : now.Below level bound rest := by
      apply below.subset
      rw [Node.ancestorsOf_cons node]
      exact List.subset_append_right _ _
    refine (node_tally tallies layered here).bind fun {later begun} proceeds head => ?_
    refine (nodes_tally tallies (proceeds.layered layered) (proceeds.below there)).bind
      fun {last ended} goesOn tail => .pure ?_
    have spent : last.Spent ([begun] ++ ended) := (goesOn.spent head).append tail
    exact spent
private theorem element_tally (tallies : Expansion.Tallies level bound one other) :
    ∀ {now : Session} {e : Element}, now.Layered level → now.Below level bound [.element e] →
      Tally level now (fun later after => later.Spent [.element after]) (fun _ _ => True)
        (one.element e) (other.element e)
  | _, ⟨tag, attributes, children, metadata, position⟩, layered, below => by
    simp only [Below, Node.ancestorsOf_element, List.mem_append, or_imp, forall_and] at below
    refine (tallies.inherit layered below.1).bind fun {later merged} proceeds above => ?_
    obtain ⟨head, inherited⟩ := merged
    refine (nodes_tally tallies (proceeds.layered layered) (proceeds.below below.2)).bind
      fun {last own} goesOn spent => .pure fun next names => ?_
    have same : Element.ancestor? { head with children := inherited ++ own } = head.ancestor? := rfl
    rw [Node.ancestorsOf_element, same, List.mem_append] at names
    rcases names with itself | inside
    · exact goesOn.barren (above.1 next itself)
    · exact (goesOn.spent above.2).append spent next inside
end

private theorem warnDiscarded_tally (resolver : Resolver) (e a : Element) :
    Tally level now (fun _ _ => True) (fun _ _ => True) (resolver.warnDiscarded e a)
      (resolver.warnDiscarded e a) := by
  unfold warnDiscarded
  split
  · exact .warn _ _
  · exact .pure trivial

private theorem expansion_eq (resolver : Resolver) (resolve : Uri → Resolving Resolved)
    (levels : Nat) : ∃ again, resolver.expansion resolve levels =
      ⟨expandReference resolve, expandHead resolver resolve again⟩ := by
  cases levels with
  | zero => exact ⟨_, rfl⟩
  | succ levels => exact ⟨_, rfl⟩

section Expansions
variable (tallies : Resolving.Tallies level first second)
include tallies

theorem resolveReference_tally (r : Reference) (layered : now.Layered level) :
    Tally level now (fun _ _ => True) (fun _ _ => True) (resolveReference first r)
      (resolveReference second r) := by
  unfold resolveReference
  split
  · exact .pure trivial
  · exact ((tallies layered).mono (fun _ => trivial) fun _ => trivial).bind
      fun _ _ => .pure trivial

private theorem expandReference_tally (r : Reference) (layered : now.Layered level) :
    Tally level now (fun _ _ => True) (fun _ _ => True) (expandReference first r)
      (expandReference second r) :=
  (resolveReference_tally tallies r layered).tryCatch fun {_ cause} _ _ =>
    (Tally.tolerate cause r.position).bind fun _ _ => .pure trivial

/-- The ancestor that is found hands on what is barren or below its key, which is not barren. -/
theorem ancestor_tally {e : Element} {target : String} (names : e.extends? = some target)
    (layered : now.Layered level) :
    Tally level now (fun later (a : Element) => ∃ uri ∈ e.ancestor?, ¬ later.Barren uri.key ∧
        later.Below level (level uri.key) a.children)
      (fun later error => error.isPathDependent = false →
        ∀ uri ∈ e.ancestor?.toList, later.Barren uri.key)
      (ancestor first target) (ancestor second target) := by
  unfold ancestor
  split
  · rename_i fault malformed
    have nothing : e.ancestor? = none := by
      simp [Element.ancestor?, names, malformed, Except.toOption]
    exact .throw (by simp [nothing])
  · rename_i uri wellFormed
    have named : e.ancestor? = some uri := by
      simp [Element.ancestor?, names, wellFormed, Except.toOption]
    simp only [named, Option.mem_some_iff, Option.toList_some, List.mem_singleton, forall_eq,
      exists_eq_left']
    refine (tallies layered).bind fun {later value} proceeds kept => ?_
    cases means : ancestorOf uri value with
    | ok a =>
      refine .pure ⟨fun barren => ?_, proceeds.layered layered kept means⟩
      exact (barren_of_value kept).mp barren _ _ means
    | error cause =>
      refine .throw fun _ => (barren_of_value kept).mpr fun again a found => ?_
      cases means.symm.trans (ancestorOf_congr found uri)

private theorem expandHead_tally (resolver : Resolver)
    {again once : List Node → Resolving (List Node)}
    (inherits : ∀ {lower}, lower < bound → ∀ {now : Session} {nodes : List Node},
      now.Layered level → now.Below level lower nodes →
      Tally level now (fun later after => later.Spent after) (fun _ _ => True)
        (again nodes) (once nodes))
    {e : Element} (layered : now.Layered level)
    (below : ∀ uri ∈ e.ancestor?.toList, now.Barren uri.key ∨ level uri.key < bound) :
    Tally level now (fun later (head, inherited) =>
        (∀ uri ∈ head.ancestor?.toList, later.Barren uri.key) ∧ later.Spent inherited)
      (fun _ _ => True) (expandHead resolver first again e) (expandHead resolver second once e) := by
  have same : Element.ancestor? { e with children := [] } = e.ancestor? := rfl
  unfold expandHead
  split
  · rename_i alone
    have nothing : e.ancestor? = none := by simp [Element.ancestor?, alone]
    exact .pure ⟨by simp [same, nothing], fun _ names => by cases names⟩
  · rename_i target names
    have caught : Tally level now (fun later (found : Option Element) =>
          (∀ a, found = some a → ∃ uri ∈ e.ancestor?, ¬ later.Barren uri.key ∧
              later.Below level (level uri.key) a.children) ∧
            (found = none → ∀ uri ∈ e.ancestor?.toList, later.Barren uri.key))
        (fun _ _ => True)
        (MonadExcept.tryCatch (some <$> ancestor first target) fun error => do
          Resolving.tolerate error e.position
          return none)
        (MonadExcept.tryCatch (some <$> ancestor second target) fun error => do
          Resolving.tolerate error e.position
          return none) := by
      refine Tally.tryCatch ((ancestor_tally tallies names layered).map ?found) ?missed
      case found => exact fun finds => ⟨fun _ same => Option.some.inj same ▸ finds, fun none => by cases none⟩
      case missed =>
        refine fun {later cause} _ fails => (Tally.tolerate cause e.position).bind
          fun {last _} goesOn stays => .pure ?_
        exact ⟨fun _ some => (by cases some),
          fun _ uri named => goesOn.barren (fails stays uri named)⟩
    refine caught.bind fun {later found} proceeds holds => ?_
    cases found with
    | none => exact .pure ⟨by simpa [same] using holds.2 rfl, fun _ names => by cases names⟩
    | some a =>
      obtain ⟨uri, named, fertile, handed⟩ := holds.1 a rfl
      have lower : level uri.key < bound :=
        (below uri (by simpa using named)).resolve_left fun barren => fertile (proceeds.barren barren)
      refine (warnDiscarded_tally resolver e a).bind fun {last _} warned _ => ?_
      refine (inherits lower (warned.layered (proceeds.layered layered))
        ((warned.below handed).subset (Inheritance.ancestorsOf_children_subset _ _))).bind
        fun {_ inherited} _ spent => .pure ⟨?_, spent⟩
      simp [Inheritance.ancestor?_head]

private theorem expansion_tally (resolver : Resolver) (bound : Nat) {levels more : Nat}
    (enough : bound ≤ levels) (also : bound ≤ more) :
    Expansion.Tallies level bound (resolver.expansion first levels)
      (resolver.expansion second more) := by
  induction bound using Nat.strong_induction_on generalizing levels more with
  | _ bound ih =>
    rcases Nat.eq_zero_or_pos bound with rfl | positive
    · -- No ancestor is found at all, and it does not matter how inherited children are expanded.
      obtain ⟨again, same⟩ := expansion_eq resolver first levels
      obtain ⟨once, also⟩ := expansion_eq resolver second more
      rw [same, also]
      exact ⟨expandReference_tally tallies,
        expandHead_tally tallies resolver fun lower => absurd lower (Nat.not_lt_zero _)⟩
    · obtain ⟨levels, rfl⟩ : ∃ lower, levels = lower + 1 := ⟨levels - 1, by omega⟩
      obtain ⟨more, rfl⟩ : ∃ lower, more = lower + 1 := ⟨more - 1, by omega⟩
      refine ⟨expandReference_tally tallies, expandHead_tally tallies resolver ?_⟩
      exact fun {lower} less _ _ layered below =>
        nodes_tally (ih lower less (by omega) (by omega)) layered below

end Expansions

end Resolver

namespace Shared
variable {shared : Shared} {task other : Nat} {key name : String}

theorem withheld_take (free : shared.locks.find? key = none) (withheld : shared.Withheld other name) :
    (shared.take task key).Withheld other name := by
  obtain ⟨lock, found, foreign⟩ := withheld
  refine ⟨lock, ?_, foreign⟩
  rw [find?_locks_take, if_neg fun same => ?_, found]
  cases free.symm.trans (same ▸ found)

theorem withheld_enqueue {lock : Lock} (found : shared.locks.find? key = some lock) :
    (shared.enqueue task key).Withheld other name ↔ shared.Withheld other name := by
  simp only [Withheld, find?_locks_enqueue found]
  split
  · rename_i same
    simp [same, found]
  · exact Iff.rfl

theorem withheld_giveUp {lock : Lock} (found : shared.locks.find? key = some lock) :
    (shared.giveUp task key).Withheld other name ↔ shared.Withheld other name := by
  simp only [Withheld, find?_locks_giveUp found]
  split
  · rename_i same
    simp [same, found]
  · exact Iff.rfl

end Shared

namespace Resolver
open Shared
variable {resolver : Resolver} {level : String → Nat} {first second : Uri → Resolving Resolved}
  {bound : Nat} {now : Session} {uri : Uri}

private theorem acquire_tally (timeout : Nat) {key : String} (outside : key ∉ now.context.resolving) :
    Tally level now (fun later acquired => match acquired with
        | .value value => later.shared.results.find? key = some value
        | .owned => later.shared.results.find? key = none ∧ ¬ later.Barren key)
      (fun later error => error.isPathDependent = false → later.Barren key)
      (acquire timeout key) (acquire timeout key) := by
  have owned {later : Session} (unknown : later.shared.results.find? key = none)
      (sound : later.shared.failures.find? key = none)
      (mine : ∀ lock, later.shared.locks.find? key = some lock → lock.holder = later.context.task) :
      later.shared.results.find? key = none ∧ ¬ later.Barren key := by
    refine ⟨unknown, fun barren => ?_⟩
    rcases ((barren_of_none unknown).mp barren).2 with failed | ⟨lock, found, foreign⟩
    · exact failed sound
    · exact foreign (mine lock found)
  unfold acquire
  refine .read ?_
  dsimp only
  split
  · rename_i kept
    exact ⟨rfl, .refl level now, kept⟩
  · rename_i unknown failed
    refine ⟨rfl, .refl level now, fun _ => ?_⟩
    exact (barren_of_none unknown).mpr ⟨outside, .inl (by simp [failed])⟩
  rename_i unknown sound
  split
  · rename_i free
    have open' : now.shared.locks.find? key = none := by simpa [isFree] using free
    refine .change ⟨rfl, .of_same rfl rfl rfl (withheld_take open') rfl,
      owned unknown sound fun lock found => ?_⟩
    have found : (now.shared.take now.context.task key).locks.find? key = some lock := found
    rw [find?_locks_take, if_pos rfl] at found
    cases found
    rfl
  rename_i held
  obtain ⟨lock, found⟩ : ∃ lock, now.shared.locks.find? key = some lock :=
    Option.ne_none_iff_exists'.mp (by simpa [isFree] using held)
  split
  · exact ⟨rfl, .refl level now, fun stays => by cases stays⟩
  have queued : (now.shared.enqueue now.context.task key).locks.find? key =
      some { lock with queue := lock.queue ++ [now.context.task] } :=
    (find?_locks_enqueue found key).trans (if_pos rfl)
  refine .change (.await (fun ready => ?_) fun waits => ?_)
  · -- The task holds the lock already, so nobody else has resolved the key in the meantime.
    refine .change ?_
    unfold recheck
    refine .read ?_
    split
    · rename_i kept
      cases unknown.symm.trans kept
    · rename_i failed
      cases sound.symm.trans failed
    have mine : (((now.shared.enqueue now.context.task key).locks.find? key).any
        (·.holder == now.context.task)) = true := ready
    rw [queued, Option.any_some, beq_iff_eq] at mine
    refine ⟨rfl, .of_same rfl rfl rfl (withheld_enqueue found).mpr rfl,
      owned unknown sound fun held there => ?_⟩
    cases queued.symm.trans there
    exact mine
  · refine .change ⟨rfl, ?_, fun _ => ?_⟩
    · refine .of_same rfl rfl rfl (fun withheld => ?_) rfl
      exact (withheld_giveUp queued).mpr ((withheld_enqueue found).mpr withheld)
    · show Barren (onShared (·.giveUp now.context.task key)
        (onShared (·.enqueue now.context.task key) now)) key
      refine Iff.mpr (barren_of_none unknown) ⟨outside, .inr ?_⟩
      refine (withheld_giveUp queued).mpr ⟨_, queued, ?_⟩
      simpa [isHolder, queued, onShared] using waits

private theorem ask_tally (handler : Handler) (uri : Uri) :
    Tally level now (fun _ _ => True) (fun _ _ => True) (resolver.ask handler uri)
      (resolver.ask handler uri) := by
  have ends {outcome : Except ReferenceError Resolved} : Program.Matches (fun outcome later =>
      now.Proceeds level later ∧ Meets (fun _ => True) (fun _ => True) outcome)
      (.done outcome) (.done outcome) now :=
    ⟨rfl, .refl level now, by cases outcome <;> trivial⟩
  unfold ask
  refine .read ?_
  dsimp only
  split
  · exact .pauses (.await (fun _ => ends) fun _ => ends)
  · split
    · exact .pause ends
    · exact .pauses ends

/-- The resolver with another number of levels for what is inherited. -/
def nestedTo (resolver : Resolver) (levels : Nat) : Resolver := { resolver with nesting := levels }

private theorem expansion_nestedTo (levels lower : Nat) :
    (resolver.nestedTo levels).expansion first lower = resolver.expansion first lower := by
  induction lower with
  | zero => rfl
  | succ lower ih => rw [expansion, expansion, ih]; rfl

/-- Expansions of nodes tally if both have enough levels. -/
theorem expandNodes_tally (tallies : Resolving.Tallies level first second)
    (high : ∀ key, level key < bound) {levels more : Nat} (enough : bound ≤ levels)
    (also : bound ≤ more) (layered : now.Layered level) (nodes : List Node) :
    Tally level now (fun later after => later.Spent after) (fun _ _ => True)
      (((resolver.nestedTo levels).expansion first levels).nodes nodes)
      (((resolver.nestedTo more).expansion second more).nodes nodes) := by
  rw [expansion_nestedTo, expansion_nestedTo]
  exact nodes_tally (expansion_tally tallies resolver bound enough also) layered
    fun next _ => .inr (high next.key)

private theorem expand_tally (tallies : Resolving.Tallies level first second)
    (high : ∀ key, level key < bound) {levels more : Nat} (enough : bound ≤ levels)
    (also : bound ≤ more) (layered : now.Layered level) (value : Resolved) :
    Tally level now (fun later after => ∀ next ∈ after.ancestors, later.Barren next.key)
      (fun _ _ => True) ((resolver.nestedTo levels).expand first value)
      ((resolver.nestedTo more).expand second value) := by
  match value with
  | .element e =>
    have below := element_tally (e := e) (expansion_tally tallies resolver bound enough also) layered
      fun next _ => .inr (high next.key)
    rw [expand, expand, nestedTo, nestedTo]
    dsimp only
    rw [← nestedTo, ← nestedTo, expansion_nestedTo, expansion_nestedTo]
    exact below.map id
  | .document d =>
    exact (expandNodes_tally tallies high enough also layered d.children).bind
      fun _ spent => .pure spent
  | .data value => exact .pure fun _ names => by cases names
  | .text text => exact .pure fun _ names => by cases names

private theorem fetch_tally (tallies : Resolving.Tallies level first second)
    (high : ∀ key, level key < bound) {levels more : Nat} (enough : bound ≤ levels)
    (also : bound ≤ more) (layered : now.Layered level) :
    Tally level now (fun later value => ∀ next ∈ value.ancestors, later.Barren next.key)
      (fun _ _ => True) ((resolver.nestedTo levels).fetch first uri)
      ((resolver.nestedTo more).fetch second uri) := by
  have protocols (levels : Nat) : (resolver.nestedTo levels).protocols = resolver.protocols := rfl
  unfold fetch
  rw [protocols, protocols]
  split
  · exact .throw trivial
  · rename_i handler _
    have notes : now.Proceeds level (now.note (.asked now.context.task uri)) :=
      .of_same rfl rfl rfl id rfl
    have begins : Tally level now (fun _ _ => True) (fun _ _ => True)
        (Resolving.update fun session => session.note (.asked session.context.task uri))
        (Resolving.update fun session => session.note (.asked session.context.task uri)) :=
      Tally.update notes
    refine begins.bind fun {later _} noted _ => ?_
    have asks : Tally level later (fun _ _ => True) (fun _ _ => True) (resolver.ask handler uri)
        (resolver.ask handler uri) := ask_tally handler uri
    refine Tally.bind asks fun {_ value} asked _ => ?_
    exact expand_tally tallies high enough also (asked.layered (noted.layered layered)) value

private theorem find?_conclude (uri : Uri) (outcome : Except ReferenceError Resolved)
    (session : Session) (unknown : session.shared.results.find? uri.key = none) (name : String) :
    (conclude uri outcome session).shared.results.find? name =
      (if name = uri.key then outcome.toOption else session.shared.results.find? name) := by
  cases outcome with
  | ok value =>
    refine (find?_results_store (session.shared.note _) uri.key value name).trans ?_
    rw [show (session.shared.note _).results.find? uri.key = none from unknown]
    rfl
  | error error =>
    have same : (conclude uri (.error error) session).shared.results = session.shared.results :=
      results_storeFailure _ _ _
    rw [same]
    split
    · rename_i here
      rw [here, unknown]
      rfl
    · rfl

private theorem failures_conclude (uri : Uri) (outcome : Except ReferenceError Resolved)
    (session : Session) {name : String} (failed : session.shared.failures.find? name ≠ none) :
    (conclude uri outcome session).shared.failures.find? name ≠ none := by
  cases outcome with
  | ok value => exact failed
  | error error =>
    show (storeFailure (session.shared.note _) uri.key error).failures.find? name ≠ none
    rw [storeFailure]
    split
    · exact failed
    · rw [Table.find?_insertNew]
      split
      · simp
      · exact failed

private theorem barren_enter {name key : String} (fertile : ¬ now.Barren name)
    (barren : now.Barren key) : (now.onContext (·.enter name)).Barren key := by
  have other : key ≠ name := fun same => fertile (same ▸ barren)
  cases known : now.shared.results.find? key with
  | some value => exact Iff.mpr (barren_of_value known) ((barren_of_value known).mp barren)
  | none =>
    obtain ⟨apart, why⟩ := (barren_of_none known).mp barren
    refine Iff.mpr (barren_of_none known) ⟨?_, why⟩
    simpa [onContext, Context.enter, other] using apart

private theorem layered_enter {name : String} (fertile : ¬ now.Barren name)
    (layered : now.Layered level) : (now.onContext (·.enter name)).Layered level :=
  fun _ _ _ kept means next names =>
    (layered kept means next names).imp_left (barren_enter fertile)

private theorem barren_conclude (outcome : Except ReferenceError Resolved)
    (unknown : now.shared.results.find? uri.key = none) (inside : uri.key ∈ now.context.resolving)
    (back : (conclude uri outcome now).context.resolving ⊆ now.context.resolving) {key : String}
    (barren : now.Barren key) : (conclude uri outcome now).Barren key := by
  have other : key ≠ uri.key := by
    rintro rfl
    exact ((barren_of_none unknown).mp barren).1 inside
  have same : (conclude uri outcome now).shared.results.find? key = now.shared.results.find? key :=
    (find?_conclude uri outcome now unknown key).trans (if_neg other)
  cases known : now.shared.results.find? key with
  | some value =>
    exact (barren_of_value (same.trans known)).mpr ((barren_of_value known).mp barren)
  | none =>
    obtain ⟨apart, why⟩ := (barren_of_none known).mp barren
    refine (barren_of_none (same.trans known)).mpr ⟨fun member => apart (back member), ?_⟩
    refine why.imp (failures_conclude uri outcome now) fun ⟨lock, found, foreign⟩ => ?_
    refine ⟨lock, ((find?_locks_release_other other).trans ?_).trans found, foreign⟩
    cases outcome with
    | ok value => rfl
    | error error =>
      show (storeFailure (now.shared.note _) uri.key error).locks.find? key = _
      rw [storeFailure]
      split <;> rfl

private theorem fetchOwned_tally {fetch again : Resolving Resolved}
    (unknown : now.shared.results.find? uri.key = none) (fertile : ¬ now.Barren uri.key)
    (outside : uri.key ∉ now.context.resolving)
    (fetches : Tally level (now.onContext (·.enter uri.key))
      (fun later value => ∀ next ∈ value.ancestors, later.Barren next.key) (fun _ _ => True)
      fetch again) :
    Tally level now (fun later value => later.shared.results.find? uri.key = some value)
      (fun later error => error.isPathDependent = false → later.Barren uri.key)
      (fetchOwned uri fetch) (fetchOwned uri again) := by
  refine .change (Program.Matches.bind fetches fun {outcome later} ⟨proceeds, meets⟩ =>
    .change ⟨rfl, ?_⟩)
  let last := conclude uri outcome later
  show now.Proceeds level last ∧ Meets _ _ outcome
  have like : now.context.Like last.context := Context.leave_enter proceeds.like
  have back : last.context.resolving = now.context.resolving := by rw [like]
  have entered : later.context.resolving = now.context.resolving ++ [uri.key] :=
    proceeds.resolving_eq
  have inside : uri.key ∈ later.context.resolving := by simp [entered]
  have fresh : later.shared.results.find? uri.key = none :=
    (proceeds.spares uri.key (by simp [onContext, Context.enter])).trans unknown
  have results := find?_conclude uri outcome later fresh
  have ends {key : String} (barren : later.Barren key) : last.Barren key :=
    barren_conclude outcome fresh inside (back ▸ entered ▸ List.subset_append_left _ _) barren
  refine ⟨⟨like, fun barren => ends (proceeds.barren (barren_enter fertile barren)),
    fun layered => ?_, fun key member => ?_, ?_⟩, ?_⟩
  · intro other value a kept means next names
    rw [show last.shared.results.find? other.key = _ from results other.key] at kept
    split at kept
    · cases outcome with
      | ok found =>
        cases kept
        exact .inl (ends (meets next (ancestorsOf_subset means names)))
      | error error => cases kept
    · exact (proceeds.layered (layered_enter fertile layered) kept means next names).imp_left ends
  · have other : key ≠ uri.key := fun same => outside (same ▸ member)
    refine ((results key).trans (if_neg other)).trans (proceeds.spares key ?_)
    exact List.mem_append_left _ member
  · exact (cutOff_keep (later.shared.note _) uri.key outcome).trans proceeds.cutOff
  · cases outcome with
    | ok value => exact (results uri.key).trans (if_pos rfl)
    | error error =>
      intro stays
      refine (barren_of_none ((results uri.key).trans (if_pos rfl))).mpr ⟨back ▸ outside, .inl ?_⟩
      show (storeFailure (later.shared.note _) uri.key error).failures.find? uri.key ≠ none
      rw [storeFailure, if_neg (by simp [stays]), Table.find?_insertNew, if_pos rfl]
      simp

private theorem resolveBy_tally {fetch? again? : Option (Resolving Resolved)} {levels more : Nat}
    (layered : now.Layered level) (both : fetch?.isSome = again?.isSome)
    (fetches : ∀ fetch ∈ fetch?, ∀ again ∈ again?, ∀ {entered : Session}, entered.Layered level →
      Tally level entered (fun later value => ∀ next ∈ value.ancestors, later.Barren next.key)
        (fun _ _ => True) fetch again) :
    Tally level now (fun later value => later.shared.results.find? uri.key = some value)
      (fun later error => error.isPathDependent = false → later.Barren uri.key)
      ((resolver.nestedTo levels).resolveBy uri fetch?)
      ((resolver.nestedTo more).resolveBy uri again?) := by
  unfold resolveBy
  refine .read ?_
  cases known : now.shared.results.find? uri.key with
  | some value => exact ⟨rfl, .refl level now, known⟩
  | none =>
  cases cycle : now.context.cycle? uri.key with
  | some chain => exact ⟨rfl, .refl level now, fun stays => by cases stays⟩
  | none =>
  match fetch?, again?, both with
  | none, none, _ => exact ⟨rfl, .refl level now, fun stays => by cases stays⟩
  | some fetch, some again, _ =>
    have acquires : Tally level now _ _ _ _ :=
      acquire_tally resolver.timeout (Context.cycle?_eq_none_iff.mp cycle)
    refine Program.Matches.bind acquires fun {outcome later} ⟨proceeds, meets⟩ => ?_
    match outcome, meets with
    | .error error, barren => exact ⟨rfl, proceeds, barren⟩
    | .ok (.value value), kept => exact ⟨rfl, proceeds, kept⟩
    | .ok .owned, ⟨unknown, fertile⟩ =>
      have apart : uri.key ∉ later.context.resolving :=
        proceeds.resolving_eq ▸ Context.cycle?_eq_none_iff.mp cycle
      have entered := layered_enter fertile (proceeds.layered layered)
      refine Program.Matches.mono (fetchOwned_tally unknown fertile apart
        (fetches fetch rfl again rfl entered)) fun ⟨goesOn, ends⟩ => ⟨proceeds.trans goesOn, ends⟩

/-- Resolutions tally if both have enough levels. -/
theorem resolveWithin_tally (high : ∀ key, level key < bound) {levels more : Nat}
    (enough : bound ≤ levels) (also : bound ≤ more) (room : Nat) :
    Resolving.Tallies level ((resolver.nestedTo levels).resolveWithin room)
      ((resolver.nestedTo more).resolveWithin room) := by
  -- The induction is on the room; the references of what is found are resolved in less.
  induction room with
  | zero =>
    intro uri now layered
    rw [resolveWithin, resolveWithin]
    exact resolveBy_tally layered rfl (by simp)
  | succ room ih =>
    intro uri now layered
    rw [resolveWithin, resolveWithin]
    refine resolveBy_tally layered (by simp only [Option.isSome_some]) fun fetch given again also' entered layered => ?_
    cases Option.mem_some.mp given
    cases Option.mem_some.mp also'
    exact fetch_tally ih high enough also layered

theorem resolve_tally (high : ∀ key, level key < bound) {levels more : Nat}
    (enough : bound ≤ levels) (also : bound ≤ more) :
    Resolving.Tallies level (resolver.nestedTo levels).resolve (resolver.nestedTo more).resolve :=
  fun layered => .read (resolveWithin_tally high enough also _ layered)

/-- An element that inherits does so from an ancestor that is not barren, and the children that it may
get name ancestors which are barren or below the level of this one. -/
theorem inherit_tally (high : ∀ key, level key < bound) {levels more : Nat} (enough : bound ≤ levels)
    (also : bound ≤ more) (layered : now.Layered level) (e : Element) :
    Tally level now (fun later merged => merged = e ∨ ∃ uri ∈ e.ancestor?, ∃ a,
        merged = Inheritance.merge resolver.tags e a ∧ ¬ now.Barren uri.key ∧
          later.Below level (level uri.key) a.children)
      (fun _ _ => True) ((resolver.nestedTo levels).inherit e) ((resolver.nestedTo more).inherit e) := by
  unfold inherit
  split
  · exact .pure (.inl rfl)
  · rename_i target names
    refine Tally.bind ((ancestor_tally (resolve_tally high enough also) names layered).mono id
      fun _ => trivial) fun {_ a} proceeds found => ?_
    obtain ⟨uri, named, fertile, handed⟩ := found
    refine (warnDiscarded_tally resolver e a).bind fun {_ _} warned _ => .pure (.inr ?_)
    exact ⟨uri, named, a, rfl, fun barren => fertile (proceeds.barren barren), warned.below handed⟩

end Resolver
end LinkedMarkup

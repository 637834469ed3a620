import LinkedMarkup.Proofs.Resolution.Customs

namespace LinkedMarkup
open Program Session Shared Resolving

namespace Shared

theorem find?_results_store (shared : Shared) (key : String) (value : Resolved) (name : String) :
    (shared.store key value).results.find? name =
      if name = key then some ((shared.results.find? key).getD value)
      else shared.results.find? name := by
  rw [store, Table.find?_insertNew]

theorem results_storeFailure (shared : Shared) (key : String) (error : ReferenceError) :
    (shared.storeFailure key error).results = shared.results := by
  rw [storeFailure]
  split <;> rfl

end Shared

namespace Resolver
variable {resolver : Resolver} {uri : Uri}

theorem acquire_always (timeout : Nat) (key : String) (session : Session) :
    Always (acquire timeout key).run session fun changes _ last =>
      last.context = session.context ∧ ∀ name, Spares name changes := by
  let still : Session × Session → Prop := fun change =>
    change.2.shared.results = change.1.shared.results
  have spare : Spare still := fun _ same => same
  refine (acquire_abides spare timeout key session).always.mono fun ⟨changes, context⟩ => ?_
  exact ⟨context, fun name change member => by rw [changes change member]⟩

def Reverts (base : Context) (uri : Uri) (changes : List (Session × Session))
    (outcome : Except ReferenceError Resolved) (last : Session) : Prop :=
  base.Like last.context ∧ (∀ key ∈ base.resolving, Spares key changes) ∧
    StoresOnly uri.key (fun value => outcome = .ok value) changes

/-- No change gives a value to a key that is being resolved in the base. -/
private def SparesAll (base : Context) (change : Session × Session) : Prop :=
  ∀ key ∈ base.resolving, change.2.shared.results.find? key = change.1.shared.results.find? key

private theorem conclude_stores (uri : Uri) (outcome : Except ReferenceError Resolved)
    (session : Session) :
    (∀ key, key ≠ uri.key → (conclude uri outcome session).shared.results.find? key =
      session.shared.results.find? key) ∧
    StoresOnly uri.key (fun value => outcome = .ok value)
      [(session, conclude uri outcome session)] := by
  cases outcome with
  | ok value =>
    have stored (key : String) := find?_results_store
      (session.shared.note (.ended session.context.task uri (.ok value))) uri.key value key
    refine ⟨fun key different => (stored key).trans (if_neg different), ?_⟩
    simp only [StoresOnly, List.mem_singleton, forall_eq]
    have here := (stored uri.key).trans (if_pos rfl)
    cases known : session.shared.results.find? uri.key with
    | some old => exact .inl (here.trans (by rw [Shared.note, known]; rfl))
    | none => exact .inr ⟨value, rfl, rfl, here.trans (by rw [Shared.note, known]; rfl)⟩
  | error error =>
    have same : (conclude uri (.error error) session).shared.results = session.shared.results :=
      results_storeFailure _ _ _
    exact ⟨fun key _ => by rw [same], .of_spares (Spares.cons.mpr ⟨by rw [same], .nil⟩)⟩

private theorem customs_sparesAll (base : Context) (limit : Nat) :
    Customs base limit (SparesAll base) where
  mild _ _ same key _ := by rw [same]
  enter _ _ _ _ := rfl
  conclude outcome outside key member :=
    (conclude_stores _ outcome _).1 key fun equal => outside (equal ▸ member)

private theorem fetchOwned_reverts {fetch : Resolving Resolved} {base : Context}
    (outside : uri.key ∉ base.resolving)
    (restores : Restores (SparesAll (base.enter uri.key)) (base.enter uri.key) (fun _ => True)
      (fun _ => True) fetch) {session : Session} (same : session.context = base) :
    Always (fetchOwned uri fetch).run session (Reverts base uri) := by
  refine .change ?_
  have like : (base.enter uri.key).Like (session.onContext (·.enter uri.key)).context := by
    rw [Session.onContext, same]
    rfl
  refine (restores _ like).always.bind fun {changes outcome last} kept => ?_
  obtain ⟨spares, after, _⟩ := kept
  obtain ⟨others, stores⟩ := conclude_stores uri outcome last
  have begun {key : String} (member : key ∈ (base.enter uri.key).resolving) :
      Spares key ((session, session.onContext (·.enter uri.key)) :: changes) :=
    Spares.cons.mpr ⟨rfl, fun change changed => spares change changed key member⟩
  refine .change (.done ⟨Context.leave_enter after, fun key member => ?_, ?_⟩)
  · have different : key ≠ uri.key := fun equal => outside (equal ▸ member)
    refine Spares.append.mpr ⟨begun ?_, Spares.cons.mpr ⟨others key different, .nil⟩⟩
    simp [Context.enter, member]
  · exact .append (.of_spares (begun (by simp [Context.enter]))) stores

private theorem resolveBy_reverts {fetch? : Option (Resolving Resolved)}
    (restores : ∀ fetch ∈ fetch?, ∀ base,
      Restores (SparesAll base) base (fun _ => True) (fun _ => True) fetch)
    (session : Session) :
    Always (resolver.resolveBy uri fetch?).run session (Reverts session.context uri) := by
  have unchanged {outcome : Except ReferenceError Resolved} :
      Reverts session.context uri [] outcome session :=
    ⟨rfl, fun _ _ => .nil, .of_spares .nil⟩
  refine .read ?_
  split
  · exact .done unchanged
  · exact .done unchanged
  · exact .done unchanged
  · rename_i fetch noValue noCycle
    have outside := Context.cycle?_eq_none_iff.mp noCycle
    refine (acquire_always resolver.timeout uri.key session).bind
      fun {changes outcome last} ⟨context, spares⟩ => ?_
    have still {outcome : Except ReferenceError Resolved} :
        Reverts session.context uri (changes ++ []) outcome last := by
      rw [List.append_nil]
      exact ⟨context ▸ rfl, fun key _ => spares key, .of_spares (spares _)⟩
    match outcome with
    | .error error => exact .done still
    | .ok (.value value) => exact .done still
    | .ok .owned =>
      refine (fetchOwned_reverts outside (restores fetch rfl _) context).mono
        fun ⟨like, others, stores⟩ => ⟨like, fun key member => ?_, ?_⟩
      · exact Spares.append.mpr ⟨spares key, others key member⟩
      · exact .append (.of_spares (spares _)) stores

/-- However a resolution goes, its task resolves the same keys afterwards as before; it gives none of
these a value, and its own key none but the result. -/
theorem resolveWithin_reverts (room : Nat) (uri : Uri) (session : Session) :
    Always (resolver.resolveWithin room uri).run session (Reverts session.context uri) := by
  cases room with
  | zero => exact resolveBy_reverts (by simp) session
  | succ room =>
    refine resolveBy_reverts (fun fetch given base => ?_) session
    cases Option.mem_some.mp given
    have customs := customs_sparesAll base (base.resolving.length + room)
    exact fetch_restores (customs.permits base) fun next =>
      customs.resolveWithin_restores room next (List.Subset.refl _) (Nat.le_refl _)

theorem resolve_reverts (uri : Uri) (session : Session) :
    Always (resolver.resolve uri).run session (Reverts session.context uri) :=
  .read (resolveWithin_reverts _ uri session)

/-- The resolution of a reference in its place; one that succeeds leaves it resolved. -/
theorem resolution_reverts (r : Reference) (session : Session) :
    Always (resolver.resolution r) session fun changes outcome last =>
      session.context.Like last.context ∧
        (∀ error, outcome = .error error → Spares r.uri.key changes) ∧
        ∀ after, outcome = .ok after → after.isResolved := by
  unfold resolution resolveReference
  split
  · rename_i resolved
    refine .done ⟨rfl, fun _ _ => .nil, fun _ ended => ?_⟩
    cases ended
    exact resolved
  · refine (resolve_reverts r.uri session).bind fun {changes outcome last} ⟨like, _, stores⟩ => ?_
    cases outcome with
    | ok value =>
      refine .done ⟨like, fun _ failed => ?_, fun after ended => ?_⟩
      · cases failed
      · cases ended
        cases known : r.resolved <;> simp [Reference.isResolved, Reference.resolveTo, known]
    | error error =>
      refine .done ⟨like, fun _ _ => ?_, fun _ ended => ?_⟩
      · rw [List.append_nil]
        exact stores.spares fun _ ended => by cases ended
      · cases ended

private theorem ancestor_reverts (target : String) (session : Session) :
    Always (ancestor resolver.resolve target).run session fun changes outcome last =>
      session.context.Like last.context ∧
        ∀ error, outcome = .error error → ∀ uri, Uri.parse target = .ok uri →
          StoresOnly uri.key (fun value => ancestorOf uri value = .error error) changes := by
  unfold ancestor
  split
  · rename_i malformed
    refine .done ⟨rfl, fun _ _ uri wellFormed => ?_⟩
    cases malformed.symm.trans wellFormed
  · rename_i uri wellFormed
    have same {other : Uri} (parsed : Uri.parse target = .ok other) : other = uri :=
      Except.ok.inj (parsed.symm.trans wellFormed)
    refine (resolve_reverts uri session).bind fun {changes outcome last} ⟨like, _, stores⟩ => ?_
    cases outcome with
    | ok value =>
      refine .done ⟨like, fun error failed other parsed => ?_⟩
      rw [same parsed, List.append_nil]
      exact stores.mono fun ended => Except.ok.inj ended ▸ failed
    | error error =>
      refine .done ⟨like, fun _ _ other parsed => ?_⟩
      rw [same parsed, List.append_nil]
      exact .of_spares (stores.spares fun _ ended => by cases ended)

/-- An element that cannot inherit gives no value to the key of its ancestor, unless what was found
is no element. -/
theorem inherit_reverts (e : Element) (session : Session) :
    Always (resolver.inherit e).run session fun changes outcome last =>
      session.context.Like last.context ∧
        ∀ error, outcome = .error error → ∀ uri ∈ e.ancestor?,
          StoresOnly uri.key (fun value => ancestorOf uri value = .error error) changes := by
  unfold inherit
  split
  · exact .done ⟨rfl, fun _ failed => by cases failed⟩
  rename_i target names
  refine (ancestor_reverts target session).bind fun {changes outcome last} kept => ?_
  obtain ⟨like, stores⟩ := kept
  cases outcome with
  | error error =>
    refine .done ⟨like, fun cause failed uri named => ?_⟩
    rw [List.append_nil]
    refine stores cause failed uri ?_
    rw [Element.ancestor?, names, Option.bind_some] at named
    cases parsed : Uri.parse target with
    | error fault => simp [parsed, Except.toOption] at named
    | ok other =>
      rw [parsed] at named
      exact congrArg Except.ok (Option.some.inj named)
  | ok a =>
    have merges : Always (resolver.mergeAncestor e a).run last fun _ outcome after =>
        last.context.Like after.context ∧ ∃ merged, outcome = .ok merged := by
      unfold mergeAncestor warnDiscarded
      split
      · exact .change (.done ⟨rfl, _, rfl⟩)
      · exact .done ⟨rfl, _, rfl⟩
    refine merges.mono fun kept => ⟨like.trans kept.1, fun _ failed => ?_⟩
    obtain ⟨_, merged, ended⟩ := kept
    cases ended.symm.trans failed

end Resolver
end LinkedMarkup

import DoctypeProbe.Proofs.Loader.Rules

/-!
# The Order of Resolution

Resolving a location asks the resolvers in the order of their registration, takes what the first
one decides that does not pass, and leaves the location to the rules if all of them pass.

A resolver may ask for other locations first, and the loader resolves these in the same way. How
deep such requests nest is bounded where they are evaluated, and the bound has no meaning of its
own: a resolution that ends is the same under every larger bound, so there is one way at most in
which it ends (`Loader.Ends`). `Loader.Settles` and `Loader.Passes` follow a verdict and a row of
resolvers without a bound, and `Loader.Resolves` puts them together to all the ways in which a
location can be resolved.

## Main results

* `Loader.resolveFrom_mono`: more nesting keeps a resolution that ends.
* `Loader.ends_iff_resolves`: the ways in which a location is resolved.
* `Loader.exists_ends`: a resolution ends if what its resolvers ask for does.
* `Loader.resolve_in_order`: the order of the resolvers and the rules.
-/

namespace DoctypeProbe

namespace Loader

variable {σ : Type}

/-! ### Bounds on nesting -/

section

variable {nested nested' : Bytes → Option (Resolution (Resource σ))} {requests : Nat}
  {location : Bytes}

/-- A verdict that comes to an end does so if more requests end. -/
theorem settle_mono (h : ∀ {l r}, nested l = some r → nested' l = some r) {verdict : Verdict σ}
    {r : Resolution (Option (Resource σ))} (hsettle : settle nested verdict = some r) :
    settle nested' verdict = some r := by
  induction verdict generalizing r with
  | pass => exact hsettle
  | answer resource => exact hsettle
  | fail failure => exact hsettle
  | ask location next ih =>
      rw [settle] at hsettle ⊢
      cases hnested : nested location with
      | none =>
          rw [hnested] at hsettle
          cases hsettle
      | some r₁ =>
          rw [hnested] at hsettle
          obtain ⟨r₂, hr₂, rfl⟩ := Option.map_eq_some_iff.mp hsettle
          rw [h hnested]
          exact Option.map_eq_some_iff.mpr ⟨r₂, ih r₁.outcome hr₂, rfl⟩

/-- Resolvers that come to an end do so if more requests end. -/
theorem consult_mono (h : ∀ {l r}, nested l = some r → nested' l = some r)
    {resolvers : List (Resolver σ)} {index : Nat} {r : Resolution (Option (Resource σ))}
    (hconsult : consult nested requests location index resolvers = some r) :
    consult nested' requests location index resolvers = some r := by
  induction resolvers generalizing index r with
  | nil => exact hconsult
  | cons resolver resolvers ih =>
      rw [consult] at hconsult ⊢
      cases hsettle : settle nested (resolver requests location) with
      | none =>
          rw [hsettle] at hconsult
          cases hconsult
      | some own =>
          rw [hsettle] at hconsult
          rw [settle_mono h hsettle]
          obtain ⟨outcome, events⟩ := own
          cases outcome with
          | error failure => exact hconsult
          | ok answer =>
              cases answer with
              | some resource => exact hconsult
              | none =>
                  obtain ⟨r', hr', rfl⟩ := Option.map_eq_some_iff.mp hconsult
                  exact Option.map_eq_some_iff.mpr ⟨r', ih hr', rfl⟩

end

variable {loader : Loader σ} {files : FileSystem} {requests : Nat} {location : Bytes}

/-- How the requests of a resolver are answered that may nest so deep. -/
def answerRequest (loader : Loader σ) (files : FileSystem) (requests : Nat) :
    Nat → Bytes → Option (Resolution (Resource σ))
  | 0, _ => none
  | nesting + 1, other => loader.resolveFrom files nesting (requests + 1) other

/-- What is left to do once the resolvers have been asked. -/
def complete (loader : Loader σ) (files : FileSystem) (location : Bytes)
    (r : Resolution (Option (Resource σ))) : Resolution (Resource σ) :=
  match r.outcome with
  | .error failure => { outcome := .error failure, events := r.events }
  | .ok (some resource) => { outcome := .ok resource, events := r.events }
  | .ok none =>
    { outcome := (loader.rule files location).1
      events := r.events ++ (loader.rule files location).2.map .logged }

/-- Resolving a location is asking the resolvers and doing what is left. -/
theorem resolveFrom_eq (hlocation : location ≠ []) (nesting : Nat) :
    loader.resolveFrom files nesting requests location =
      (consult (loader.answerRequest files requests nesting) requests location 0
        loader.resolvers).map (loader.complete files location) := by
  unfold resolveFrom
  rw [if_neg (mt List.isEmpty_iff.mp hlocation)]
  cases nesting <;> rfl

/-- The empty location is refused before any resolver is asked. -/
theorem resolveFrom_nil (nesting : Nat) :
    loader.resolveFrom files nesting requests [] =
      some { outcome := .error (.misuse .emptyLocation) } := by
  unfold resolveFrom
  exact if_pos rfl

/-- A resolution that ends does so if more requests are answered. -/
theorem resolveFrom_of_answerRequest {nesting nesting' : Nat} {r : Resolution (Resource σ)}
    (hmore : ∀ {other r}, loader.answerRequest files requests nesting other = some r →
      loader.answerRequest files requests nesting' other = some r)
    (h : loader.resolveFrom files nesting requests location = some r) :
    loader.resolveFrom files nesting' requests location = some r := by
  by_cases hlocation : location = []
  · subst hlocation
    rwa [resolveFrom_nil] at h ⊢
  · rw [resolveFrom_eq hlocation] at h ⊢
    obtain ⟨asked, hasked, rfl⟩ := Option.map_eq_some_iff.mp h
    exact Option.map_eq_some_iff.mpr ⟨asked, consult_mono hmore hasked, rfl⟩

/-- One more level of nesting keeps a resolution that ends. -/
theorem resolveFrom_succ {nesting : Nat} {r : Resolution (Resource σ)}
    (h : loader.resolveFrom files nesting requests location = some r) :
    loader.resolveFrom files (nesting + 1) requests location = some r := by
  induction nesting generalizing requests location r with
  | zero => exact resolveFrom_of_answerRequest (fun hnone => by cases hnone) h
  | succ nesting ih =>
      refine resolveFrom_of_answerRequest (fun hrequest => ?_) h
      exact ih hrequest

/-- **More nesting** keeps a resolution that ends. -/
theorem resolveFrom_mono {nesting nesting' : Nat} (hle : nesting ≤ nesting')
    {r : Resolution (Resource σ)}
    (h : loader.resolveFrom files nesting requests location = some r) :
    loader.resolveFrom files nesting' requests location = some r := by
  induction hle with
  | refl => exact h
  | step _ ih => exact resolveFrom_succ ih

theorem answerRequest_mono {nesting nesting' : Nat} (hle : nesting ≤ nesting') {other : Bytes}
    {r : Resolution (Resource σ)}
    (h : loader.answerRequest files requests nesting other = some r) :
    loader.answerRequest files requests nesting' other = some r := by
  cases nesting with
  | zero => cases h
  | succ nesting =>
      obtain ⟨nesting', rfl⟩ : ∃ n, nesting' = n + 1 := ⟨nesting' - 1, by omega⟩
      exact resolveFrom_mono (Nat.le_of_succ_le_succ hle) h

/-! ### Resolutions that end -/

/-- Resolving a location ends in a given way, while so many requests are under way. -/
def Ends (loader : Loader σ) (files : FileSystem) (requests : Nat) (location : Bytes)
    (r : Resolution (Resource σ)) : Prop :=
  ∃ nesting, loader.resolveFrom files nesting requests location = some r

/-- A location is resolved in one way at most. -/
theorem Ends.unique {r r' : Resolution (Resource σ)}
    (h : loader.Ends files requests location r) (h' : loader.Ends files requests location r') :
    r = r' := by
  obtain ⟨nesting, h⟩ := h
  obtain ⟨nesting', h'⟩ := h'
  have hmax := resolveFrom_mono (Nat.le_max_left nesting nesting') h
  rw [resolveFrom_mono (Nat.le_max_right nesting nesting') h'] at hmax
  exact (Option.some.inj hmax).symm

/-- A verdict comes to an end: it passes, answers or fails, or it asks for a location whose
resolution ends, and goes on from there. -/
inductive Settles (loader : Loader σ) (files : FileSystem) (requests : Nat) :
    Verdict σ → Resolution (Option (Resource σ)) → Prop
  | pass : Settles loader files requests .pass { outcome := .ok none }
  | answer (resource : Resource σ) :
      Settles loader files requests (.answer resource) { outcome := .ok (some resource) }
  | fail (failure : Failure) :
      Settles loader files requests (.fail failure) { outcome := .error failure }
  | ask {other : Bytes} {next : Except Failure (Resource σ) → Verdict σ}
      {r : Resolution (Resource σ)} {rest : Resolution (Option (Resource σ))} :
      loader.Ends files (requests + 1) other r →
      Settles loader files requests (next r.outcome) rest →
      Settles loader files requests (.ask other next)
        { outcome := rest.outcome, events := r.events ++ rest.events }

/-- A redirection comes to the end of its goal. -/
theorem settles_redirect {other : Bytes} {r : Resolution (Resource σ)}
    (h : loader.Ends files (requests + 1) other r) :
    loader.Settles files requests (.redirect other)
      { outcome := r.outcome.map some, events := r.events } := by
  obtain ⟨outcome, events⟩ := r
  rw [← List.append_nil events]
  cases outcome with
  | ok resource => exact @Settles.ask _ _ _ _ _ _ _ { outcome := .ok (some resource) } h (.answer _)
  | error failure => exact @Settles.ask _ _ _ _ _ _ _ { outcome := .error failure } h (.fail _)

/-- Resolvers are asked one after the other, the first of them with a given index, and all of them
pass. -/
inductive Passes (loader : Loader σ) (files : FileSystem) (requests : Nat) (location : Bytes) :
    Nat → List (Resolver σ) → List Event → Prop
  | nil (index : Nat) : Passes loader files requests location index [] []
  | cons {index : Nat} {resolver : Resolver σ} {resolvers : List (Resolver σ)}
      {own events : List Event} :
      loader.Settles files requests (resolver requests location)
        { outcome := .ok none, events := own } →
      Passes loader files requests location (index + 1) resolvers events →
      Passes loader files requests location index (resolver :: resolvers)
        (.consulted index location :: (own ++ events))

/-- What is logged of a decision of a resolver. -/
def noted (location : Bytes) : Except Failure (Resource σ) → List Event
  | .ok _ => [.logged (decidedByResolver location)]
  | .error _ => []

/-- The ways in which a location is resolved.

* `decided`: the resolvers in front pass, and the next one answers or fails; that is the outcome,
  and none of the others is asked.
* `ruled`: all resolvers pass, and the rule for the location applies. -/
inductive Resolves (loader : Loader σ) (files : FileSystem) (requests : Nat) (location : Bytes) :
    Resolution (Resource σ) → Prop
  | decided {front back : List (Resolver σ)} {resolver : Resolver σ} {passed own : List Event}
      {decision : Except Failure (Resource σ)} :
      loader.resolvers = front ++ resolver :: back →
      loader.Passes files requests location 0 front passed →
      loader.Settles files requests (resolver requests location)
        { outcome := decision.map some, events := own } →
      Resolves loader files requests location
        { outcome := decision
          events := passed ++ .consulted front.length location :: (own ++ noted location decision) }
  | ruled {passed : List Event} {outcome : Except Failure (Resource σ)} {log : List Log.Record} :
      loader.Passes files requests location 0 loader.resolvers passed →
      loader.Governs files location (outcome, log) →
      Resolves loader files requests location
        { outcome, events := passed ++ log.map .logged }

/-! ### Verdicts and rows of resolvers -/

/-- A verdict that is evaluated under a bound comes to an end. -/
theorem settles_of_settle {nesting : Nat} {verdict : Verdict σ}
    {r : Resolution (Option (Resource σ))}
    (h : settle (loader.answerRequest files requests nesting) verdict = some r) :
    loader.Settles files requests verdict r := by
  induction verdict generalizing r with
  | pass =>
      cases h
      exact .pass
  | answer resource =>
      cases h
      exact .answer resource
  | fail failure =>
      cases h
      exact .fail failure
  | ask other next ih =>
      rw [settle] at h
      cases hrequest : loader.answerRequest files requests nesting other with
      | none =>
          rw [hrequest] at h
          cases h
      | some r₁ =>
          rw [hrequest] at h
          obtain ⟨rest, hrest, rfl⟩ := Option.map_eq_some_iff.mp h
          cases nesting with
          | zero => cases hrequest
          | succ nesting => exact .ask ⟨nesting, hrequest⟩ (ih r₁.outcome hrest)

/-- A verdict that comes to an end is evaluated under some bound. -/
theorem exists_settle_of_settles {verdict : Verdict σ} {r : Resolution (Option (Resource σ))}
    (h : loader.Settles files requests verdict r) :
    ∃ nesting, settle (loader.answerRequest files requests nesting) verdict = some r := by
  induction h with
  | pass => exact ⟨0, rfl⟩
  | answer => exact ⟨0, rfl⟩
  | fail => exact ⟨0, rfl⟩
  | @ask other next r rest hends _ ih =>
      obtain ⟨nesting, hr⟩ := hends
      obtain ⟨nesting', hrest⟩ := ih
      have hrequest : loader.answerRequest files requests (max (nesting + 1) nesting') other =
          some r := answerRequest_mono (Nat.le_max_left _ _) hr
      refine ⟨max (nesting + 1) nesting', ?_⟩
      rw [settle, hrequest]
      refine Option.map_eq_some_iff.mpr ⟨rest, ?_, rfl⟩
      exact settle_mono (answerRequest_mono (Nat.le_max_right _ _)) hrest

/-- Resolvers that pass hand the location on to those behind them, under every bound that is large
enough. -/
theorem Passes.exists_consult {index : Nat} {front : List (Resolver σ)} {passed : List Event}
    (h : loader.Passes files requests location index front passed) :
    ∃ nesting, ∀ nesting', nesting ≤ nesting' → ∀ back,
      consult (loader.answerRequest files requests nesting') requests location index
          (front ++ back) =
        (consult (loader.answerRequest files requests nesting') requests location
          (index + front.length) back).map
            fun rest => { rest with events := passed ++ rest.events } := by
  induction h with
  | nil index => exact ⟨0, fun _ _ _ => Option.map_id'.symm⟩
  | @cons index resolver front own passed hsettles _ ih =>
      obtain ⟨nesting, hsettle⟩ := exists_settle_of_settles hsettles
      obtain ⟨nesting', hrest⟩ := ih
      refine ⟨max nesting nesting', fun bound hbound back => ?_⟩
      have hown := settle_mono (answerRequest_mono (Nat.le_trans (Nat.le_max_left _ _) hbound))
        hsettle
      rw [List.cons_append, consult, hown]
      simp only [hrest bound (Nat.le_trans (Nat.le_max_right _ _) hbound), Option.map_map,
        List.length_cons, Nat.add_assoc, Nat.add_comm 1]
      congr 1
      funext rest
      simp

/-- The outcome of a verdict that does not pass. -/
theorem exists_decision (outcome : Except Failure (Option (Resource σ))) :
    outcome = .ok none ∨ ∃ decision : Except Failure (Resource σ), outcome = decision.map some := by
  rcases outcome with failure | _ | resource
  · exact .inr ⟨.error failure, rfl⟩
  · exact .inl rfl
  · exact .inr ⟨.ok resource, rfl⟩

/-- How a resolver ends a row of resolvers that decides. -/
theorem consult_decided {nesting : Nat} {resolver : Resolver σ} {own : List Event}
    {decision : Except Failure (Resource σ)}
    (h : settle (loader.answerRequest files requests nesting) (resolver requests location) =
      some { outcome := decision.map some, events := own }) (index : Nat)
    (back : List (Resolver σ)) :
    consult (loader.answerRequest files requests nesting) requests location index
        (resolver :: back) =
      some
        { outcome := decision.map some
          events := .consulted index location :: (own ++ noted location decision) } := by
  rw [consult, h]
  cases decision with
  | ok resource => rfl
  | error failure =>
      rw [noted, List.append_nil]
      rfl

/-- How asking a row of resolvers ends. -/
theorem passes_or_decides {nesting index : Nat} {resolvers : List (Resolver σ)}
    {r : Resolution (Option (Resource σ))}
    (h : consult (loader.answerRequest files requests nesting) requests location index resolvers =
      some r) :
    (r.outcome = .ok none ∧ loader.Passes files requests location index resolvers r.events) ∨
    ∃ front resolver back passed own decision, resolvers = front ++ resolver :: back ∧
      loader.Passes files requests location index front passed ∧
      loader.Settles files requests (resolver requests location)
        { outcome := decision.map some, events := own } ∧
      r = { outcome := decision.map some
            events := passed ++
              .consulted (index + front.length) location :: (own ++ noted location decision) } := by
  induction resolvers generalizing index r with
  | nil =>
      cases h
      exact .inl ⟨rfl, .nil index⟩
  | cons resolver resolvers ih =>
      cases hsettle :
        settle (loader.answerRequest files requests nesting) (resolver requests location) with
      | none =>
          rw [consult, hsettle] at h
          cases h
      | some verdict =>
          obtain ⟨outcome, own⟩ := verdict
          have hsettles := settles_of_settle hsettle
          rcases exists_decision outcome with rfl | ⟨decision, rfl⟩
          · rw [consult, hsettle] at h
            obtain ⟨rest, hrest, rfl⟩ := Option.map_eq_some_iff.mp h
            rcases ih hrest with ⟨hnone, hpasses⟩ | ⟨front, next, back, passed, own', decision,
              rfl, hpasses, hnext, rfl⟩
            · exact .inl ⟨hnone, .cons hsettles hpasses⟩
            · refine .inr ⟨resolver :: front, next, back, _, own', decision, rfl,
                .cons hsettles hpasses, hnext, ?_⟩
              simp [Nat.add_assoc, Nat.add_comm 1]
          · rw [consult_decided hsettle] at h
            cases h
            exact .inr ⟨[], resolver, resolvers, [], own, decision, rfl, .nil index, hsettles, rfl⟩

/-! ### The ways in which a location is resolved -/

theorem complete_decision (decision : Except Failure (Resource σ)) (events : List Event) :
    loader.complete files location { outcome := decision.map some, events } =
      { outcome := decision, events } := by
  cases decision <;> rfl

/-- **The ways in which a location is resolved** are those in which resolving it ends. -/
theorem ends_iff_resolves (hlocation : location ≠ []) {r : Resolution (Resource σ)} :
    loader.Ends files requests location r ↔ loader.Resolves files requests location r := by
  constructor
  · rintro ⟨nesting, h⟩
    rw [resolveFrom_eq hlocation] at h
    obtain ⟨asked, hasked, rfl⟩ := Option.map_eq_some_iff.mp h
    rcases passes_or_decides hasked with ⟨hnone, hpasses⟩ | ⟨front, resolver, back, passed, own,
      decision, hsplit, hpasses, hsettles, rfl⟩
    · rw [complete, hnone]
      exact .ruled hpasses (governs_iff.mpr rfl)
    · rw [complete_decision, Nat.zero_add]
      exact .decided hsplit hpasses hsettles
  · intro h
    cases h with
    | @decided front back resolver passed own decision hsplit hpasses hsettles =>
        obtain ⟨nesting, hfront⟩ := hpasses.exists_consult
        obtain ⟨nesting', hsettle⟩ := exists_settle_of_settles hsettles
        refine ⟨max nesting nesting', ?_⟩
        have hown := settle_mono (answerRequest_mono (Nat.le_max_right nesting nesting')) hsettle
        rw [resolveFrom_eq hlocation, hsplit, hfront _ (Nat.le_max_left _ _),
          consult_decided hown, Nat.zero_add]
        exact congrArg some (complete_decision decision _)
    | @ruled passed outcome log hpasses hgoverns =>
        obtain ⟨nesting, hall⟩ := hpasses.exists_consult
        have hrow := hall nesting (Nat.le_refl nesting) []
        rw [List.append_nil] at hrow
        refine ⟨nesting, ?_⟩
        rw [resolveFrom_eq hlocation, hrow, consult]
        simp only [Option.map_some, complete, governs_iff.mp hgoverns, List.append_nil]

/-- A row of resolvers whose verdicts come to an end does so as a whole. -/
theorem exists_consult {resolvers : List (Resolver σ)}
    (h : ∀ resolver ∈ resolvers, ∃ r,
      loader.Settles files requests (resolver requests location) r) :
    ∃ nesting, ∀ index, ∃ r,
      consult (loader.answerRequest files requests nesting) requests location index resolvers =
        some r := by
  induction resolvers with
  | nil => exact ⟨0, fun _ => ⟨_, rfl⟩⟩
  | cons resolver resolvers ih =>
      obtain ⟨⟨⟨outcome, own⟩, hsettles⟩, hall⟩ := List.forall_mem_cons.mp h
      obtain ⟨nesting, hsettle⟩ := exists_settle_of_settles hsettles
      obtain ⟨nesting', hrest⟩ := ih hall
      have hown := settle_mono (answerRequest_mono (Nat.le_max_left nesting nesting')) hsettle
      refine ⟨max nesting nesting', fun index => ?_⟩
      rcases exists_decision outcome with rfl | ⟨decision, rfl⟩
      · obtain ⟨r, hr⟩ := hrest (index + 1)
        rw [consult, hown]
        simp only [consult_mono (answerRequest_mono (Nat.le_max_right nesting nesting')) hr]
        exact ⟨_, rfl⟩
      · exact ⟨_, consult_decided hown index resolvers⟩

/-- **A resolution ends** if the verdicts of all resolvers do. -/
theorem exists_ends (hlocation : location ≠ [])
    (h : ∀ resolver ∈ loader.resolvers, ∃ r,
      loader.Settles files requests (resolver requests location) r) :
    ∃ r, loader.Ends files requests location r := by
  obtain ⟨nesting, hrow⟩ := exists_consult h
  obtain ⟨asked, hasked⟩ := hrow 0
  exact ⟨_, nesting, by rw [resolveFrom_eq hlocation, hasked]; rfl⟩

/-! ### The order as a whole -/

/-- **Resolution order.** The empty location is refused, and no resolver is asked. Take any other
location, while any number of requests is under way.

* It is resolved in the ways that `Resolves` lists and in no other: the resolvers are asked in order
  up to the first one that does not pass, whose decision is the outcome as it is; and a rule applies
  only if all of them pass.
* There is one such way at most.
* There is one if the verdict of every resolver comes to an end, whatever it asks for.
* Where all resolvers pass, the rule that governs the location decides. It refuses files on another
  host, schemes that no rule is for, and searches with nothing to search, each with its own failure,
  and nothing else. -/
theorem resolve_in_order (loader : Loader σ) (files : FileSystem) (requests : Nat) :
    (∀ nesting, loader.resolveFrom files nesting requests [] =
      some { outcome := .error (.misuse .emptyLocation) }) ∧
    ∀ location, location ≠ [] →
      (∀ r, loader.Ends files requests location r ↔ loader.Resolves files requests location r) ∧
      (∀ r r', loader.Ends files requests location r → loader.Ends files requests location r' →
        r = r') ∧
      ((∀ resolver ∈ loader.resolvers, ∃ own,
          loader.Settles files requests (resolver requests location) own) →
        ∃ r, loader.Ends files requests location r) ∧
      ∀ passed, loader.Passes files requests location 0 loader.resolvers passed →
        ∃ outcome log, loader.Governs files location (outcome, log) ∧
          loader.Ends files requests location { outcome, events := passed ++ log.map .logged } ∧
          ∀ e, outcome = .error e ↔
            e = .unsupportedLocation location ∧ (Remote location ∨ Foreign location) ∨
            e = .io (.notFound location) ∧ searchMark <+: location ∧ loader.searchPaths = [] := by
  refine ⟨resolveFrom_nil, fun location hlocation => ⟨fun r => ends_iff_resolves hlocation,
    fun r r' => Ends.unique, exists_ends hlocation, fun passed hpasses => ?_⟩⟩
  have hgoverns : loader.Governs files location (loader.rule files location) := governs_iff.mpr rfl
  exact ⟨_, _, hgoverns, (ends_iff_resolves hlocation).mpr (.ruled hpasses hgoverns),
    fun e => rule_eq_error_iff⟩

/-- A resolver that leaves every location to others. -/
def leaving : Resolver Empty := fun _ _ => .pass

/-- A resolver that resolves what stands behind `r:`, and leaves other locations to others. -/
def redirecting : Resolver Empty := fun _ location =>
  match location.afterOpening (ascii "r:") with
  | some rest => .redirect rest
  | none => .pass

/-- A loader with both resolvers. -/
def sampleLoader : Loader Empty where
  resolvers := [leaving, redirecting]

/-- Both resolvers pass on locations that are not to be redirected. -/
theorem passes_sampleLoader (requests : Nat) {location : Bytes}
    (h : redirecting requests location = .pass) :
    sampleLoader.Passes {} requests location 0 sampleLoader.resolvers
      [.consulted 0 location, .consulted 1 location] := by
  have hfirst : sampleLoader.Settles {} requests (leaving requests location)
      { outcome := .ok none } := .pass
  have hsecond : sampleLoader.Settles {} requests (redirecting requests location)
      { outcome := .ok none } := by
    rw [h]
    exact .pass
  exact .cons hfirst (.cons hsecond (.nil 2))

/-- A redirection to a path comes to an end. -/
theorem exists_settles_redirecting : ∃ own,
    sampleLoader.Settles {} 0 (redirecting 0 (ascii "r:/a"))
      { outcome := .ok (some (.file (Path.ofText (ascii "/a")))), events := own } := by
  have hslash : [Ascii.slash] <+: ascii "/a" := ⟨ascii "a", rfl⟩
  have hgoal := (ends_iff_resolves (by decide)).mpr
    (.ruled (passes_sampleLoader 1 rfl) (.absolute hslash))
  have hverdict : redirecting 0 (ascii "r:/a") = .redirect (ascii "/a") := rfl
  rw [hverdict]
  exact ⟨_, settles_redirect hgoal⟩

/-- A redirection ends where its goal does, and a scheme that nobody knows is refused. -/
theorem resolve_sampleLoader :
    ascii "r:/a" ≠ [] ∧ ascii "s://b" ≠ [] ∧
    (∀ resolver ∈ sampleLoader.resolvers, ∃ own,
      sampleLoader.Settles {} 0 (resolver 0 (ascii "r:/a")) own) ∧
    (∃ r, sampleLoader.Ends {} 0 (ascii "r:/a") r ∧
      r.outcome = .ok (.file (Path.ofText (ascii "/a")))) ∧
    ∃ r, sampleLoader.Ends {} 0 (ascii "s://b") r ∧
      r.outcome = .error (.unsupportedLocation (ascii "s://b")) := by
  have hredirected : ascii "r:/a" ≠ [] := by decide
  have hscheme : ascii "s://b" ≠ [] := by decide
  have hleaving : sampleLoader.Settles {} 0 (leaving 0 (ascii "r:/a")) { outcome := .ok none } :=
    .pass
  obtain ⟨own, hsettles⟩ := exists_settles_redirecting
  have hall : ∀ resolver ∈ sampleLoader.resolvers, ∃ own,
      sampleLoader.Settles {} 0 (resolver 0 (ascii "r:/a")) own :=
    List.forall_mem_cons.mpr ⟨⟨_, hleaving⟩, List.forall_mem_singleton.mpr ⟨_, hsettles⟩⟩
  refine ⟨hredirected, hscheme, hall, ?_, ?_⟩
  · obtain ⟨hways, hunique, hends, -⟩ :=
      (resolve_in_order sampleLoader {} 0).2 _ hredirected
    obtain ⟨r, hr⟩ := hends hall
    have hdecided := (hways _).mpr (@Resolves.decided _ _ _ _ _ [leaving] [] _ _ _ (.ok _) rfl
      (.cons hleaving (.nil 1)) hsettles)
    exact ⟨r, hr, by rw [hunique r _ hr hdecided]⟩
  · obtain ⟨-, -, -, hrules⟩ := (resolve_in_order sampleLoader {} 0).2 _ hscheme
    obtain ⟨outcome, log, -, hends, hrefused⟩ := hrules _ (passes_sampleLoader 0 rfl)
    have hforeign : Foreign (ascii "s://b") := ⟨by decide, by decide, by decide, by decide⟩
    exact ⟨_, hends, (hrefused _).mpr (.inl ⟨rfl, .inr hforeign⟩)⟩

end Loader

end DoctypeProbe

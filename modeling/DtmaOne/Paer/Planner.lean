import DtmaOne.Library.Collections
import DtmaOne.Paer.Candidate

/-!
# The candidate planner

`CandidatePlanner.plan` scores the fresh and the cached candidates, merges them by key under
a quota of cached ones, regroups them by host, drops the cached candidates a fresh one
shadows, and sorts the rest by score.

The cached candidates have no influence on the fresh part of the plan: the fresh candidates
of `plan dns rvec` are those of `plan dns []`, in the same order and with the same scores.
The sort is stable, so it may be restricted to the fresh candidates; each group keeps its
fresh candidates, and the groups of hosts without fresh candidates come last.
-/

namespace Paer

open Collections

namespace CandidatePlanner

/-! ### Shadowed candidates -/

section Shadow

variable {S : Type}

/-- A cached candidate with the address and port of a fresh candidate of its group. -/
def shadowed (group : List (EndpointCandidate S)) (c : EndpointCandidate S) : Bool :=
  c.source = .recentlyValidatedCache &&
    group.any fun f => f.isFresh && f.ipAddress = c.ipAddress && f.port = c.port

/-- Drop the shadowed candidates of a group that has fresh ones. -/
def unshadow (group : List (EndpointCandidate S)) : List (EndpointCandidate S) :=
  if group.any EndpointCandidate.isFresh then group.filter fun c => !shadowed group c
  else group

/-- A fresh candidate is not shadowed. -/
theorem shadowed_of_isFresh (group : List (EndpointCandidate S)) {c : EndpointCandidate S}
    (hc : c.isFresh = true) :
  shadowed group c = false
  := by
  have hsource : c.source ≠ .recentlyValidatedCache := by
    intro h
    rw [EndpointCandidate.not_isFresh_of_source h] at hc
    cases hc
  simp [shadowed, hsource]

/-- Dropping the shadowed candidates of a group keeps its fresh ones. -/
theorem filter_isFresh_unshadow (group : List (EndpointCandidate S)) :
  (unshadow group).filter EndpointCandidate.isFresh = group.filter EndpointCandidate.isFresh
  := by
  rw [unshadow]
  split
  · rw [List.filter_filter]
    apply List.filter_congr
    intro c _
    cases hc : c.isFresh with
    | false => rfl
    | true => simp [shadowed_of_isFresh group hc]
  · rfl

/-- A group of fresh candidates has no shadowed ones. -/
theorem unshadow_of_isFresh (group : List (EndpointCandidate S))
    (hfresh : ∀ c ∈ group, c.isFresh = true) :
  unshadow group = group
  := by
  rw [unshadow]
  split
  · apply List.filter_eq_self.mpr
    intro c hc
    simp [shadowed_of_isFresh group (hfresh c hc)]
  · rfl

end Shadow

/-! ### Merging -/

section Merge

variable {S : Type} [LinearOrder S] [Zero S]

/-- The parameters of a plan besides the two lists of candidates: the platform's functions,
the clock, the context, the preferences, the weights and the limits. -/
structure Params (S : Type) [LinearOrder S] [Zero S] where
  lowercase : String → String
  math : DoubleMath S
  nowMs : ℤ
  currentContextId : String
  preferences : ContextPreferences := {}
  weights : ScoringWeights S
  limits : PaerLimits := {}

/-- The lower-cased host name of a candidate. -/
def Params.host (P : Params S) (c : EndpointCandidate S) : String :=
  P.lowercase c.hostname

/-- The key by which candidates are merged. -/
def Params.key (P : Params S) (c : EndpointCandidate S) : String :=
  P.host c ++ "|" ++ c.ipAddress ++ "|" ++ toString c.port ++ "|" ++ c.transport.name

/-- Sort by non-increasing score. -/
def byScore (l : List (EndpointCandidate S)) : List (EndpointCandidate S) :=
  sortedByDescending EndpointCandidate.decayedScore l

theorem mem_byScore {S : Type} [LinearOrder S] {l : List (EndpointCandidate S)}
    {c : EndpointCandidate S} :
  c ∈ byScore l ↔ c ∈ l
  := mem_sortedByDescending _

/-- Merge the fresh candidates into a map: the first with a key stays. -/
def mergeFresh (P : Params S) (l : List (EndpointCandidate S))
    (merged : LinkedMap String (EndpointCandidate S)) :
    LinkedMap String (EndpointCandidate S) :=
  l.foldl (fun merged c => merged.putIfAbsent (P.key c) c) merged

/-- Merge cached candidates with new keys, until `slots` of them have been added. -/
def mergeCache (P : Params S) :
    ℕ → List (EndpointCandidate S) → LinkedMap String (EndpointCandidate S) →
      LinkedMap String (EndpointCandidate S)
  | _, [], merged => merged
  | 0, _ :: _, merged => merged
  | slots + 1, c :: cs, merged =>
      if merged.containsKey (P.key c) then mergeCache P (slots + 1) cs merged
      else mergeCache P slots cs (merged ++ [(P.key c, c)])

/-- Regroup the merged candidates by host and drop the shadowed ones. -/
def regroup (P : Params S) (merged : List (EndpointCandidate S)) : List (EndpointCandidate S) :=
  (groupBy P.host merged).flatMap fun group => unshadow group.2

/-- The candidates of a merge are those of the map or of the list. -/
theorem mem_mergeFresh (P : Params S) (l : List (EndpointCandidate S))
    (merged : LinkedMap String (EndpointCandidate S)) {c : EndpointCandidate S}
    (hc : c ∈ (mergeFresh P l merged).values) :
  c ∈ merged.values ∨ c ∈ l
  := by
  induction l generalizing merged with
  | nil => apply Or.inl hc
  | cons a l ih =>
      rcases ih _ hc with hc' | hc'
      · rcases LinkedMap.mem_values_putIfAbsent hc' with hc'' | rfl
        · apply Or.inl hc''
        · apply Or.inr List.mem_cons_self
      · apply Or.inr (List.mem_cons_of_mem a hc')

/-- Merging cached candidates appends some of them to the values, at most as many as there are
slots. -/
theorem values_mergeCache (P : Params S) (slots : ℕ) (l : List (EndpointCandidate S))
    (merged : LinkedMap String (EndpointCandidate S)) :
  ∃ added, added.Sublist l ∧ added.length ≤ slots ∧
    (mergeCache P slots l merged).values = merged.values ++ added
  := by
  induction l generalizing slots merged with
  | nil =>
      use [], List.Sublist.slnil, Nat.zero_le _
      simp [mergeCache]
  | cons c cs ih =>
      cases slots with
      | zero =>
          use [], List.nil_sublist _, Nat.zero_le _
          simp [mergeCache]
      | succ slots =>
          rw [mergeCache]
          split
          · obtain ⟨added, hsub, hlen, hval⟩ := ih (slots + 1) merged
            use added, hsub.cons c, hlen
          · obtain ⟨added, hsub, hlen, hval⟩ := ih slots (merged ++ [(P.key c, c)])
            use c :: added, hsub.cons_cons c, Nat.succ_le_succ hlen
            rw [hval]
            simp [LinkedMap.values]

/-- Regrouping fresh candidates followed by cached ones gives, as its fresh part, the fresh
candidates regrouped. -/
theorem filter_isFresh_regroup (P : Params S) (l added : List (EndpointCandidate S))
    (hl : ∀ c ∈ l, c.isFresh = true) (hadded : ∀ c ∈ added, c.isFresh = false) :
  (regroup P (l ++ added)).filter EndpointCandidate.isFresh = regroup P l
  := by
  rw [regroup, List.filter_flatMap]
  apply flatMap_groupBy_append P.host
    (fun group => (unshadow group).filter EndpointCandidate.isFresh) unshadow
  · intro k
    have hgroup : ∀ c ∈ l.filter fun a => P.host a = k, c.isFresh = true :=
      fun c hc => hl c (List.mem_of_mem_filter hc)
    have hcached : (added.filter fun a => P.host a = k).filter EndpointCandidate.isFresh = [] := by
      apply List.filter_eq_nil_iff.mpr
      intro c hc
      simp [hadded c (List.mem_of_mem_filter hc)]
    rw [filter_isFresh_unshadow, unshadow_of_isFresh _ hgroup, List.filter_append,
      List.filter_append, hcached, List.append_nil]
    apply List.filter_eq_self.mpr hgroup
  · rfl

end Merge

/-! ### The plan -/

variable {S : Type} [LinearOrder S] [Zero S] [One S] [Neg S] [Add S] [Mul S] [Div S] [IntCast S]

/-- `ScoreCalculator.withDecayedScore` at the parameters of the plan. -/
def Params.scored (P : Params S) (c : EndpointCandidate S) : EndpointCandidate S :=
  ScoreCalculator.withDecayedScore P.math c P.nowMs P.currentContextId P.preferences P.weights

/-- The scored fresh candidates. -/
def fresh (P : Params S) (dnsCandidates : List (EndpointCandidate S)) :
    List (EndpointCandidate S) :=
  (dnsCandidates.filter EndpointCandidate.isFresh).map P.scored

/-- The scored cached candidates that are not cooling down, at most the quota for each
host. -/
def cache (P : Params S) (rvecCandidates : List (EndpointCandidate S)) :
    List (EndpointCandidate S) :=
  let usable :=
    ((rvecCandidates.filter fun c => c.source = .recentlyValidatedCache).filter
      fun c => !CooldownPolicy.isInCooldown c P.nowMs).filter
        fun c => c.consecutiveFailures < 2 || c.cooldownUntil.getD 0 ≤ P.nowMs
  (groupBy P.host usable).flatMap fun group =>
    (byScore (group.2.map P.scored)).take P.limits.maxCacheCandidatesPerHost

/-- `CandidatePlanner.plan` -/
def plan (P : Params S) (dnsCandidates rvecCandidates : List (EndpointCandidate S)) :
    List (EndpointCandidate S) :=
  let merged := mergeFresh P (byScore (fresh P dnsCandidates)) []
  let merged :=
    mergeCache P P.limits.maxCacheCandidatesPerHost (byScore (cache P rvecCandidates)) merged
  byScore ((regroup P merged.values).map P.scored)

theorem mem_fresh {P : Params S} {dnsCandidates : List (EndpointCandidate S)}
    {c : EndpointCandidate S} :
  c ∈ fresh P dnsCandidates ↔ ∃ d ∈ dnsCandidates, d.isFresh = true ∧ c = P.scored d
  := by
  simp only [fresh, List.mem_map, List.mem_filter, and_assoc, eq_comm (a := c)]

/-- The merged fresh candidates are scored fresh candidates. -/
theorem mem_merged {P : Params S} {dnsCandidates : List (EndpointCandidate S)}
    {c : EndpointCandidate S}
    (hc : c ∈ (mergeFresh P (byScore (fresh P dnsCandidates)) []).values) :
  ∃ d ∈ dnsCandidates, d.isFresh = true ∧ c = P.scored d
  := by
  rcases mem_mergeFresh P _ [] hc with hc' | hc'
  · simp [LinkedMap.values] at hc'
  · apply mem_fresh.mp (mem_byScore.mp hc')

/-- The cached candidates of the plan are scored cached candidates that are not cooling down. -/
theorem mem_cache {P : Params S} {rvecCandidates : List (EndpointCandidate S)}
    {c : EndpointCandidate S} (hc : c ∈ cache P rvecCandidates) :
  ∃ d ∈ rvecCandidates, d.source = .recentlyValidatedCache ∧
    CooldownPolicy.isInCooldown d P.nowMs = false ∧ c = P.scored d
  := by
  simp only [cache, groupBy, List.mem_flatMap, List.mem_map] at hc
  obtain ⟨group, ⟨k, -, rfl⟩, hc'⟩ := hc
  have hc'' := mem_byScore.mp (List.mem_of_mem_take hc')
  obtain ⟨d, hd, rfl⟩ := List.mem_map.mp hc''
  simp only [List.mem_filter, decide_eq_true_eq, Bool.not_eq_true'] at hd
  exact ⟨d, hd.1.1.1.1, hd.1.1.1.2, hd.1.1.2, rfl⟩

/-- The merged fresh candidates are fresh. -/
theorem isFresh_of_mem_merged (P : Params S) (dnsCandidates : List (EndpointCandidate S))
    {c : EndpointCandidate S}
    (hc : c ∈ (mergeFresh P (byScore (fresh P dnsCandidates)) []).values) :
  c.isFresh = true
  := by
  obtain ⟨d, -, hfresh, rfl⟩ := mem_merged hc
  apply hfresh

/-- The cached candidates of the plan are not fresh. -/
theorem not_isFresh_of_mem_cache (P : Params S) (rvecCandidates : List (EndpointCandidate S))
    {c : EndpointCandidate S} (hc : c ∈ cache P rvecCandidates) :
  c.isFresh = false
  := by
  obtain ⟨d, -, hsource, -, rfl⟩ := mem_cache hc
  apply EndpointCandidate.not_isFresh_of_source hsource

/-- The merged candidates of a plan are the merged fresh ones followed by cached ones, at most
as many as the quota. -/
theorem values_merged (P : Params S) (dnsCandidates rvecCandidates : List (EndpointCandidate S)) :
  ∃ added : List (EndpointCandidate S), (∀ c ∈ added, c ∈ cache P rvecCandidates) ∧
    added.length ≤ P.limits.maxCacheCandidatesPerHost ∧
    (mergeCache P P.limits.maxCacheCandidatesPerHost (byScore (cache P rvecCandidates))
      (mergeFresh P (byScore (fresh P dnsCandidates)) [])).values
      = (mergeFresh P (byScore (fresh P dnsCandidates)) []).values ++ added
  := by
  obtain ⟨added, hsub, hlen, hval⟩ := values_mergeCache P P.limits.maxCacheCandidatesPerHost
    (byScore (cache P rvecCandidates)) (mergeFresh P (byScore (fresh P dnsCandidates)) [])
  refine ⟨added, ?_, hlen, hval⟩
  intro c hc
  apply mem_byScore.mp (hsub.subset hc)

/-- The fresh part of a plan is the sorted fresh part of the regrouped candidates. -/
theorem filter_isFresh_byScore (P : Params S) (l : List (EndpointCandidate S)) :
  (byScore (l.map P.scored)).filter EndpointCandidate.isFresh
    = byScore ((l.filter EndpointCandidate.isFresh).map P.scored)
  := by
  rw [byScore, filter_sortedByDescending, List.filter_map]
  rfl

/-- A plan without cached candidates regroups the merged fresh ones. -/
theorem plan_nil (P : Params S) (dnsCandidates : List (EndpointCandidate S)) :
  plan P dnsCandidates []
    = byScore ((regroup P (mergeFresh P (byScore (fresh P dnsCandidates)) []).values).map
        P.scored)
  := by
  have hcache : byScore (cache P []) = [] := rfl
  simp only [plan, hcache, mergeCache]

/-- The cached candidates never displace, reorder or alter the fresh ones: the fresh part of
a plan is the plan without cached candidates. -/
theorem filter_isFresh_plan (P : Params S)
    (dnsCandidates rvecCandidates : List (EndpointCandidate S)) :
  (plan P dnsCandidates rvecCandidates).filter EndpointCandidate.isFresh
    = plan P dnsCandidates []
  := by
  obtain ⟨added, hadded, -, hval⟩ := values_merged P dnsCandidates rvecCandidates
  rw [plan_nil, plan, hval, filter_isFresh_byScore, filter_isFresh_regroup P _ added]
  · intro c hc
    apply isFresh_of_mem_merged P dnsCandidates hc
  · intro c hc
    apply not_isFresh_of_mem_cache P rvecCandidates (hadded c hc)

end CandidatePlanner

end Paer

import DtmaOne.Paer.PlanLaws

/-!
# Planning again

A plan of the candidates of a plan is the plan itself, with the same order of the candidates with
equal scores.

A plan sorts the candidates of the hosts one after the other, in the order in which the hosts occur
first among the merged candidates.  The merged candidates are sorted, so the order of the hosts is
the one in the sorted plan, and each host keeps its candidates in their order; hence the second plan
groups the same candidates in the same order.  No candidate exceeds the quota, no key occurs twice
and nothing is shadowed any more.
-/

namespace Paer

open Collections

namespace CandidatePlanner

/-! ### Groups -/

section Groups

variable {S : Type}

/-- The source of the candidate is the cache. -/
def isCached (c : EndpointCandidate S) : Bool :=
  c.source = .recentlyValidatedCache

theorem isCached_eq_not_isFresh (c : EndpointCandidate S) :
  isCached c = !c.isFresh
  := by
  rw [isCached, EndpointCandidate.isFresh]
  cases c.source <;> rfl

/-- What is shadowed depends on the fresh candidates of the group only. -/
theorem shadowed_congr {group group' : List (EndpointCandidate S)}
    (h : group.filter EndpointCandidate.isFresh = group'.filter EndpointCandidate.isFresh)
    (c : EndpointCandidate S) :
  shadowed group c = shadowed group' c
  := by
  have hany : ∀ l : List (EndpointCandidate S),
      (l.any fun f => f.isFresh && f.ipAddress = c.ipAddress && f.port = c.port)
        = (l.filter EndpointCandidate.isFresh).any fun f =>
            f.ipAddress = c.ipAddress && f.port = c.port := by
    intro l
    rw [List.any_filter]
    congr 1
    funext f
    rw [Bool.and_assoc]
  rw [shadowed, shadowed, hany, hany, h]

theorem any_isFresh_congr {group group' : List (EndpointCandidate S)}
    (h : group.filter EndpointCandidate.isFresh = group'.filter EndpointCandidate.isFresh) :
  group.any EndpointCandidate.isFresh = group'.any EndpointCandidate.isFresh
  := by
  have hany : ∀ l : List (EndpointCandidate S), l.any EndpointCandidate.isFresh
      = (l.filter EndpointCandidate.isFresh).any EndpointCandidate.isFresh := by
    intro l
    rw [List.any_filter]
    congr 1
    funext f
    rw [Bool.and_self]
  rw [hany, hany group', h]

/-- Nothing is shadowed in a group without shadowed candidates. -/
theorem unshadow_unshadow (group : List (EndpointCandidate S)) :
  unshadow (unshadow group) = unshadow group
  := by
  have hfresh := filter_isFresh_unshadow group
  rw [unshadow, any_isFresh_congr hfresh]
  split_ifs with hany
  · rw [List.filter_congr fun c _ => by rw [shadowed_congr hfresh c]]
    apply List.filter_eq_self.mpr
    intro c hc
    rw [unshadow, if_pos hany] at hc
    exact (List.mem_filter.mp hc).2
  · rfl

/-- A group of fresh candidates and cached ones loses only cached ones. -/
theorem unshadow_append {l : List (EndpointCandidate S)} (hl : ∀ c ∈ l, c.isFresh = true)
    (cached : List (EndpointCandidate S)) :
  ∃ kept, kept.Sublist cached ∧ unshadow (l ++ cached) = l ++ kept
  := by
  rw [unshadow]
  split_ifs
  · use cached.filter fun c => !shadowed (l ++ cached) c, List.filter_sublist
    rw [List.filter_append]
    congr 1
    apply List.filter_eq_self.mpr
    intro c hc
    rw [shadowed_of_isFresh _ (hl c hc)]
    rfl
  · exact ⟨cached, List.Sublist.refl _, rfl⟩

/-- A group without fresh candidates loses nothing. -/
theorem unshadow_of_isCached {group : List (EndpointCandidate S)}
    (h : ∀ c ∈ group, isCached c = true) :
  unshadow group = group
  := by
  rw [unshadow, if_neg]
  rw [List.any_eq_true]
  rintro ⟨c, hc, hfresh⟩
  have hcached := h c hc
  rw [isCached_eq_not_isFresh, hfresh] at hcached
  cases hcached

theorem filter_isCached_of_isFresh {l : List (EndpointCandidate S)}
    (hl : ∀ c ∈ l, c.isFresh = true) :
  l.filter isCached = []
  := by
  apply List.filter_eq_nil_iff.mpr
  intro c hc
  rw [isCached_eq_not_isFresh, hl c hc]
  decide

end Groups

/-! ### Merging again -/

section Merge

variable {S : Type} [LinearOrder S] [Zero S] {P : Params S}

/-- Merging fresh candidates appends some of them to the values. -/
theorem values_mergeFresh (l : List (EndpointCandidate S))
    (merged : LinkedMap String (EndpointCandidate S)) :
  ∃ added, added.Sublist l ∧ (mergeFresh P l merged).values = merged.values ++ added
  := by
  induction l generalizing merged with
  | nil => exact ⟨[], List.Sublist.slnil, (List.append_nil _).symm⟩
  | cons c l ih =>
      rw [mergeFresh_cons]
      obtain ⟨added, hsub, hval⟩ := ih (merged.putIfAbsent (P.key c) c)
      rw [hval, LinkedMap.putIfAbsent]
      split_ifs
      · exact ⟨added, hsub.cons c, rfl⟩
      · use c :: added, hsub.cons_cons c
        simp [LinkedMap.values]

theorem containsKey_eq_false_of_nodup {merged : LinkedMap String (EndpointCandidate S)}
    (h : Keyed P merged) {c : EndpointCandidate S} {l : List (EndpointCandidate S)}
    (hnodup : ((merged.values ++ c :: l).map P.key).Nodup) :
  merged.containsKey (P.key c) = false
  := by
  rw [h.containsKey_eq_false]
  rw [List.map_append, List.nodup_append] at hnodup
  intro hmem
  exact hnodup.2.2 _ hmem _ (List.mem_map_of_mem List.mem_cons_self) rfl

/-- Fresh candidates with new keys are all merged. -/
theorem values_mergeFresh_of_nodup {l : List (EndpointCandidate S)}
    {merged : LinkedMap String (EndpointCandidate S)} (h : Keyed P merged)
    (hnodup : ((merged.values ++ l).map P.key).Nodup) :
  (mergeFresh P l merged).values = merged.values ++ l
  := by
  induction l generalizing merged with
  | nil => exact (List.append_nil _).symm
  | cons c l ih =>
      have hnew := containsKey_eq_false_of_nodup h hnodup
      have hvalues : (merged ++ [(P.key c, c)]).values = merged.values ++ [c] := by
        simp [LinkedMap.values]
      rw [mergeFresh_cons, LinkedMap.putIfAbsent, if_neg (by simp [hnew]),
        ih (h.append hnew) (by rwa [hvalues, List.append_assoc]), hvalues, List.append_assoc]
      rfl

/-- Cached candidates with new keys are all merged, if there are slots for them. -/
theorem values_mergeCache_of_nodup {slots : ℕ} {l : List (EndpointCandidate S)}
    {merged : LinkedMap String (EndpointCandidate S)} (h : Keyed P merged)
    (hnodup : ((merged.values ++ l).map P.key).Nodup) (hslots : l.length ≤ slots) :
  (mergeCache P slots l merged).values = merged.values ++ l
  := by
  induction l generalizing slots merged with
  | nil =>
      rw [mergeCache]
      exact (List.append_nil _).symm
  | cons c l ih =>
      cases slots with
      | zero => cases hslots
      | succ slots =>
          have hnew := containsKey_eq_false_of_nodup h hnodup
          have hvalues : (merged ++ [(P.key c, c)]).values = merged.values ++ [c] := by
            simp [LinkedMap.values]
          rw [mergeCache, if_neg (by simp [hnew]), ih (h.append hnew)
            (by rwa [hvalues, List.append_assoc]) (Nat.le_of_succ_le_succ hslots), hvalues,
            List.append_assoc]
          rfl

/-- The candidates of a host after regrouping. -/
theorem filter_host_regroup (l : List (EndpointCandidate S)) (h : String) :
  (regroup P l).filter (fun c => P.host c = h) = unshadow (l.filter fun c => P.host c = h)
  := by
  rw [regroup, flatMap_groupBy P.host unshadow]
  apply filter_flatMap_key P.host (nodup_eraseDups _)
    (g := fun k => unshadow (l.filter fun c => P.host c = k))
  · intro k _ c hc
    exact of_decide_eq_true (List.mem_filter.mp ((unshadow_sublist _).subset hc)).2
  · intro hk
    have hnone : l.filter (fun c => P.host c = h) = [] := by
      apply List.filter_eq_nil_iff.mpr
      intro c hc heq
      apply hk
      rw [List.mem_eraseDups, ← of_decide_eq_true heq]
      apply List.mem_map_of_mem hc
    rw [hnone]
    rfl

end Merge

/-! ### The order of the hosts -/

section Order

variable {S : Type} [LinearOrder S] [Zero S] {P : Params S} {l added : List (EndpointCandidate S)}

/-- Regrouping depends on the order of the hosts and on the candidates that are kept of each. -/
theorem regroup_congr {l l' : List (EndpointCandidate S)}
    (hhosts : (l.map P.host).eraseDups = (l'.map P.host).eraseDups)
    (hgroups : ∀ h, unshadow (l.filter fun c => P.host c = h)
      = unshadow (l'.filter fun c => P.host c = h)) :
  regroup P l = regroup P l'
  := by
  rw [regroup, regroup, flatMap_groupBy P.host unshadow, flatMap_groupBy P.host unshadow, hhosts]
  apply List.flatMap_congr
  intro h _
  apply hgroups

/-- Regrouping candidates none of which is shadowed. -/
theorem regroup_eq_regrouped (h : ∀ k, unshadow (l.filter fun c => P.host c = k)
    = l.filter fun c => P.host c = k) :
  regroup P l = regrouped P.host l
  := by
  rw [regroup, flatMap_groupBy P.host unshadow, regrouped]
  apply List.flatMap_congr
  intro k _
  apply h

/-- The fresh part of the sorted candidates. -/
theorem filter_isFresh_sorted (hl : ∀ c ∈ l, c.isFresh = true)
    (hadded : ∀ c ∈ added, isCached c = true) :
  (byScore (regroup P (l ++ added))).filter EndpointCandidate.isFresh
    = byScore (regrouped P.host l)
  := by
  have hnot : ∀ c ∈ added, c.isFresh = false := by
    intro c hc
    have hcached := hadded c hc
    rw [isCached_eq_not_isFresh] at hcached
    simpa using hcached
  have hgroups : ∀ k, unshadow (l.filter fun c => P.host c = k)
      = l.filter fun c => P.host c = k := by
    intro k
    apply unshadow_of_isFresh
    intro c hc
    apply hl c (List.mem_of_mem_filter hc)
  rw [byScore, filter_sortedByDescending, filter_isFresh_regroup P l added hl hnot,
    regroup_eq_regrouped hgroups]
  rfl

/-- The cached candidates of a host in the sorted candidates. -/
theorem filter_isCached_sorted (hl : ∀ c ∈ l, c.isFresh = true)
    (hsorted : added.Pairwise fun a b => b.decayedScore ≤ a.decayedScore) (h : String) :
  ((byScore (regroup P (l ++ added))).filter isCached).filter (fun c => P.host c = h)
    = (unshadow ((l ++ added).filter fun c => P.host c = h)).filter isCached
  := by
  have hfresh : ∀ c ∈ l.filter fun c => P.host c = h, c.isFresh = true := by
    intro c hc
    apply hl c (List.mem_of_mem_filter hc)
  obtain ⟨kept, hkept, hunshadow⟩ := unshadow_append hfresh (added.filter fun c => P.host c = h)
  rw [List.filter_comm, byScore, filter_sortedByDescending, filter_host_regroup,
    filter_sortedByDescending, List.filter_append, hunshadow, List.filter_append,
    filter_isCached_of_isFresh hfresh, List.nil_append]
  apply sortedByDescending_eq_self
  apply List.Pairwise.sublist _ hsorted
  exact (List.filter_sublist.trans hkept).trans List.filter_sublist

/-- The host has no candidate in the list. -/
def Params.newHost (P : Params S) (l : List (EndpointCandidate S)) (h : String) : Bool :=
  !(l.map P.host).contains h

/-- The hosts without fresh candidates, in their order. -/
theorem filter_newHost_hosts (l l' : List (EndpointCandidate S)) :
  ((l ++ l').map P.host).eraseDups.filter (P.newHost l)
    = ((l'.filter fun c => P.newHost l (P.host c)).map P.host).eraseDups
  := by
  have hnone : (l.map P.host).filter (P.newHost l) = [] := by
    apply List.filter_eq_nil_iff.mpr
    intro h hh
    simp only [Params.newHost, List.contains_eq_mem, hh, decide_true, Bool.not_true,
      Bool.false_eq_true, not_false_eq_true]
  rw [filter_eraseDups, List.map_append, List.filter_append, hnone, List.nil_append,
    List.filter_map]
  rfl

/-- The hosts of the first list come first, and then the other ones of the second list. -/
theorem hosts_append (l l' : List (EndpointCandidate S)) :
  ((l ++ l').map P.host).eraseDups
    = (l.map P.host).eraseDups
      ++ ((l'.filter fun c => P.newHost l (P.host c)).map P.host).eraseDups
  := by
  have hnew : (l'.map P.host).removeAll (l.map P.host)
      = (l'.filter fun c => P.newHost l (P.host c)).map P.host := List.filter_map
  rw [List.map_append, List.eraseDups_append, hnew]

/-- The sorted candidates of the hosts without fresh candidates. -/
theorem filter_newHost_sorted (hadded : ∀ c ∈ added, isCached c = true) :
  ((byScore (regroup P (l ++ added))).filter isCached).filter (fun c => P.newHost l (P.host c))
    = byScore (regrouped P.host (added.filter fun c => P.newHost l (P.host c)))
  := by
  have hregroup : (regroup P (l ++ added)).filter (fun c => P.newHost l (P.host c))
      = regrouped P.host (added.filter fun c => P.newHost l (P.host c)) := by
    rw [regroup, flatMap_groupBy P.host unshadow, filter_flatMap_keys P.host (P.newHost l),
      filter_newHost_hosts, regrouped]
    · apply List.flatMap_congr
      intro h hh
      obtain ⟨c, hc, rfl⟩ := List.mem_map.mp (List.mem_eraseDups.mp hh)
      have hnew := (List.mem_filter.mp hc).2
      have hnone : l.filter (fun d => P.host d = P.host c) = [] := by
        apply List.filter_eq_nil_iff.mpr
        intro d hd heq
        have hmem := List.mem_map_of_mem (f := P.host) hd
        rw [of_decide_eq_true heq] at hmem
        simp [Params.newHost, hmem] at hnew
      rw [List.filter_append, hnone, List.nil_append, filter_filter_key P.host hnew]
      apply unshadow_of_isCached
      intro d hd
      apply hadded d (List.mem_of_mem_filter hd)
    · intro h _ c hc
      exact of_decide_eq_true (List.mem_filter.mp ((unshadow_sublist _).subset hc)).2
  have hcached : (regrouped P.host (added.filter fun c => P.newHost l (P.host c))).filter isCached
      = regrouped P.host (added.filter fun c => P.newHost l (P.host c)) := by
    apply List.filter_eq_self.mpr
    intro c hc
    apply hadded c (List.mem_of_mem_filter (mem_regrouped hc))
  rw [List.filter_comm, byScore, filter_sortedByDescending, hregroup, filter_sortedByDescending,
    hcached]
  rfl

variable (hl : ∀ c ∈ l, c.isFresh = true) (hadded : ∀ c ∈ added, isCached c = true)
  (hlsorted : l.Pairwise fun a b => b.decayedScore ≤ a.decayedScore)
  (haddedSorted : added.Pairwise fun a b => b.decayedScore ≤ a.decayedScore)

include hl hadded hlsorted haddedSorted

/-- The candidates that the second plan merges have the hosts of those the first plan has merged, in
the same order. -/
theorem hosts_sorted :
  (((byScore (regroup P (l ++ added))).filter EndpointCandidate.isFresh
      ++ byScore (regrouped P.host ((byScore (regroup P (l ++ added))).filter isCached))).map
        P.host).eraseDups
    = ((l ++ added).map P.host).eraseDups
  := by
  let cached := (byScore (regroup P (l ++ added))).filter isCached
  have hsorted : cached.Pairwise fun a b => b.decayedScore ≤ a.decayedScore := by
    apply List.Pairwise.sublist List.filter_sublist
    apply sortedByDescending_pairwise
  have hfresh : ((byScore (regrouped P.host l)).map P.host).eraseDups
      = (l.map P.host).eraseDups := keys_sorted_regrouped hlsorted
  have hnew : P.newHost (byScore (regrouped P.host l)) = P.newHost l := by
    funext h
    rw [Params.newHost, Params.newHost, List.contains_eq_mem, List.contains_eq_mem]
    simp only [← List.mem_eraseDups (l := List.map _ _), hfresh]
  have hcached : ((byScore (regrouped P.host cached)).filter fun c => P.newHost l (P.host c))
      = byScore (regrouped P.host (cached.filter fun c => P.newHost l (P.host c))) := by
    rw [byScore, filter_sortedByDescending, regrouped_filter]
    rfl
  have hkept : ((byScore (regrouped P.host (cached.filter fun c => P.newHost l (P.host c)))).map
      P.host).eraseDups = ((cached.filter fun c => P.newHost l (P.host c)).map P.host).eraseDups := by
    apply keys_sorted_regrouped (List.Pairwise.sublist List.filter_sublist hsorted)
  have hadd : ((byScore (regrouped P.host (added.filter fun c => P.newHost l (P.host c)))).map
      P.host).eraseDups = ((added.filter fun c => P.newHost l (P.host c)).map P.host).eraseDups := by
    apply keys_sorted_regrouped (List.Pairwise.sublist List.filter_sublist haddedSorted)
  rw [filter_isFresh_sorted hl hadded, hosts_append, hosts_append, hfresh, hnew, hcached, hkept,
    filter_newHost_sorted hadded, hadd]

/-- The second plan regroups its candidates as the first plan has done. -/
theorem regroup_sorted :
  regroup P ((byScore (regroup P (l ++ added))).filter EndpointCandidate.isFresh
      ++ byScore (regrouped P.host ((byScore (regroup P (l ++ added))).filter isCached)))
    = regroup P (l ++ added)
  := by
  have hsorted : ((byScore (regroup P (l ++ added))).filter isCached).Pairwise
      fun a b => b.decayedScore ≤ a.decayedScore := by
    apply List.Pairwise.sublist List.filter_sublist
    apply sortedByDescending_pairwise
  apply regroup_congr (hosts_sorted hl hadded hlsorted haddedSorted)
  intro h
  have hfresh : ∀ c ∈ l.filter fun c => P.host c = h, c.isFresh = true := by
    intro c hc
    apply hl c (List.mem_of_mem_filter hc)
  have hgroup : unshadow ((l ++ added).filter fun c => P.host c = h)
      = (l.filter fun c => P.host c = h)
        ++ (unshadow ((l ++ added).filter fun c => P.host c = h)).filter isCached := by
    obtain ⟨kept, hkept, hunshadow⟩ := unshadow_append hfresh (added.filter fun c => P.host c = h)
    have hkeptCached : kept.filter isCached = kept := by
      apply List.filter_eq_self.mpr
      intro c hc
      apply hadded c (List.mem_of_mem_filter (hkept.subset hc))
    rw [List.filter_append, hunshadow, List.filter_append, filter_isCached_of_isFresh hfresh,
      List.nil_append, hkeptCached]
  rw [List.filter_append, filter_isFresh_sorted hl hadded]
  have hfirst : (byScore (regrouped P.host l)).filter (fun c => P.host c = h)
      = l.filter fun c => P.host c = h := filter_sorted_regrouped hlsorted h
  have hsecond : (byScore (regrouped P.host ((byScore (regroup P (l ++ added))).filter
      isCached))).filter (fun c => P.host c = h)
      = (unshadow ((l ++ added).filter fun c => P.host c = h)).filter isCached := by
    rw [← filter_isCached_sorted hl haddedSorted h]
    apply filter_sorted_regrouped hsorted
  rw [hfirst, hsecond, ← hgroup, unshadow_unshadow]

end Order

/-! ### The second plan -/

variable {S : Type} [LinearOrder S] [Zero S] [One S] [Neg S] [Add S] [Mul S] [Div S] [IntCast S]
  {P : Params S} {dnsCandidates rvecCandidates : List (EndpointCandidate S)}

/-- The cached candidates the planner uses. -/
def Params.Usable (P : Params S) (c : EndpointCandidate S) : Prop :=
  isCached c = true ∧ CooldownPolicy.isInCooldown c P.nowMs = false ∧
    (c.consecutiveFailures < 2 ∨ c.cooldownUntil.getD 0 ≤ P.nowMs)

theorem usable_of_mem_cache {c : EndpointCandidate S} (hc : c ∈ cache P rvecCandidates) :
  P.Usable c
  := by
  simp only [cache, groupBy, List.mem_flatMap, List.mem_map] at hc
  obtain ⟨group, ⟨k, -, rfl⟩, hc'⟩ := hc
  obtain ⟨d, hd, rfl⟩ := List.mem_map.mp (mem_byScore.mp (List.mem_of_mem_take hc'))
  simp only [List.mem_filter, decide_eq_true_eq, Bool.not_eq_true', Bool.or_eq_true] at hd
  exact ⟨decide_eq_true hd.1.1.1.2, hd.1.1.2, hd.1.2⟩

/-- The merged candidates of a plan, fresh ones and then cached ones, both sorted. -/
theorem exists_parts (P : Params S) (dnsCandidates rvecCandidates : List (EndpointCandidate S)) :
  ∃ l added, merged P dnsCandidates rvecCandidates = l ++ added ∧
    (∀ c ∈ l, c.isFresh = true) ∧ (∀ c ∈ added, c ∈ cache P rvecCandidates) ∧
    l.Pairwise (fun a b => b.decayedScore ≤ a.decayedScore) ∧
    added.Pairwise fun a b => b.decayedScore ≤ a.decayedScore
  := by
  obtain ⟨l, hl, hlval⟩ := values_mergeFresh (P := P) (byScore (fresh P dnsCandidates)) []
  obtain ⟨added, hadded, -, hval⟩ := values_mergeCache P P.limits.maxCacheCandidatesPerHost
    (byScore (cache P rvecCandidates)) (mergeFresh P (byScore (fresh P dnsCandidates)) [])
  refine ⟨_, added, hval, ?_, ?_, ?_, ?_⟩
  · intro c hc
    apply isFresh_of_mem_merged P dnsCandidates hc
  · intro c hc
    apply mem_byScore.mp (hadded.subset hc)
  · rw [hlval]
    apply List.Pairwise.sublist hl (sortedByDescending_pairwise _ _)
  · apply List.Pairwise.sublist hadded (sortedByDescending_pairwise _ _)

/-- The candidates of a plan have their scores. -/
theorem scored_of_mem_plan {c : EndpointCandidate S}
    (hc : c ∈ plan P dnsCandidates rvecCandidates) :
  P.scored c = c
  := scored_of_mem_merged (mem_of_mem_regroup (mem_plan.mp hc))

/-- A plan sorts the candidates that regrouping keeps. -/
theorem plan_eq :
  plan P dnsCandidates rvecCandidates
    = byScore (regroup P (merged P dnsCandidates rvecCandidates))
  := by
  have hscored : (regroup P (merged P dnsCandidates rvecCandidates)).map P.scored
      = regroup P (merged P dnsCandidates rvecCandidates) := by
    rw [List.map_congr_left fun d hd => scored_of_mem_merged (mem_of_mem_regroup hd), List.map_id']
  rw [← hscored]
  rfl

/-- The cached candidates of a sorted list that can be used and do not exceed the quota are only
regrouped. -/
theorem cache_eq_regrouped {l : List (EndpointCandidate S)} (husable : ∀ c ∈ l, P.Usable c)
    (hscored : ∀ c ∈ l, P.scored c = c)
    (hsorted : l.Pairwise fun a b => b.decayedScore ≤ a.decayedScore)
    (hquota : l.length ≤ P.limits.maxCacheCandidatesPerHost) :
  cache P l = regrouped P.host l
  := by
  have hcached : (l.filter fun c => c.source = .recentlyValidatedCache) = l := by
    apply List.filter_eq_self.mpr
    intro c hc
    exact (husable c hc).1
  have hrested : (l.filter fun c => !CooldownPolicy.isInCooldown c P.nowMs) = l := by
    apply List.filter_eq_self.mpr
    intro c hc
    rw [(husable c hc).2.1]
    rfl
  have hfailures : (l.filter fun c =>
      c.consecutiveFailures < 2 || c.cooldownUntil.getD 0 ≤ P.nowMs) = l := by
    apply List.filter_eq_self.mpr
    intro c hc
    simpa using (husable c hc).2.2
  rw [cache, hcached, hrested, hfailures, flatMap_groupBy P.host fun group =>
    (byScore (group.map P.scored)).take P.limits.maxCacheCandidatesPerHost, regrouped]
  apply List.flatMap_congr
  intro h _
  have hgroup : (l.filter fun c => P.host c = h).map P.scored = l.filter fun c => P.host c = h := by
    rw [List.map_congr_left fun c hc => hscored c (List.mem_of_mem_filter hc), List.map_id']
  have hsame : byScore (l.filter fun c => P.host c = h) = l.filter fun c => P.host c = h := by
    apply sortedByDescending_eq_self
    apply List.Pairwise.sublist List.filter_sublist hsorted
  rw [hgroup, hsame]
  apply List.take_of_length_le
  apply le_trans (List.length_filter_le _ _) hquota

/-- The fresh candidates of a plan stay as they are. -/
theorem fresh_eq_self {l : List (EndpointCandidate S)} (hl : ∀ c ∈ l, c.isFresh = true)
    (hscored : ∀ c ∈ l, P.scored c = c) :
  fresh P l = l
  := by
  rw [fresh, List.filter_eq_self.mpr hl, List.map_congr_left hscored, List.map_id']

/-- All candidates of a list like a plan are merged. -/
theorem merged_eq {out : List (EndpointCandidate S)}
    (hsorted : out.Pairwise fun a b => b.decayedScore ≤ a.decayedScore)
    (hscored : ∀ c ∈ out, P.scored c = c) (hnodup : (out.map P.key).Nodup)
    (husable : ∀ c ∈ out, isCached c = true → P.Usable c)
    (hquota : (out.filter isCached).length ≤ P.limits.maxCacheCandidatesPerHost) :
  merged P (out.filter EndpointCandidate.isFresh) (out.filter isCached)
    = out.filter EndpointCandidate.isFresh ++ byScore (regrouped P.host (out.filter isCached))
  := by
  have hfresh : fresh P (out.filter EndpointCandidate.isFresh)
      = out.filter EndpointCandidate.isFresh := by
    apply fresh_eq_self
    · intro c hc
      exact (List.mem_filter.mp hc).2
    · intro c hc
      apply hscored c (List.mem_of_mem_filter hc)
  have hfreshSorted : byScore (out.filter EndpointCandidate.isFresh)
      = out.filter EndpointCandidate.isFresh := by
    apply sortedByDescending_eq_self
    apply List.Pairwise.sublist List.filter_sublist hsorted
  have hcache : cache P (out.filter isCached) = regrouped P.host (out.filter isCached) := by
    apply cache_eq_regrouped _ _ (List.Pairwise.sublist List.filter_sublist hsorted) hquota
    · intro c hc
      obtain ⟨hmem, hcached⟩ := List.mem_filter.mp hc
      apply husable c hmem hcached
    · intro c hc
      apply hscored c (List.mem_of_mem_filter hc)
  have hperm : (byScore (regrouped P.host (out.filter isCached))).Perm (out.filter isCached) :=
    (sortedByDescending_perm _ _).trans (regrouped_perm _)
  have hall : (out.filter EndpointCandidate.isFresh
      ++ byScore (regrouped P.host (out.filter isCached))).Perm out := by
    apply (hperm.append_left _).trans
    rw [List.filter_congr fun c _ => isCached_eq_not_isFresh c]
    apply List.filter_append_perm
  have hkeys := (hall.map P.key).nodup_iff.mpr hnodup
  have hempty : LinkedMap.values ([] : LinkedMap String (EndpointCandidate S)) = [] := rfl
  have hfirst : (mergeFresh P (out.filter EndpointCandidate.isFresh) []).values
      = out.filter EndpointCandidate.isFresh := by
    rw [values_mergeFresh_of_nodup keyed_nil, hempty, List.nil_append]
    rw [List.map_append] at hkeys
    rw [hempty, List.nil_append]
    exact (List.nodup_append.mp hkeys).1
  rw [merged, hfresh, hfreshSorted, hcache, values_mergeCache_of_nodup (keyed_mergeFresh keyed_nil),
    hfirst]
  · rw [hfirst]
    exact hkeys
  · rw [hperm.length_eq]
    exact hquota

/-- The cached candidates of a plan can be used again. -/
theorem usable_of_mem_plan {c : EndpointCandidate S}
    (hc : c ∈ plan P dnsCandidates rvecCandidates) (hcached : isCached c = true) :
  P.Usable c
  := by
  obtain ⟨d, -, hd, rfl⟩ | hc := mem_merged_cases (mem_of_mem_regroup (mem_plan.mp hc))
  · have hfresh : (P.scored d).isFresh = true := hd
    rw [isCached_eq_not_isFresh, hfresh] at hcached
    cases hcached
  · apply usable_of_mem_cache hc

theorem length_filter_isCached_plan_le :
  ((plan P dnsCandidates rvecCandidates).filter isCached).length
    ≤ P.limits.maxCacheCandidatesPerHost
  := length_filter_plan_le

/-- Planning the candidates of a plan again gives the plan. -/
theorem plan_plan (P : Params S) (dnsCandidates rvecCandidates : List (EndpointCandidate S)) :
  plan P ((plan P dnsCandidates rvecCandidates).filter EndpointCandidate.isFresh)
      ((plan P dnsCandidates rvecCandidates).filter isCached)
    = plan P dnsCandidates rvecCandidates
  := by
  obtain ⟨l, added, hmerged, hl, hadded, hlsorted, haddedSorted⟩ :=
    exists_parts P dnsCandidates rvecCandidates
  have haddedCached : ∀ c ∈ added, isCached c = true := by
    intro c hc
    exact (usable_of_mem_cache (hadded c hc)).1
  have hout : plan P dnsCandidates rvecCandidates = byScore (regroup P (l ++ added)) := by
    rw [plan_eq, hmerged]
  have hsorted : (plan P dnsCandidates rvecCandidates).Pairwise
      fun a b => b.decayedScore ≤ a.decayedScore := by
    rw [plan_eq]
    apply sortedByDescending_pairwise
  have hagain := merged_eq hsorted (fun c => scored_of_mem_plan) nodup_plan
    (fun c => usable_of_mem_plan) length_filter_isCached_plan_le
  rw [plan_eq, hagain, hout, regroup_sorted hl haddedCached hlsorted haddedSorted]

end CandidatePlanner

end Paer

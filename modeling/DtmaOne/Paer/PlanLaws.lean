import DtmaOne.Paer.Planner
import Mathlib.Data.List.Perm.Subperm

/-!
# The laws of a plan

What holds of every plan.  Each law is set up by one pass of the planner, the filters, the cut
for each host, the merge by key, the quota, the regrouping or the final sort, and is carried
through the passes after it: the merge keeps its keys unique, regrouping only drops candidates
and gathers the rest by host, and sorting only permutes them.
-/

namespace Paer

open Collections

namespace CandidatePlanner

theorem unshadow_sublist {S : Type} (group : List (EndpointCandidate S)) :
  (unshadow group).Sublist group
  := by
  rw [unshadow]
  split_ifs
  · apply List.filter_sublist
  · apply List.Sublist.refl

/-! ### Merging -/

section Merge

variable {S : Type} [LinearOrder S] [Zero S] (P : Params S)

/-- The candidates of a merge are under their keys, and no key occurs twice. -/
structure Keyed (merged : LinkedMap String (EndpointCandidate S)) : Prop where
  entries : ∀ entry ∈ merged, entry.1 = P.key entry.2
  nodup : (merged.values.map P.key).Nodup

variable {P}

theorem Keyed.containsKey_eq_false {merged : LinkedMap String (EndpointCandidate S)}
    (h : Keyed P merged) {k : String} :
  merged.containsKey k = false ↔ k ∉ merged.values.map P.key
  := by
  rw [LinkedMap.containsKey, List.any_eq_false, LinkedMap.values, List.map_map, List.mem_map]
  constructor
  · rintro hk ⟨entry, hentry, rfl⟩
    apply hk entry hentry
    rw [decide_eq_true_iff, h.entries entry hentry]
    rfl
  · intro hk entry hentry heq
    apply hk
    use entry, hentry
    rw [decide_eq_true_iff, h.entries entry hentry] at heq
    apply heq

theorem keyed_nil :
  Keyed P ([] : LinkedMap String (EndpointCandidate S))
  := ⟨by rintro entry ⟨⟩, List.nodup_nil⟩

/-- A candidate with a new key may be added. -/
theorem Keyed.append {merged : LinkedMap String (EndpointCandidate S)} (h : Keyed P merged)
    {c : EndpointCandidate S} (hnew : merged.containsKey (P.key c) = false) :
  Keyed P (merged ++ [(P.key c, c)])
  := by
  constructor
  · intro entry hentry
    rw [List.mem_append, List.mem_singleton] at hentry
    obtain hentry | rfl := hentry
    · apply h.entries entry hentry
    · rfl
  · have hvalues : (merged ++ [(P.key c, c)]).values = merged.values ++ [c] := by
      simp [LinkedMap.values]
    rw [hvalues, List.map_append, List.nodup_append]
    refine ⟨h.nodup, List.nodup_singleton _, ?_⟩
    intro i hi j hj
    obtain rfl := List.mem_singleton.mp hj
    rintro rfl
    apply h.containsKey_eq_false.mp hnew hi

theorem Keyed.putIfAbsent {merged : LinkedMap String (EndpointCandidate S)} (h : Keyed P merged)
    (c : EndpointCandidate S) :
  Keyed P (merged.putIfAbsent (P.key c) c)
  := by
  unfold LinkedMap.putIfAbsent
  split_ifs with hold
  · apply h
  · apply h.append (by simpa using hold)

theorem keyed_mergeFresh {l : List (EndpointCandidate S)}
    {merged : LinkedMap String (EndpointCandidate S)} (h : Keyed P merged) :
  Keyed P (mergeFresh P l merged)
  := by
  induction l generalizing merged with
  | nil => apply h
  | cons c l ih => apply ih (h.putIfAbsent c)

theorem keyed_mergeCache {slots : ℕ} {l : List (EndpointCandidate S)}
    {merged : LinkedMap String (EndpointCandidate S)} (h : Keyed P merged) :
  Keyed P (mergeCache P slots l merged)
  := by
  induction l generalizing slots merged with
  | nil =>
      rw [mergeCache]
      apply h
  | cons c l ih =>
      cases slots with
      | zero =>
          rw [mergeCache]
          apply h
      | succ slots =>
          rw [mergeCache]
          split_ifs with hold
          · apply ih h
          · apply ih (h.append (by simpa using hold))

theorem mergeFresh_cons (c : EndpointCandidate S) (l : List (EndpointCandidate S))
    (merged : LinkedMap String (EndpointCandidate S)) :
  mergeFresh P (c :: l) merged = mergeFresh P l (merged.putIfAbsent (P.key c) c)
  := rfl

/-- Merging keeps the candidates that are there, in front. -/
theorem prefix_values_mergeFresh (l : List (EndpointCandidate S))
    (merged : LinkedMap String (EndpointCandidate S)) :
  merged.values <+: (mergeFresh P l merged).values
  := by
  induction l generalizing merged with
  | nil => apply List.prefix_rfl
  | cons d l ih =>
      rw [mergeFresh_cons]
      apply (LinkedMap.prefix_values_putIfAbsent merged _ _).trans
      apply ih

/-- A key that is merged from a sorted list is represented by the best candidate with it. -/
theorem mergeFresh_represents {l : List (EndpointCandidate S)}
    (hl : l.Pairwise fun a b => b.decayedScore ≤ a.decayedScore)
    {merged : LinkedMap String (EndpointCandidate S)} (h : Keyed P merged)
    {c : EndpointCandidate S} (hc : c ∈ l) (hnew : merged.containsKey (P.key c) = false) :
  ∃ x ∈ (mergeFresh P l merged).values, x ∈ l ∧ P.key x = P.key c ∧
    ∀ d ∈ l, P.key d = P.key c → d.decayedScore ≤ x.decayedScore
  := by
  induction l generalizing merged with
  | nil => cases hc
  | cons a l ih =>
      rw [List.pairwise_cons] at hl
      by_cases hkey : P.key a = P.key c
      · have hput : merged.putIfAbsent (P.key a) a = merged ++ [(P.key a, a)] := by
          rw [← hkey] at hnew
          rw [LinkedMap.putIfAbsent, hnew]
          rfl
        refine ⟨a, ?_, List.mem_cons_self, hkey, ?_⟩
        · rw [mergeFresh_cons]
          apply (prefix_values_mergeFresh l _).subset
          rw [hput, LinkedMap.values, List.map_append]
          apply List.mem_append_right _ (List.mem_singleton_self a)
        · intro d hd _
          obtain rfl | hd := List.mem_cons.mp hd
          · apply le_rfl
          · apply hl.1 d hd
      · have hmem : c ∈ l := by
          obtain rfl | hmem := List.mem_cons.mp hc
          · exact absurd rfl hkey
          · apply hmem
        have hnew' : (merged.putIfAbsent (P.key a) a).containsKey (P.key c) = false := by
          unfold LinkedMap.putIfAbsent
          split_ifs
          · apply hnew
          · rw [LinkedMap.containsKey, List.any_append, Bool.or_eq_false_iff]
            use hnew
            simpa using hkey
        obtain ⟨x, hx, hxl, hxkey, hbest⟩ := ih hl.2 (h.putIfAbsent a) hmem hnew'
        refine ⟨x, hx, List.mem_cons_of_mem a hxl, hxkey, ?_⟩
        intro d hd hdkey
        obtain rfl | hd := List.mem_cons.mp hd
        · exact absurd hdkey hkey
        · apply hbest d hd hdkey

/-! ### Regrouping -/

/-- Regrouping keeps the candidates that their group keeps. -/
theorem mem_regroup {l : List (EndpointCandidate S)} {c : EndpointCandidate S} :
  c ∈ regroup P l ↔ c ∈ unshadow (l.filter fun a => P.host a = P.host c)
  := by
  rw [regroup, List.mem_flatMap]
  constructor
  · rintro ⟨group, hgroup, hc⟩
    have hmem := (unshadow_sublist _).subset hc
    rw [mem_groupBy _ hgroup, List.mem_filter, decide_eq_true_iff] at hmem
    rw [hmem.2, ← mem_groupBy _ hgroup]
    apply hc
  · intro hc
    have hmem := List.mem_of_mem_filter ((unshadow_sublist _).subset hc)
    exact ⟨_, mem_groupBy_of_mem P.host hmem, hc⟩

theorem mem_of_mem_regroup {l : List (EndpointCandidate S)} {c : EndpointCandidate S}
    (hc : c ∈ regroup P l) :
  c ∈ l
  := List.mem_of_mem_filter ((unshadow_sublist _).subset (mem_regroup.mp hc))

/-- Regrouping keeps the fresh candidates. -/
theorem mem_regroup_of_isFresh {l : List (EndpointCandidate S)} {c : EndpointCandidate S}
    (hc : c ∈ l) (hfresh : c.isFresh = true) :
  c ∈ regroup P l
  := by
  rw [mem_regroup, unshadow]
  have hmem : c ∈ l.filter fun a => P.host a = P.host c := by
    rw [List.mem_filter, decide_eq_true_iff]
    exact ⟨hc, rfl⟩
  split_ifs
  · rw [List.mem_filter]
    use hmem
    rw [shadowed_of_isFresh _ hfresh]
    rfl
  · apply hmem

/-- No cached candidate that is kept has the host, address and port of a fresh one. -/
theorem not_shadowed_of_mem_regroup {l : List (EndpointCandidate S)} {c f : EndpointCandidate S}
    (hc : c ∈ regroup P l) (hsource : c.source = .recentlyValidatedCache) (hf : f ∈ l)
    (hfresh : f.isFresh = true) :
  ¬ (P.host c = P.host f ∧ c.ipAddress = f.ipAddress ∧ c.port = f.port)
  := by
  rintro ⟨hhost, hip, hport⟩
  rw [mem_regroup, unshadow] at hc
  have hmem : f ∈ l.filter fun a => P.host a = P.host c := by
    rw [List.mem_filter, decide_eq_true_iff]
    exact ⟨hf, hhost.symm⟩
  rw [if_pos (List.any_eq_true.mpr ⟨f, hmem, hfresh⟩), List.mem_filter] at hc
  have hshadowed : shadowed (l.filter fun a => P.host a = P.host c) c = true := by
    rw [shadowed, Bool.and_eq_true, List.any_eq_true]
    refine ⟨by simpa using hsource, f, hmem, ?_⟩
    simp [hfresh, hip, hport]
  rw [hshadowed] at hc
  cases hc.2

/-- Regrouping keeps the keys unique. -/
theorem nodup_regroup {l : List (EndpointCandidate S)} (hl : (l.map P.key).Nodup) :
  ((regroup P l).map P.key).Nodup
  := by
  rw [List.Nodup, List.pairwise_map]
  apply pairwise_flatMap_groupBy P.host
  · intro k
    apply List.Pairwise.sublist ((unshadow_sublist _).trans List.filter_sublist)
    rw [List.Nodup, List.pairwise_map] at hl
    apply hl
  · intro k k' hne x hx y hy heq
    have hx' := (unshadow_sublist _).subset hx
    have hy' := (unshadow_sublist _).subset hy
    rw [List.mem_filter, decide_eq_true_iff] at hx' hy'
    obtain rfl := List.inj_on_of_nodup_map hl hx'.1 hy'.1 heq
    apply hne (hx'.2.symm.trans hy'.2)

end Merge

/-! ### The laws -/

variable {S : Type} [LinearOrder S] [Zero S] [One S] [Neg S] [Add S] [Mul S] [Div S] [IntCast S]

/-- The laws of a plan for the given candidates. -/
structure Lawful (P : Params S) (dnsCandidates rvecCandidates out : List (EndpointCandidate S)) :
    Prop where
  /-- A candidate of the plan is a fresh candidate of the one list or a cached candidate of the
  other one, with its score in place of `decayedScore`. -/
  origin : ∀ x ∈ out,
    (∃ d ∈ dnsCandidates, d.isFresh = true ∧ x = P.scored d) ∨
      ∃ d ∈ rvecCandidates, d.source = .recentlyValidatedCache ∧ x = P.scored d
  /-- The scores do not increase. -/
  sorted : out.Pairwise fun a b => b.decayedScore ≤ a.decayedScore
  /-- No two candidates have one endpoint. -/
  unique : out.Pairwise fun a b =>
    ¬ (P.host a = P.host b ∧ a.ipAddress = b.ipAddress ∧ a.port = b.port ∧
      a.transport = b.transport)
  /-- No cached candidate has the host, address and port of a fresh one. -/
  unshadowed : ∀ c ∈ out, c.source = .recentlyValidatedCache → ∀ f ∈ out, f.isFresh = true →
    ¬ (P.host c = P.host f ∧ c.ipAddress = f.ipAddress ∧ c.port = f.port)
  /-- The cached candidates keep within the quota. -/
  quota : (out.filter fun c => c.source = .recentlyValidatedCache).length
    ≤ P.limits.maxCacheCandidatesPerHost
  /-- No cached candidate is cooling down. -/
  rested : ∀ c ∈ out, c.source = .recentlyValidatedCache → ∀ t ∈ c.cooldownUntil, ¬ P.nowMs < t
  /-- The key of every fresh candidate is represented by the best fresh candidate with it. -/
  represented : ∀ d ∈ dnsCandidates, d.isFresh = true →
    ∃ best ∈ dnsCandidates, best.isFresh = true ∧ P.key best = P.key d ∧ P.scored best ∈ out ∧
      ∀ e ∈ dnsCandidates, e.isFresh = true → P.key e = P.key d →
        (P.scored e).decayedScore ≤ (P.scored best).decayedScore

/-- The merged candidates of a plan. -/
def merged (P : Params S) (dnsCandidates rvecCandidates : List (EndpointCandidate S)) :
    List (EndpointCandidate S) :=
  (mergeCache P P.limits.maxCacheCandidatesPerHost (byScore (cache P rvecCandidates))
    (mergeFresh P (byScore (fresh P dnsCandidates)) [])).values

variable {P : Params S} {dnsCandidates rvecCandidates : List (EndpointCandidate S)}

/-- The score does not depend on the score a candidate has. -/
@[simp]
theorem scored_scored (P : Params S) (c : EndpointCandidate S) :
  P.scored (P.scored c) = P.scored c
  := rfl

/-- Where the merged candidates come from. -/
theorem mem_merged_cases {c : EndpointCandidate S} (hc : c ∈ merged P dnsCandidates rvecCandidates) :
  (∃ d ∈ dnsCandidates, d.isFresh = true ∧ c = P.scored d) ∨
    c ∈ cache P rvecCandidates
  := by
  obtain ⟨added, hadded, -, hval⟩ := values_merged P dnsCandidates rvecCandidates
  rw [merged, hval, List.mem_append] at hc
  obtain hc | hc := hc
  · left
    apply mem_merged hc
  · right
    apply hadded c hc

theorem scored_of_mem_merged {c : EndpointCandidate S}
    (hc : c ∈ merged P dnsCandidates rvecCandidates) :
  P.scored c = c
  := by
  obtain ⟨d, -, -, rfl⟩ | hc := mem_merged_cases hc
  · rfl
  · obtain ⟨d, -, -, -, rfl⟩ := mem_cache hc
    rfl

/-- The plan has the candidates that regrouping keeps. -/
theorem plan_perm :
  (plan P dnsCandidates rvecCandidates).Perm (regroup P (merged P dnsCandidates rvecCandidates))
  := by
  rw [plan]
  apply (sortedByDescending_perm _ _).trans
  change ((regroup P (merged P dnsCandidates rvecCandidates)).map P.scored).Perm _
  rw [List.map_congr_left fun d hd => scored_of_mem_merged (mem_of_mem_regroup hd), List.map_id']

theorem mem_plan {c : EndpointCandidate S} :
  c ∈ plan P dnsCandidates rvecCandidates ↔
    c ∈ regroup P (merged P dnsCandidates rvecCandidates)
  := plan_perm.mem_iff

/-- Every candidate of a plan is one of the given candidates with its score. -/
theorem plan_origin {c : EndpointCandidate S} (hc : c ∈ plan P dnsCandidates rvecCandidates) :
  (∃ d ∈ dnsCandidates, d.isFresh = true ∧ c = P.scored d) ∨
    ∃ d ∈ rvecCandidates, d.source = .recentlyValidatedCache ∧
      CooldownPolicy.isInCooldown d P.nowMs = false ∧ c = P.scored d
  := by
  obtain hfresh | hcache := mem_merged_cases (mem_of_mem_regroup (mem_plan.mp hc))
  · left
    apply hfresh
  · right
    apply mem_cache hcache

theorem nodup_merged :
  ((merged P dnsCandidates rvecCandidates).map P.key).Nodup
  := (keyed_mergeCache (keyed_mergeFresh keyed_nil)).nodup

theorem nodup_plan :
  ((plan P dnsCandidates rvecCandidates).map P.key).Nodup
  := (plan_perm.map P.key).nodup_iff.mpr (nodup_regroup nodup_merged)

/-- The cached candidates of a plan are among those added to the merge. -/
theorem length_filter_plan_le :
  ((plan P dnsCandidates rvecCandidates).filter fun c => c.source = .recentlyValidatedCache).length
    ≤ P.limits.maxCacheCandidatesPerHost
  := by
  obtain ⟨added, -, hlen, hval⟩ := values_merged P dnsCandidates rvecCandidates
  apply le_trans _ hlen
  apply List.Subperm.length_le
  apply List.subperm_of_subset
  · apply List.filter_sublist.nodup
    apply List.Nodup.of_map _ nodup_plan
  · intro c hc
    rw [List.mem_filter, decide_eq_true_iff, mem_plan] at hc
    have hmem := mem_of_mem_regroup hc.1
    rw [merged, hval, List.mem_append] at hmem
    apply hmem.resolve_left
    intro hfresh
    have htrue := isFresh_of_mem_merged P dnsCandidates hfresh
    rw [EndpointCandidate.not_isFresh_of_source hc.2] at htrue
    cases htrue

/-- The key of every fresh candidate is represented in the plan by the best one with it. -/
theorem plan_represents {d : EndpointCandidate S} (hd : d ∈ dnsCandidates)
    (hfresh : d.isFresh = true) :
  ∃ best ∈ dnsCandidates, best.isFresh = true ∧ P.key best = P.key d ∧
    P.scored best ∈ plan P dnsCandidates rvecCandidates ∧
    ∀ e ∈ dnsCandidates, e.isFresh = true → P.key e = P.key d →
      (P.scored e).decayedScore ≤ (P.scored best).decayedScore
  := by
  have hscored : ∀ e ∈ dnsCandidates, e.isFresh = true →
      P.scored e ∈ byScore (fresh P dnsCandidates) := by
    intro e he hfresh
    rw [mem_byScore, mem_fresh]
    exact ⟨e, he, hfresh, rfl⟩
  obtain ⟨x, hx, -, hkey, hbest⟩ := mergeFresh_represents (sortedByDescending_pairwise _ _)
    (keyed_nil (P := P)) (hscored d hd hfresh) rfl
  obtain ⟨best, hmem, hbestFresh, rfl⟩ := mem_merged hx
  refine ⟨best, hmem, hbestFresh, hkey, ?_, ?_⟩
  · rw [mem_plan]
    apply mem_regroup_of_isFresh (c := P.scored best) _ hbestFresh
    obtain ⟨added, -, -, hval⟩ := values_merged P dnsCandidates rvecCandidates
    rw [merged, hval]
    apply List.mem_append_left _ hx
  · intro e he heFresh hekey
    apply hbest _ (hscored e he heFresh) hekey

/-- Every plan is lawful. -/
theorem lawful_plan (P : Params S) (dnsCandidates rvecCandidates : List (EndpointCandidate S)) :
  Lawful P dnsCandidates rvecCandidates (plan P dnsCandidates rvecCandidates)
  := by
  constructor
  · intro x hx
    obtain hfresh | ⟨d, hd, hsource, -, hx⟩ := plan_origin hx
    · left
      apply hfresh
    · right
      exact ⟨d, hd, hsource, hx⟩
  · apply sortedByDescending_pairwise
  · apply (List.pairwise_map.mp nodup_plan).imp
    rintro a b hkey ⟨hhost, hip, hport, htransport⟩
    apply hkey
    rw [Params.key, Params.key, hhost, hip, hport, htransport]
  · intro c hc hsource f hf hfresh
    apply not_shadowed_of_mem_regroup (mem_plan.mp hc) hsource
      (mem_of_mem_regroup (mem_plan.mp hf)) hfresh
  · apply length_filter_plan_le
  · intro c hc hsource t ht hlt
    obtain ⟨d, -, hfresh, rfl⟩ | ⟨d, -, -, hrested, rfl⟩ := plan_origin hc
    · have hnot : d.isFresh = false := EndpointCandidate.not_isFresh_of_source hsource
      rw [hfresh] at hnot
      cases hnot
    · have hcooldown : d.cooldownUntil = some t := ht
      rw [CooldownPolicy.isInCooldown, hcooldown, decide_eq_false_iff_not] at hrested
      apply hrested hlt
  · intro d hd hfresh
    apply plan_represents hd hfresh

end CandidatePlanner

end Paer

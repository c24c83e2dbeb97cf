import AsioCoroFrame.Core.Grouping
import AsioCoroFrame.Core.Text

/-!
# Routing

The handlers are registered by pattern and method in a map of maps. `start`
regroups them by method into a table that `find_resource` scans with an early
return, falling through to the default handler of the method. Both hash maps
are lists here, in the order in which they are iterated.
-/

namespace AsioCoroFrame.Http

variable {H : Type}

/-- `std::regex`, which is no part of the repository: the patterns that its constructor accepts,
and the submatches of `std::regex_match` on a whole text, when it matches. -/
structure Regex where
  valid : Bytes → Bool
  fullMatch : Bytes → Bytes → Option (List Bytes)

/-- `resource`: handlers by pattern and method. -/
structure Resource (H : Type) where
  map : List (Bytes × List (Bytes × H))
  pattern_nodup : (map.map Prod.fst).Nodup
  method_nodup : ∀ res ∈ map, (res.2.map Prod.fst).Nodup

/-- A registered handler: its method, its pattern and itself. -/
abbrev Route (H : Type) := Bytes × Bytes × H

/-- What is registered for one pattern. -/
def patternRoutes (res : Bytes × List (Bytes × H)) : List (Route H) :=
  res.2.map fun m => (m.1, res.1, m.2)

/-- Everything that is registered. -/
def Resource.routes (r : Resource H) : List (Route H) := r.map.flatMap patternRoutes

/-- `opt_resource`; a regular expression is represented by its pattern. -/
abbrev OptResource (H : Type) := List (Bytes × List (Bytes × H))

/-- The inner loop of `start`; `none` is a `std::regex_error`. -/
def startMethods (regex : Regex) (pattern : Bytes) :
    List (Bytes × H) → OptResource H → Option (OptResource H)
  | [], opt => some opt
  | m :: methods, opt =>
    if regex.valid pattern then
      startMethods regex pattern methods (addTo m.1 (pattern, m.2) opt)
    else none

/-- The outer loop. -/
def startPatterns (regex : Regex) :
    List (Bytes × List (Bytes × H)) → OptResource H → Option (OptResource H)
  | [], opt => some opt
  | res :: patterns, opt =>
    (startMethods regex res.1 res.2 opt).bind (startPatterns regex patterns)

/-- The table that `start` builds. -/
def start (regex : Regex) (r : Resource H) : Option (OptResource H) :=
  startPatterns regex r.map []

/-- The loop over the patterns of one method, left with the first match: the handler that is run
and the `path_match` it is given. -/
def findPath (regex : Regex) (path : Bytes) : List (Bytes × H) → Option (H × List Bytes)
  | [] => none
  | resPath :: paths =>
    match regex.fullMatch resPath.1 path with
    | some sm => some (resPath.2, sm)
    | none => findPath regex path paths

/-- The loop over the methods, which is left with the first match too. -/
def findOpt (regex : Regex) (method path : Bytes) : OptResource H → Option (H × List Bytes)
  | [] => none
  | res :: opt =>
    if method = res.1 then
      match findPath regex path res.2 with
      | some found => some found
      | none => findOpt regex method path opt
    else findOpt regex method path opt

/-- The handler that `find_resource` runs and the `path_match` of the request then; `none` runs
no handler. -/
def findResource (regex : Regex) (opt : OptResource H) (defaultResource : Bytes → Option H)
    (method path : Bytes) : Option (H × List Bytes) :=
  match findOpt regex method path opt with
  | some found => some found
  | none => (defaultResource method).map fun h => (h, [])

/-! ## The table -/

section
variable (regex : Regex)

/-- The patterns of the routes are regular expressions. -/
def AllValid (routes : List (Route H)) : Prop := ∀ t ∈ routes, regex.valid t.2.1 = true

instance (routes : List (Route H)) : Decidable (AllValid regex routes) :=
  inferInstanceAs (Decidable (∀ t ∈ routes, regex.valid t.2.1 = true))

theorem allValid_append {routes routes' : List (Route H)} :
    AllValid regex (routes ++ routes') ↔ AllValid regex routes ∧ AllValid regex routes' :=
  List.forall_mem_append

theorem startMethods_eq (pattern : Bytes) (methods : List (Bytes × H)) (opt : OptResource H) :
    startMethods regex pattern methods opt =
      if AllValid regex (patternRoutes (pattern, methods)) then
        some (addAll (patternRoutes (pattern, methods)) opt) else none := by
  induction methods generalizing opt with
  | nil => simp [startMethods, patternRoutes, AllValid, addAll]
  | cons m methods ih =>
    by_cases hvalid : regex.valid pattern = true
    · have hiff : AllValid regex (patternRoutes (pattern, m :: methods)) ↔
          AllValid regex (patternRoutes (pattern, methods)) := by
        simp [AllValid, patternRoutes, hvalid]
      rw [startMethods, if_pos hvalid, ih]
      simp only [hiff]
      rfl
    · have hnot : ¬ AllValid regex (patternRoutes (pattern, m :: methods)) := fun hall =>
        hvalid (hall (m.1, pattern, m.2) (by simp [patternRoutes]))
      rw [startMethods, if_neg hvalid, if_neg hnot]

theorem startPatterns_eq (map : List (Bytes × List (Bytes × H))) (opt : OptResource H) :
    startPatterns regex map opt =
      if AllValid regex (map.flatMap patternRoutes) then
        some (addAll (map.flatMap patternRoutes) opt) else none := by
  induction map generalizing opt with
  | nil => simp [startPatterns, AllValid, addAll]
  | cons res map ih =>
    rw [startPatterns, startMethods_eq, List.flatMap_cons]
    by_cases hres : AllValid regex (patternRoutes res)
    · simp only [hres, if_true, Option.bind_some, ih, allValid_append, true_and]
      simp only [addAll, List.foldl_append]
    · simp only [hres, if_false, Option.bind_none, allValid_append, false_and]

/-- Every route is entered into the table, unless a pattern is no regular expression. -/
theorem start_eq (r : Resource H) :
    start regex r = if AllValid regex r.routes then some (addAll r.routes []) else none :=
  startPatterns_eq regex r.map []

variable {regex}

/-- The table holds the routes. -/
theorem start_entries {r : Resource H} {opt : OptResource H} (h : start regex r = some opt) :
    (entries opt).Perm r.routes := by
  rw [start_eq] at h
  split at h
  · obtain rfl := Option.some.inj h
    simpa [entries] using entries_addAll r.routes []
  · exact absurd h (Option.some_ne_none _).symm

/-- Whether there is a table does not depend on the order of the routes. -/
theorem start_perm {r r' : Resource H} {opt : OptResource H} (h : start regex r = some opt)
    (hperm : r'.routes.Perm r.routes) : ∃ opt', start regex r' = some opt' := by
  rw [start_eq] at h ⊢
  split at h
  · rename_i hall
    exact ⟨_, if_pos fun t ht => hall t (hperm.mem_iff.mp ht)⟩
  · exact absurd h (Option.some_ne_none _).symm

/-- The table has one group for each method. -/
theorem start_groups {r : Resource H} {opt : OptResource H} (h : start regex r = some opt) :
    (opt.map Prod.fst).Nodup ∧
      ∀ method, method ∈ opt.map Prod.fst ↔ ∃ t ∈ r.routes, t.1 = method := by
  rw [start_eq] at h
  split at h
  · obtain rfl := Option.some.inj h
    obtain ⟨hnodup, hmem⟩ := keys_addAll r.routes [] List.nodup_nil
    exact ⟨hnodup, fun method => (hmem method).trans (by simp)⟩
  · exact absurd h (Option.some_ne_none _).symm

end

/-- Method and pattern determine a route. -/
theorem Resource.keys_nodup (r : Resource H) : (r.routes.map fun t => (t.1, t.2.1)).Nodup := by
  rw [routes, List.map_flatMap, List.nodup_flatMap]
  constructor
  · intro res hres
    have hkeys : ((patternRoutes res).map fun t => (t.1, t.2.1)) =
        (res.2.map Prod.fst).map fun method => (method, res.1) := by
      simp [patternRoutes]
    rw [hkeys]
    exact (r.method_nodup res hres).map fun _ _ h => congrArg Prod.fst h
  · refine (List.pairwise_map.mp r.pattern_nodup).imp fun {res res'} hne => ?_
    intro key hkey hkey'
    simp only [patternRoutes, List.map_map, List.mem_map, Function.comp_apply] at hkey hkey'
    obtain ⟨m, _, rfl⟩ := hkey
    obtain ⟨m', _, heq⟩ := hkey'
    exact hne (congrArg Prod.snd heq).symm

/-! ## The search -/

/-- A route that answers a request. -/
def Answers (regex : Regex) (method path : Bytes) (t : Route H) : Prop :=
  t.1 = method ∧ (regex.fullMatch t.2.1 path).isSome

section
variable {regex : Regex} {method path : Bytes}

theorem findPath_eq_some {paths : List (Bytes × H)} {found : H × List Bytes}
    (h : findPath regex path paths = some found) :
    ∃ p ∈ paths, p.2 = found.1 ∧ regex.fullMatch p.1 path = some found.2 := by
  induction paths with
  | nil => exact absurd h (by simp [findPath])
  | cons p paths ih =>
    rw [findPath] at h
    split at h
    · rename_i sm hsm
      obtain rfl := Option.some.inj h
      exact ⟨p, List.mem_cons_self, rfl, hsm⟩
    · obtain ⟨q, hq, hfound⟩ := ih h
      exact ⟨q, List.mem_cons_of_mem p hq, hfound⟩

theorem findPath_eq_none {paths : List (Bytes × H)} :
    findPath regex path paths = none ↔ ∀ p ∈ paths, regex.fullMatch p.1 path = none := by
  induction paths with
  | nil => simp [findPath]
  | cons p paths ih =>
    rw [findPath, List.forall_mem_cons]
    cases hsm : regex.fullMatch p.1 path with
    | some sm => simp
    | none => simpa using ih

/-- A handler that is found is registered for the method, with a pattern that matches. -/
theorem findOpt_eq_some {opt : OptResource H} {found : H × List Bytes}
    (h : findOpt regex method path opt = some found) :
    ∃ pattern, (method, pattern, found.1) ∈ entries opt ∧
      regex.fullMatch pattern path = some found.2 := by
  induction opt with
  | nil => exact absurd h (by simp [findOpt])
  | cons res opt ih =>
    have hlater (h : findOpt regex method path opt = some found) :
        ∃ pattern, (method, pattern, found.1) ∈ entries (res :: opt) ∧
          regex.fullMatch pattern path = some found.2 := by
      obtain ⟨pattern, hmem, hmatch⟩ := ih h
      exact ⟨pattern, List.mem_append_right _ hmem, hmatch⟩
    rw [findOpt] at h
    split at h
    · rename_i hmethod
      split at h
      · rename_i f hf
        obtain rfl := Option.some.inj h
        obtain ⟨p, hp, hhandler, hmatch⟩ := findPath_eq_some hf
        exact ⟨p.1, mem_entries.mpr ⟨res, List.mem_cons_self, hmethod.symm, hhandler ▸ hp⟩, hmatch⟩
      · exact hlater h
    · exact hlater h

/-- The search comes to the end when no pattern of the method matches. -/
theorem findOpt_eq_none {opt : OptResource H} :
    findOpt regex method path opt = none ↔ ∀ t ∈ entries opt, ¬ Answers regex method path t := by
  induction opt with
  | nil => simp [findOpt, entries]
  | cons res opt ih =>
    have hres : (∀ t ∈ res.2.map fun v => (res.1, v), ¬ Answers regex method path t) ↔
        (method = res.1 → findPath regex path res.2 = none) := by
      simp only [List.forall_mem_map, Answers, findPath_eq_none, not_and, Bool.not_eq_true,
        Option.isSome_eq_false_iff, Option.isNone_iff_eq_none, eq_comm (a := method)]
      exact ⟨fun h hm p hp => h p hp hm, fun h p hp hm => h hm p hp⟩
    rw [entries_cons, List.forall_mem_append, hres, ← ih, findOpt]
    by_cases hmethod : method = res.1
    · cases hpath : findPath regex path res.2 with
      | some found => simp [hmethod]
      | none => simp [hmethod]
    · simp [hmethod]

/-- The search through the table of `start` finds a route that answers, if there is one. -/
theorem findResource_answers {r : Resource H} {opt : OptResource H} (h : start regex r = some opt)
    (defaultResource : Bytes → Option H) (hany : ∃ t ∈ r.routes, Answers regex method path t) :
    ∃ t ∈ r.routes, t.1 = method ∧ ∃ sm, regex.fullMatch t.2.1 path = some sm ∧
      findResource regex opt defaultResource method path = some (t.2.2, sm) := by
  have hentries := start_entries h
  cases hfind : findOpt regex method path opt with
  | none =>
    obtain ⟨t, ht, hanswers⟩ := hany
    exact absurd hanswers (findOpt_eq_none.mp hfind t (hentries.mem_iff.mpr ht))
  | some found =>
    obtain ⟨pattern, hmem, hmatch⟩ := findOpt_eq_some hfind
    exact ⟨(method, pattern, found.1), hentries.mem_iff.mp hmem, rfl, found.2, hmatch,
      by rw [findResource, hfind]⟩

/-- The only route that answers is taken. -/
theorem findResource_unique {r : Resource H} {opt : OptResource H} (h : start regex r = some opt)
    (defaultResource : Bytes → Option H) {t : Route H} (ht : t ∈ r.routes)
    (hanswers : Answers regex method path t)
    (hunique : ∀ u, u ∈ r.routes ∧ Answers regex method path u → u = t) :
    findResource regex opt defaultResource method path =
      (regex.fullMatch t.2.1 path).map fun sm => (t.2.2, sm) := by
  obtain ⟨u, hu, hmethod, sm, hsm, hfind⟩ :=
    findResource_answers h defaultResource ⟨t, ht, hanswers⟩
  obtain rfl := hunique u ⟨hu, hmethod, by rw [hsm]; rfl⟩
  rw [hfind, hsm, Option.map_some]

end

/-! ## Routing -/

/-- The table is the registered map, regrouped: there is no table exactly when a pattern is no
regular expression; otherwise it has one group for each method, and every registered triple
exactly once. A request runs one handler, registered for its method with a pattern that matches
its path, when there is such a handler, and else the default handler of the method, if there is
one. When only one registered triple answers, the choice does not depend on the order in which
the maps are iterated. -/
theorem routing_faithful (regex : Regex) (r : Resource H) :
    (start regex r = none ↔ ∃ t ∈ r.routes, regex.valid t.2.1 = false) ∧
    ∀ opt, start regex r = some opt →
      ((opt.map Prod.fst).Nodup ∧
        (∀ method, method ∈ opt.map Prod.fst ↔ ∃ t ∈ r.routes, t.1 = method) ∧
        (entries opt).Perm r.routes ∧ ((entries opt).map fun t => (t.1, t.2.1)).Nodup) ∧
      ∀ (defaultResource : Bytes → Option H) (method path : Bytes),
        ((∃ t ∈ r.routes, Answers regex method path t) →
          ∃ t ∈ r.routes, t.1 = method ∧ ∃ sm, regex.fullMatch t.2.1 path = some sm ∧
            findResource regex opt defaultResource method path = some (t.2.2, sm)) ∧
        ((∀ t ∈ r.routes, ¬ Answers regex method path t) →
          findResource regex opt defaultResource method path =
            (defaultResource method).map fun h => (h, [])) ∧
        ((∃! t, t ∈ r.routes ∧ Answers regex method path t) →
          ∀ r' : Resource H, r'.routes.Perm r.routes →
            (start regex r').map (fun opt' => findResource regex opt' defaultResource method path) =
              some (findResource regex opt defaultResource method path)) := by
  refine ⟨?_, fun opt h => ?_⟩
  · rw [start_eq, ite_eq_right_iff]
    simp only [reduceCtorEq, imp_false, AllValid, not_forall, Bool.not_eq_true, exists_prop]
  have hentries := start_entries h
  refine ⟨⟨?_, ?_, hentries, ?_⟩, fun defaultResource method path => ⟨?_, ?_, ?_⟩⟩
  · exact (start_groups h).1
  · exact (start_groups h).2
  · exact (hentries.map _).nodup_iff.mpr r.keys_nodup
  · exact findResource_answers h defaultResource
  · intro hnone
    rw [findResource, findOpt_eq_none.mpr fun t ht => hnone t (hentries.mem_iff.mp ht)]
  · rintro ⟨t, ⟨ht, hanswers⟩, hunique⟩ r' hperm
    obtain ⟨opt', h'⟩ := start_perm h hperm
    have hunique' : ∀ u, u ∈ r'.routes ∧ Answers regex method path u → u = t :=
      fun u hu => hunique u ⟨hperm.mem_iff.mp hu.1, hu.2⟩
    rw [h', Option.map_some, findResource_unique h defaultResource ht hanswers hunique,
      findResource_unique h' defaultResource (hperm.mem_iff.mpr ht) hanswers hunique']

end AsioCoroFrame.Http

import Mathlib.Data.List.Dedup
import Mathlib.Data.List.Induction
import Mathlib.Data.Set.Function
import SelectionCheck.Proofs.Service.Concurrent

/-!
# Which results are remembered

A service remembers the results of the queries checked last. What it holds after any row of queries
can be told from the row alone: the queries, each of them once and the latest first, as many as the
store has room for (`after_eq`). A query that is checked again comes to the front, and what stood in
front of it moves back by one place; so the place of a query is the number of other queries checked
since, and it is remembered if and only if there is room for that many.

Digests enter through one assumption: the queries of the row have different ones.
-/

namespace SelectionCheck

variable {α : Type} [DecidableEq α]

/-! ## The order of last use -/

/-- The items of a row, each once, those that came last first. -/
def recent (earlier : List α) : List α :=
  earlier.dedup.reverse

theorem mem_recent {a : α} {earlier : List α} : a ∈ recent earlier ↔ a ∈ earlier := by
  rw [recent, List.mem_reverse, List.mem_dedup]

theorem nodup_recent (earlier : List α) : (recent earlier).Nodup :=
  List.nodup_reverse.2 (List.nodup_dedup earlier)

theorem dedup_append_singleton (earlier : List α) (a : α) :
    (earlier ++ [a]).dedup = earlier.dedup.filter (· ≠ a) ++ [a] := by
  induction earlier with
  | nil => rfl
  | cons b earlier ih =>
      rw [List.cons_append]
      by_cases hmem : b ∈ earlier
      · rw [List.dedup_cons_of_mem (List.mem_append_left _ hmem), List.dedup_cons_of_mem hmem, ih]
      · rw [List.dedup_cons_of_notMem hmem]
        by_cases hb : b = a
        · rw [List.dedup_cons_of_mem (by simp [hb]), ih, List.filter_cons_of_neg (by simp [hb])]
        · rw [List.dedup_cons_of_notMem (by simp [hmem, hb]), ih,
            List.filter_cons_of_pos (by simp [hb]), List.cons_append]

/-- What comes now stands in front of all else. -/
theorem recent_append_singleton (earlier : List α) (a : α) :
    recent (earlier ++ [a]) = a :: (recent earlier).filter (· ≠ a) := by
  rw [recent, dedup_append_singleton, List.reverse_append, ← List.filter_reverse]
  rfl

/-- The place of an item is the number of different ones that came since. -/
theorem recent_append_cons (before : List α) {since : List α} {a : α} (ha : a ∉ since) :
    ∃ older, recent (before ++ a :: since) = recent since ++ a :: older := by
  obtain ⟨older, holder⟩ := List.suffix_union_right before (a :: since).dedup
  refine ⟨older.reverse, ?_⟩
  rw [recent, List.dedup_append, ← holder, List.dedup_cons_of_notMem ha, List.reverse_append,
    List.reverse_cons, List.append_assoc]
  rfl

/-- An item is among the first `n` exactly if it came, and fewer than `n` others came since it came
last. -/
theorem mem_take_recent_iff {earlier : List α} {a : α} {n : Nat} :
    a ∈ (recent earlier).take n ↔
      ∃ before since, earlier = before ++ a :: since ∧ a ∉ since ∧ since.dedup.length < n := by
  -- where an item came last fixes its place, so one decomposition serves both directions
  have hplace {before since : List α} (hsince : a ∉ since) :
      a ∈ (recent (before ++ a :: since)).take n ↔ since.dedup.length < n := by
    obtain ⟨older, holder⟩ := recent_append_cons before hsince
    have hlength : (recent since).length = since.dedup.length := List.length_reverse
    rw [holder, List.take_append, hlength, List.mem_append]
    constructor
    · rintro (h | h)
      · exact absurd (mem_recent.1 (List.mem_of_mem_take h)) hsince
      · by_contra hle
        rw [Nat.sub_eq_zero_of_le (Nat.not_lt.1 hle), List.take_zero] at h
        cases h
    · intro hlt
      obtain ⟨m, hm⟩ := Nat.exists_eq_succ_of_ne_zero (Nat.sub_ne_zero_of_lt hlt)
      rw [hm]
      exact .inr List.mem_cons_self
  constructor
  · intro h
    obtain ⟨since, before, hreverse, hsince⟩ :=
      List.eq_append_cons_of_mem (List.mem_reverse.2 (mem_recent.1 (List.mem_of_mem_take h)))
    have hearlier : earlier = before.reverse ++ a :: since.reverse := by
      rw [← List.reverse_reverse earlier, hreverse]
      simp
    have hlast : a ∉ since.reverse := fun hmem => hsince (List.mem_reverse.1 hmem)
    rw [hearlier] at h
    exact ⟨before.reverse, since.reverse, hearlier, hlast, (hplace hlast).1 h⟩
  · rintro ⟨before, since, rfl, hsince, hlt⟩
    exact (hplace hsince).2 hlt

/-- Taking an item to the front changes nothing behind the place where it stood, so the first ones
can be told from the first ones before. -/
theorem take_cons_filter {l : List α} (hl : l.Nodup) (a : α) (n : Nat) :
    (a :: (l.take n).filter (· ≠ a)).take n = (a :: l.filter (· ≠ a)).take n := by
  cases n with
  | zero => rfl
  | succ n =>
      rw [List.take_succ_cons, List.take_succ_cons]
      congr 1
      induction l generalizing n with
      | nil => simp
      | cons b l ih =>
          obtain ⟨hb, hl⟩ := List.nodup_cons.1 hl
          rw [List.take_succ_cons]
          by_cases hba : b = a
          · subst hba
            have hkeep : ∀ {k : List α}, k.Sublist l → k.filter (· ≠ b) = k := by
              intro k hk
              refine List.filter_eq_self.2 fun x hx => ?_
              simpa using fun hxb : x = b => hb (hxb ▸ hk.subset hx)
            rw [List.filter_cons_of_neg (by simp), List.filter_cons_of_neg (by simp),
              hkeep (List.take_sublist _ _), hkeep (List.Sublist.refl _), List.take_take,
              Nat.min_self]
          · rw [List.filter_cons_of_pos (by simpa using hba),
              List.filter_cons_of_pos (by simpa using hba)]
            cases n with
            | zero => rfl
            | succ n => rw [List.take_succ_cons, List.take_succ_cons, ih hl]

/-! ## What is stored -/

namespace Service

variable {service : Service} {kept earlier : List Text} {query : Text} {n : Nat}

def entryOf (service : Service) (query : Text) : UInt64 × Remembered :=
  (service.digest query, ⟨query, service.schema.check query⟩)

/-- The service with a store for `n` results that holds those of the given queries. -/
def holding (service : Service) (n : Nat) (kept : List Text) : Service :=
  { service with cache := ⟨n, kept.map service.entryOf⟩ }

@[simp]
theorem digest_holding : (service.holding n kept).digest = service.digest := rfl

theorem remembers_holding : (service.holding n kept).remembers = decide (0 < n) := rfl

/-- A query is told from those whose results are held by its digest. -/
theorem digest_eq_iff (hdigest : Set.InjOn service.digest {q | q ∈ query :: kept}) {q : Text}
    (hq : q ∈ kept) : service.digest q = service.digest query ↔ q = query :=
  hdigest.eq_iff (List.mem_cons_of_mem query hq) List.mem_cons_self

theorem find?_holding (hdigest : Set.InjOn service.digest {q | q ∈ query :: kept}) :
    (service.holding n kept).cache.find? (service.digest query) =
      if query ∈ kept then some ⟨query, service.schema.check query⟩ else none := by
  simp only [holding, Cache.find?]
  induction kept with
  | nil => rfl
  | cons q kept ih =>
      rw [List.map_cons]
      by_cases hq : q = query
      · rw [List.find?_cons_of_pos (by simp [entryOf, hq]), if_pos (by simp [hq]), hq]
        rfl
      · have hkept : ∀ x ∈ query :: kept, x ∈ query :: q :: kept := by
          simp only [List.mem_cons]
          tauto
        have hother : ¬ (service.entryOf q).1 = service.digest query :=
          mt (digest_eq_iff hdigest List.mem_cons_self).1 hq
        rw [List.find?_cons_of_neg (by rwa [decide_eq_true_iff]), ih (hdigest.mono hkept)]
        simp [Ne.symm hq]

theorem without_holding (hdigest : Set.InjOn service.digest {q | q ∈ query :: kept}) :
    Cache.without (service.digest query) (kept.map service.entryOf) =
      (kept.filter (· ≠ query)).map service.entryOf := by
  rw [Cache.without, List.filter_map]
  congr 1
  refine List.filter_congr fun q hq => ?_
  simp [entryOf, digest_eq_iff hdigest hq]

theorem remembered?_holding (hdigest : Set.InjOn service.digest {q | q ∈ query :: kept}) :
    (service.holding n kept).remembered? query =
      if query ∈ kept then some (service.schema.check query) else none := by
  rw [remembered?, digest_holding, find?_holding hdigest]
  by_cases hquery : query ∈ kept
  · rw [if_pos hquery, if_pos hquery, Option.bind_some, Remembered.findingsFor?, if_pos rfl]
  · rw [if_neg hquery, if_neg hquery, Option.bind_none]

/-- One check. The result is remembered if it is held; afterwards it is the first one held, and what
there is no room for any more is dropped. -/
theorem check_holding (hdigest : Set.InjOn service.digest {q | q ∈ query :: kept})
    (hroom : kept.length ≤ n) :
    (service.holding n kept).check query =
      (service.schema.check query, decide (query ∈ kept),
        service.holding n ((query :: kept.filter (· ≠ query)).take n)) := by
  rw [check, remembers_holding]
  by_cases hn : 0 < n
  · rw [if_pos (decide_eq_true hn), remembered?_holding hdigest]
    have hfind := find?_holding (n := n) hdigest
    by_cases hquery : query ∈ kept
    · rw [if_pos hquery] at hfind ⊢
      have hshorter : (kept.filter (· ≠ query)).length < kept.length :=
        List.length_filter_lt_length_iff_exists.2 ⟨query, hquery, by simp⟩
      have hfits : (query :: kept.filter (· ≠ query)).length ≤ n := by
        rw [List.length_cons]
        omega
      simp only [hquery, decide_true, Prod.mk.injEq, true_and, List.take_of_length_le hfits]
      rw [touch, digest_holding, Cache.touch, hfind]
      simp only [holding, without_holding hdigest, List.map_cons]
      rfl
    · rw [if_neg hquery] at hfind ⊢
      have htouch : (service.holding n kept).touch query = service.holding n kept := by
        rw [touch, digest_holding, Cache.touch, hfind]
        rfl
      simp only [hquery, decide_false, Prod.mk.injEq, true_and, htouch]
      refine ⟨rfl, ?_⟩
      simp only [remember, holding, Cache.add, without_holding hdigest, List.map_take,
        List.map_cons]
      rfl
  · have hnone : kept = [] := List.length_eq_zero_iff.1 (by omega)
    rw [if_neg (mt of_decide_eq_true hn)]
    simp [hnone, holding, Nat.eq_zero_of_not_pos hn]

/-! ## Rows of queries -/

def after (service : Service) (earlier : List Text) : Service :=
  earlier.foldl (fun service query => (service.check query).2.2) service

theorem after_append_singleton (service : Service) (earlier : List Text) (query : Text) :
    service.after (earlier ++ [query]) = ((service.after earlier).check query).2.2 := by
  rw [after, List.foldl_append]
  rfl

theorem length_take_recent_le (earlier : List Text) (n : Nat) :
    ((recent earlier).take n).length ≤ n := by
  rw [List.length_take]
  exact Nat.min_le_left _ _

/-- After a row of queries the service holds the results of the last `n` different ones. -/
theorem after_eq (hcache : service.cache = .empty n)
    (hdigest : Set.InjOn service.digest {q | q ∈ earlier}) :
    service.after earlier = service.holding n ((recent earlier).take n) := by
  induction earlier using List.reverseRecOn with
  | nil =>
      rw [after, List.foldl_nil, holding, recent, List.dedup_nil, List.reverse_nil,
        List.take_nil, List.map_nil, ← Cache.empty, ← hcache]
  | append_singleton earlier query ih =>
      have hkept : ∀ q ∈ query :: (recent earlier).take n, q ∈ earlier ++ [query] := by
        intro q hq
        rcases List.mem_cons.1 hq with rfl | hq
        · simp
        · exact List.mem_append_left _ (mem_recent.1 (List.mem_of_mem_take hq))
      rw [after_append_singleton, ih (hdigest.mono fun q hq => List.mem_append_left _ hq),
        check_holding (hdigest.mono hkept) (length_take_recent_le earlier n),
        take_cons_filter (nodup_recent earlier), recent_append_singleton]

/-- After a row of queries with different digests, the result of a query is remembered if and only
if the query was checked before, and since it was checked last fewer other queries were checked than
there is room for. -/
theorem check_remembered_iff (hcache : service.cache = .empty n)
    (hdigest : Set.InjOn service.digest {q | q ∈ query :: earlier}) :
    ((service.after earlier).check query).2.1 = true ↔
      ∃ before since, earlier = before ++ query :: since ∧ query ∉ since ∧
        since.dedup.length < n := by
  have hkept : ∀ q ∈ query :: (recent earlier).take n, q ∈ query :: earlier := by
    intro q hq
    rcases List.mem_cons.1 hq with rfl | hq
    · exact List.mem_cons_self
    · exact List.mem_cons_of_mem _ (mem_recent.1 (List.mem_of_mem_take hq))
  rw [after_eq hcache (hdigest.mono fun q hq => List.mem_cons_of_mem _ hq),
    check_holding (hdigest.mono hkept) (length_take_recent_le earlier n), decide_eq_true_iff,
    mem_take_recent_iff]

/-- Two queries in turn, the first of them again, and a third one that is no document. -/
def rotatedQueries : List Text :=
  [leafQuery, typeNameQuery, leafQuery, "\x7b"]

/-- In a store for two results the third query takes the place of the second, not of the first,
which was used again. -/
theorem check_remembered_rotatedQueries :
    ∃ service, create collidingService.schema 2 = .ok service ∧ service.cache = .empty 2 ∧
      Set.InjOn service.digest {q | q ∈ rotatedQueries} ∧
      ((service.after rotatedQueries).check leafQuery).2.1 = true ∧
      ((service.after rotatedQueries).check typeNameQuery).2.1 = false := by
  have hcreate : create collidingService.schema 2 =
      .ok ⟨collidingService.schema, Digest.ofText, Multipart.pairs, .empty 2⟩ := rfl
  have hdigests : ∀ q ∈ rotatedQueries, ∀ q' ∈ rotatedQueries,
      Digest.ofText q = Digest.ofText q' → q = q' := by
    decide +kernel
  have hinj : Set.InjOn Digest.ofText {q | q ∈ rotatedQueries} :=
    fun q hq q' hq' => hdigests q hq q' hq'
  have hmem : ∀ query ∈ rotatedQueries, ∀ q ∈ query :: rotatedQueries, q ∈ rotatedQueries :=
    fun query hquery => List.forall_mem_cons.2 ⟨hquery, fun _ => id⟩
  refine ⟨_, hcreate, rfl, hinj, ?_, ?_⟩
  · refine (check_remembered_iff rfl (hinj.mono (hmem leafQuery (by decide)))).2 ?_
    exact ⟨[leafQuery, typeNameQuery], ["\x7b"], rfl, by decide, by decide⟩
  · rw [← Bool.not_eq_true, check_remembered_iff rfl (hinj.mono (hmem typeNameQuery (by decide))),
      ← mem_take_recent_iff]
    decide

end Service

end SelectionCheck

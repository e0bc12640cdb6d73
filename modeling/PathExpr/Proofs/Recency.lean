import Mathlib.Data.List.Induction
import Mathlib.Data.List.Nodup
import PathExpr.Proofs.Coherence

/-!
# What the cache keeps

A request may use a path, by compiling it while the cache is in use, or clear the cache; all others leave
the cache as it is (`Session.event?`).  Which of these a request does depends on the dialect in use, on
whether the cache is, and on whether a change is accepted, and on nothing else.

From the events alone it is plain what the cache keeps: of the paths used since the last clearing, the
most recent ones, as many as fit (`Workspace.keeps_most_recent`).  The invariant is
`Session.KeepsRecent`, and one request keeps it because what a request does to the cache is said by its
event (`Session.Records`).  That a hit does not drop an entry rests on the invariant itself, by which no
more paths are kept than fit.
-/

namespace PathExpr

/-! ### Lists without repetition -/

section Distinct

variable {α : Type} [BEq α] [LawfulBEq α]

/-- Repetitions may be taken out before or after a selection. -/
theorem eraseDups_filter (keep : α → Bool) (l : List α) :
    (l.filter keep).eraseDups = l.eraseDups.filter keep := by
  match l with
  | [] => rfl
  | a :: rest =>
      have ih := eraseDups_filter keep (rest.filter fun b => !b == a)
      rw [List.eraseDups_cons, List.filter_cons, List.filter_cons, ← ih]
      split
      · rw [List.eraseDups_cons, List.filter_filter, List.filter_filter]
        simp only [Bool.and_comm]
      · next hdrop =>
          rw [List.filter_filter]
          congr 1
          refine List.filter_congr fun b _ => ?_
          by_cases hb : b = a
          · simp [hb, hdrop]
          · simp [hb]
termination_by l.length
decreasing_by exact Nat.lt_succ_of_le (List.length_filter_le _ _)

/-- Taking out repetitions leaves none. -/
theorem nodup_eraseDups (l : List α) : l.eraseDups.Nodup := by
  match l with
  | [] => exact List.nodup_nil
  | a :: rest =>
      rw [List.eraseDups_cons]
      refine List.nodup_cons.mpr ⟨?_, nodup_eraseDups _⟩
      simp [List.mem_eraseDups]
termination_by l.length
decreasing_by exact Nat.lt_succ_of_le (List.length_filter_le _ _)

/-- Where one item at most is taken out, one item more leaves enough. -/
theorem take_filter_take {l : List α} (h : l.Nodup) (a : α) (n : Nat) :
    ((l.take (n + 1)).filter (· != a)).take n = (l.filter (· != a)).take n := by
  induction l generalizing n with
  | nil => rfl
  | cons b rest ih =>
      obtain ⟨hfresh, hrest⟩ := List.nodup_cons.mp h
      rw [List.take_succ_cons, List.filter_cons, List.filter_cons]
      by_cases hb : b = a
      · subst hb
        have hkeep : ∀ l : List α, b ∉ l → l.filter (· != b) = l := by
          intro l hl
          refine List.filter_eq_self.mpr fun c hc => ?_
          simpa using ne_of_mem_of_not_mem hc hl
        simp only [bne_self_eq_false, Bool.false_eq_true, if_false]
        rw [hkeep _ fun hmem => hfresh (List.mem_of_mem_take hmem), hkeep _ hfresh, List.take_take,
          Nat.min_self]
      · simp only [bne_iff_ne, ne_eq, hb, not_false_eq_true, if_true]
        cases n with
        | zero => rfl
        | succ n => rw [List.take_succ_cons, List.take_succ_cons, ih hrest]

end Distinct

/-! ### Events -/

/-- **What is done to the cache.** -/
inductive CacheEvent where
  /-- A path is compiled by the cache. -/
  | use (path : String)
  /-- Every entry is dropped. -/
  | clear
  deriving DecidableEq

namespace CacheEvent

/-- The path that is used. -/
def path? : CacheEvent → Option String
  | .use path => some path
  | .clear => none

/-- **The paths used since the last clearing**, the most recent one first. -/
def recent (events : List CacheEvent) : List String :=
  (events.reverse.takeWhile (·.path?.isSome)).filterMap path?

@[simp] theorem recent_nil : recent [] = [] := rfl

@[simp] theorem recent_concat_use (events : List CacheEvent) (path : String) :
    recent (events ++ [.use path]) = path :: recent events := by
  simp [recent, path?]

@[simp] theorem recent_concat_clear (events : List CacheEvent) :
    recent (events ++ [.clear]) = [] := by
  simp [recent, path?]

end CacheEvent

namespace Session

/-- **The path that a request compiles**: always that of a request to compile, and that of a read or a
write by text unless the text is a run of plain names. -/
def compiles? (session : Session) : Request → Option String
  | .compile path | .isValid path => some path
  | .get (.text path) _ | .get? (.text path) _ | .set (.text path) _ _ | .set? (.text path) _ _ =>
      if session.dialect.isSimplePath path.toList then none else some path
  | _ => none

/-- **Does a request clear the cache?** To leave a simple dialect where none is in use is the one accepted
change that does not. -/
def clears (session : Session) : Request → Bool
  | .clearCache => true
  | .setCaching caching => !caching
  | .change change =>
      (session.change change).isOk && (change != .simple none || session.dialect.simple)
  | _ => false

/-- A path is used if the cache is in use and the path compiles. -/
def use? (session : Session) (path : String) : Option CacheEvent :=
  if session.caching && (Path.tokenize session.dialect path).isOk then some (.use path) else none

/-- **What a request does to the cache**, if anything. -/
def event? (session : Session) (request : Request) : Option CacheEvent :=
  if session.clears request then some .clear else (session.compiles? request).bind session.use?

end Session

/-- **What requests in sequence do to the cache.** -/
def Workspace.events (functions : Resolve.Functions) : Workspace → List Request → List CacheEvent
  | _, [] => []
  | workspace, request :: rest =>
      (workspace.session.event? request).toList ++
        events functions (workspace.perform functions request).2 rest

/-- One request more is one event more at most. -/
theorem Workspace.events_concat (functions : Resolve.Functions) (workspace : Workspace)
    (history : List Request) (request : Request) :
    workspace.events functions (history ++ [request]) =
      workspace.events functions history ++
        ((workspace.run functions history).2.session.event? request).toList := by
  induction history generalizing workspace with
  | nil => simp [events, run]
  | cons earlier rest ih => simp [events, run, ih]

/-! ### What an event does -/

namespace Cache

/-- The paths that are kept, the most recently used one first. -/
def paths (cache : Cache) : List String := cache.entries.map (·.1)

/-- **The paths that are kept after an event.** -/
def pathsAfter (cache : Cache) : Option CacheEvent → List String
  | none => cache.paths
  | some .clear => []
  | some (.use path) => (path :: cache.paths.filter (· != path)).take cache.capacity

theorem paths_without (cache : Cache) (path : String) :
    (cache.without path).map (·.1) = cache.paths.filter (· != path) := by
  rw [without, paths, List.filter_map]
  rfl

/-- **A store** puts its path in front, and keeps as many as fit. -/
theorem paths_put (cache : Cache) (path : String) (set : TokenSet) :
    (cache.put path set).paths = cache.pathsAfter (some (.use path)) := by
  rw [pathsAfter, ← paths_without, paths, put, List.map_take, List.map_cons]

/-- **A look-up that finds something** puts its path in front, and what was kept still fits. -/
theorem paths_get? {cache next : Cache} {path : String} {set : TokenSet}
    (hfits : cache.size ≤ cache.capacity) (h : cache.get? path = (some set, next)) :
    next.capacity = cache.capacity ∧ next.paths = cache.pathsAfter (some (.use path)) := by
  obtain ⟨hmem, -⟩ := mem_of_get? h
  have hfewer : (cache.paths.filter (· != path)).length < cache.paths.length := by
    refine List.length_filter_lt_length_iff_exists.mpr ⟨path, List.mem_map_of_mem hmem, ?_⟩
    simp
  have hlength : cache.paths.length = cache.size := List.length_map _
  unfold get? at h
  split at h
  · cases h
    refine ⟨rfl, ?_⟩
    rw [pathsAfter, List.take_of_length_le (by simp only [List.length_cons]; omega), ← paths_without]
    rfl
  · cases h

end Cache

namespace Session

/-- **What an operation does to the cache** is what its event says; and the cache goes out of use only
when it is cleared. -/
structure Records (session next : Session) (event : Option CacheEvent) : Prop where
  capacity : next.cache.capacity = session.cache.capacity
  paths : next.cache.paths = session.cache.pathsAfter event
  off : next.caching = false → event = some .clear ∨ (event = none ∧ session.caching = false)

variable {session next : Session}

/-- An operation that leaves the cache alone. -/
theorem records_of_eq (hcache : next.cache = session.cache) (hcaching : next.caching = session.caching) :
    session.Records next none where
  capacity := by rw [hcache]
  paths := by rw [hcache]; rfl
  off h := .inr ⟨rfl, hcaching ▸ h⟩

/-- An operation that clears the cache. -/
theorem records_of_clear (hcache : next.cache = session.cache.clear) :
    session.Records next (some .clear) where
  capacity := by rw [hcache]; rfl
  paths := by rw [hcache]; rfl
  off _ := .inl rfl

/-- **To compile a path is to use it**, if the cache is in use and the path compiles. -/
theorem records_compile (hcoherent : session.Coherent)
    (hfits : session.cache.size ≤ session.cache.capacity) (path : String) :
    session.Records (session.compile path).2 (session.use? path) := by
  unfold compile use?
  cases hcaching : session.caching with
  | false => exact records_of_eq rfl rfl
  | true =>
      rw [if_pos rfl, Bool.true_and]
      rcases hget : session.cache.get? path with ⟨_ | set, cache⟩
      · cases htokens : Path.tokenize session.dialect path with
        | error fault => exact records_of_eq rfl rfl
        | ok set => exact ⟨rfl, Cache.paths_put _ path set, fun hoff => nomatch hoff⟩
      · -- What is found compiles.
        have htokens := hcoherent (path, set) (Cache.mem_of_get? hget).1
        obtain ⟨hcapacity, hpaths⟩ := Cache.paths_get? hfits hget
        rw [htokens]
        exact ⟨hcapacity, hpaths, fun hoff => nomatch hoff⟩

/-- **To read or write by a text** uses it, if it is no run of plain names. -/
theorem records_text (hcoherent : session.Coherent)
    (hfits : session.cache.size ≤ session.cache.capacity) {path : String}
    (hplain : session.dialect.isSimplePath path.toList = true → next = session)
    (hcompiled : session.dialect.isSimplePath path.toList = false → next = (session.compile path).2) :
    session.Records next
      ((if session.dialect.isSimplePath path.toList then none else some path).bind session.use?) := by
  cases hsimple : session.dialect.isSimplePath path.toList with
  | true =>
      rw [hplain hsimple]
      exact records_of_eq rfl rfl
  | false =>
      rw [hcompiled hsimple]
      exact records_compile hcoherent hfits path

/-- **To read uses the path** that is read by. -/
theorem records_get (hcoherent : session.Coherent)
    (hfits : session.cache.size ≤ session.cache.capacity) (functions : Resolve.Functions)
    (route : Route) (arguments : List Value) (document : Value) :
    session.Records (session.get functions route arguments document).2
      (session.event? (.get route arguments)) := by
  cases route with
  | compiled set => exact records_of_eq rfl rfl
  | text path =>
      refine records_text hcoherent hfits (fun hsimple => ?_) fun hsimple => ?_
      · rw [get, if_pos hsimple]
      · rw [get_text hsimple]

/-- **To write uses the path** that is written by. -/
theorem records_set (hcoherent : session.Coherent)
    (hfits : session.cache.size ≤ session.cache.capacity) (functions : Resolve.Functions)
    (route : Route) (value : Value) (arguments : List Value) (document : Value) :
    session.Records (session.set functions route value arguments document).2
      (session.event? (.set route value arguments)) := by
  cases route with
  | compiled set => exact records_of_eq rfl rfl
  | text path =>
      refine records_text hcoherent hfits (fun hsimple => ?_) fun hsimple => ?_
      · rw [set, if_pos hsimple]
      · rw [set_text hsimple]

/-- **An accepted change clears the cache**, unless it leaves a simple dialect where none is in use. -/
theorem records_change {change : Change} (h : session.change change = .ok next) :
    session.Records next (session.event? (.change change)) := by
  have hevent : session.event? (.change change) =
      if change != .simple none || session.dialect.simple then some .clear else none := by
    simp only [event?, clears, compiles?, h, Except.isOk, Except.toBool, Bool.true_and, Option.bind_none]
  rw [hevent]
  by_cases hchange : change = .simple none
  · subst hchange
    rw [change_simple_none] at h
    cases hsimple : session.dialect.simple with
    | true =>
        rw [if_pos hsimple] at h
        cases h
        exact records_of_clear rfl
    | false =>
        rw [if_neg (ne_true_of_eq_false hsimple)] at h
        cases h
        exact records_of_eq rfl rfl
  · obtain ⟨dialect, saved, rfl⟩ := exists_useDialect_of_change hchange h
    rw [bne_iff_ne.mpr hchange, Bool.true_or, if_pos rfl]
    exact records_of_clear rfl

end Session

/-- **What a request does to the cache is its event.** -/
theorem Workspace.records_perform {workspace : Workspace} (hcoherent : workspace.session.Coherent)
    (hfits : workspace.session.cache.size ≤ workspace.session.cache.capacity)
    (functions : Resolve.Functions) (request : Request) :
    workspace.session.Records (workspace.perform functions request).2.session
      (workspace.session.event? request) := by
  cases request with
  | compile path => exact Session.records_compile hcoherent hfits path
  | isValid path => exact Session.records_compile hcoherent hfits path
  | get route arguments => exact Session.records_get hcoherent hfits functions route arguments _
  | get? route arguments =>
      have hevent : workspace.session.event? (.get? route arguments) =
          workspace.session.event? (.get route arguments) := by cases route <;> rfl
      rw [hevent]
      exact Session.records_get hcoherent hfits functions route arguments _
  | set route value arguments =>
      exact Session.records_set hcoherent hfits functions route value arguments _
  | set? route value arguments =>
      have hevent : workspace.session.event? (.set? route value arguments) =
          workspace.session.event? (.set route value arguments) := by cases route <;> rfl
      rw [hevent]
      exact Session.records_set hcoherent hfits functions route value arguments _
  | setCaching caching =>
      cases caching with
      | true => exact ⟨rfl, rfl, fun hoff => nomatch hoff⟩
      | false => exact Session.records_of_clear rfl
  | clearCache => exact Session.records_of_clear rfl
  | change change =>
      unfold perform
      cases hchange : workspace.session.change change with
      | error fault =>
          have hevent : workspace.session.event? (.change change) = none := by
            simp [Session.event?, Session.clears, Session.compiles?, hchange, Except.isOk, Except.toBool]
          simp only [hchange, hevent]
          exact Session.records_of_eq rfl rfl
      | ok next =>
          simp only [hchange]
          exact Session.records_change hchange
  | _ => exact Session.records_of_eq rfl rfl

/-! ### Histories -/

namespace Session

/-- **A session keeps the paths used most recently** since the last clearing, as many as fit, and none
while the cache is out of use. -/
structure KeepsRecent (session : Session) (capacity : Nat) (events : List CacheEvent) : Prop where
  coherent : session.Coherent
  fits : session.cache.capacity = capacity
  paths : session.cache.paths = (CacheEvent.recent events).eraseDups.take capacity
  off : session.caching = false → session.cache.paths = []

namespace KeepsRecent

variable {session : Session} {capacity : Nat} {events : List CacheEvent}

/-- What is kept fits. -/
theorem size_le (h : session.KeepsRecent capacity events) : session.cache.size ≤ capacity := by
  have hlength : session.cache.paths.length = session.cache.size := List.length_map _
  rw [← hlength, h.paths, List.length_take]
  exact Nat.min_le_left _ _

end KeepsRecent

/-- A new session keeps nothing. -/
theorem keepsRecent_start (options : Options) :
    (start options).KeepsRecent (max options.capacity 1) [] where
  coherent := coherent_start options
  fits := rfl
  paths := by rw [CacheEvent.recent_nil, List.eraseDups_nil, List.take_nil]; rfl
  off _ := rfl

end Session

namespace Workspace

/-- **One request keeps it so.** -/
theorem keepsRecent_perform {workspace : Workspace} {capacity : Nat} {events : List CacheEvent}
    (hpos : 0 < capacity) (h : workspace.session.KeepsRecent capacity events)
    (functions : Resolve.Functions) (request : Request) :
    (workspace.perform functions request).2.session.KeepsRecent capacity
      (events ++ (workspace.session.event? request).toList) := by
  have hrecords := records_perform h.coherent (le_of_le_of_eq h.size_le h.fits.symm) functions request
  refine ⟨coherent_perform h.coherent functions request, hrecords.capacity.trans h.fits, ?_, ?_⟩
  · rw [hrecords.paths]
    cases workspace.session.event? request with
    | none => simpa [Cache.pathsAfter] using h.paths
    | some event =>
        cases event with
        | clear => simp [Cache.pathsAfter]
        | use path =>
            obtain ⟨fewer, rfl⟩ : ∃ fewer, capacity = fewer + 1 := ⟨capacity - 1, by omega⟩
            simp only [Option.toList_some, CacheEvent.recent_concat_use, Cache.pathsAfter, h.fits,
              h.paths, List.eraseDups_cons, List.take_succ_cons, take_filter_take (nodup_eraseDups _),
              eraseDups_filter]
            rfl
  · intro hoff
    rw [hrecords.paths]
    rcases hrecords.off hoff with hclear | ⟨hnone, hbefore⟩
    · rw [hclear]
      rfl
    · rw [hnone]
      exact h.off hbefore

/-- Requests in sequence keep it so. -/
theorem keepsRecent_after (functions : Resolve.Functions) (options : Options) (document : Value)
    (history : List Request) :
    (after functions options document history).session.KeepsRecent (max options.capacity 1)
      (events functions ⟨.start options, document⟩ history) := by
  induction history using List.reverseRecOn with
  | nil => exact Session.keepsRecent_start options
  | append_singleton history request ih =>
      rw [after_concat, events_concat]
      exact keepsRecent_perform (by omega) ih functions request

/-- **What the cache keeps.**  After any requests in sequence, from a session with any options, the paths
that are kept are those used since the last clearing, each once, the most recent ones, as many as the
capacity (a capacity of zero counts as one).  So there are never more, and there are none while the cache
is out of use. -/
theorem keeps_most_recent (functions : Resolve.Functions) (options : Options) (document : Value)
    (history : List Request) :
    let cache := (after functions options document history).session.cache
    let events := events functions ⟨.start options, document⟩ history
    cache.entries.map (·.1) =
        (CacheEvent.recent events).eraseDups.take (max options.capacity 1) ∧
      cache.size ≤ max options.capacity 1 ∧
      ((after functions options document history).session.caching = false → cache.size = 0) := by
  intro cache events
  have hkeeps := keepsRecent_after functions options document history
  refine ⟨hkeeps.paths, hkeeps.size_le, fun hoff => ?_⟩
  have hlength : cache.paths.length = cache.size := List.length_map _
  rw [← hlength, hkeeps.off hoff]
  rfl

end Workspace

end PathExpr

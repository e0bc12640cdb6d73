import PathExpr.Proofs.Routes

/-!
# The cache does not show

A session that compiles by its cache replies as one that has no use of a cache at all.  The second is
not another program: it is the same session, *bare* of its cache before every request
(`Session.bare`), so that whatever a request turns on or stores is gone before the next one.

A request sees of a coherent session only what its bare form has, too, and does to that form what it
does to the session (`Workspace.perform_bare`).  Coherence carries the induction, and coherence does not
mind the loss of entries; so nothing that is said here rests on which entry a full cache drops, or on
its dropping only when it is full (`Cache.Loss`).

* `Cache.lookup_put`, `Cache.lookup_get?` — what is found is what was stored last, or nothing.
* `Workspace.cache_invisible` — the replies and the document are those of the bare session, and what is
  kept is always what the dialect in use compiles.
-/

namespace PathExpr

/-! ### What a cache may lose -/

namespace Cache

/-- To put one path out of the entries is not seen under another. -/
theorem lookup_without {cache : Cache} {path other : String} (h : other ≠ path) :
    (cache.without path).lookup other = cache.entries.lookup other := by
  unfold without
  induction cache.entries with
  | nil => rfl
  | cons entry rest ih =>
      obtain ⟨name, set⟩ := entry
      rw [List.filter_cons]
      by_cases hname : name = path
      · have hother : (other == name) = false := beq_false_of_ne (hname ▸ h)
        simp [hname, ih, List.lookup_cons, hname ▸ hother]
      · simp [hname, ih, List.lookup_cons]

/-- **What is found after a store** is what was stored under its path, and under any other path what
was found there before. -/
theorem lookup_put {cache : Cache} {path other : String} {set found : TokenSet}
    (h : (cache.put path set).entries.lookup other = some found) :
    (other = path ∧ found = set) ∨
      (other ≠ path ∧ cache.entries.lookup other = some found) := by
  -- Entries that do not fit were found before they were dropped.
  have hall : ((path, set) :: cache.without path).lookup other = some found := by
    rw [← List.take_append_drop cache.capacity ((path, set) :: _), List.lookup_append]
    exact Option.or_eq_some_iff.mpr (.inl h)
  rw [List.lookup_cons] at hall
  by_cases hother : other = path
  · rw [beq_iff_eq.mpr hother] at hall
    exact .inl ⟨hother, (Option.some.inj hall).symm⟩
  · rw [beq_false_of_ne hother] at hall
    exact .inr ⟨hother, lookup_without hother ▸ hall⟩

/-- A look-up does not change what is found. -/
theorem lookup_get? (cache : Cache) (path other : String) :
    (cache.get? path).2.entries.lookup other = cache.entries.lookup other := by
  unfold get?
  cases hlookup : cache.entries.lookup path with
  | none => rfl
  | some set =>
      by_cases hother : other = path
      · simp [hother, hlookup]
      · simp [List.lookup_cons, beq_false_of_ne hother, lookup_without hother]

/-- **A loss of entries.** What is left may be moved and its capacity changed, but none is made. -/
structure Loss where
  apply : Cache → Cache
  mem_of_mem : ∀ {cache : Cache} {entry : String × TokenSet},
    entry ∈ (apply cache).entries → entry ∈ cache.entries

/-- Nothing is lost. -/
def Loss.nothing : Loss := ⟨id, fun h => h⟩

end Cache

/-! ### The bare session -/

namespace Session

/-- **The session without a cache**: nothing is kept, and the cache is not in use. -/
def bare (session : Session) : Session :=
  { session with cache := .empty 0, caching := false }

/-- The session after its cache lost entries. -/
def lose (session : Session) (loss : Cache.Loss) : Session :=
  { session with cache := loss.apply session.cache }

section Bare

variable {session : Session}

@[simp] theorem bare_dialect (session : Session) : session.bare.dialect = session.dialect := rfl

@[simp] theorem bare_force (session : Session) : session.bare.force = session.force := rfl

@[simp] theorem bare_bare (session : Session) : session.bare.bare = session.bare := rfl

theorem coherent_bare (session : Session) : session.bare.Coherent := fun _ h => nomatch h

/-- A loss keeps a session coherent. -/
theorem coherent_lose (h : session.Coherent) (loss : Cache.Loss) : (session.lose loss).Coherent :=
  h.mono rfl fun _ hentry => loss.mem_of_mem hentry

/-! #### What each operation does to it -/

@[simp] theorem bare_compile (session : Session) (path : String) :
    (session.compile path).2.bare = session.bare := by
  obtain ⟨cache, h⟩ := compile_snd session path
  rw [h]
  rfl

@[simp] theorem bare_get (functions : Resolve.Functions) (session : Session) (route : Route)
    (arguments : List Value) (document : Value) :
    (session.get functions route arguments document).2.bare = session.bare := by
  cases route with
  | compiled set => rfl
  | text path =>
      cases hsimple : session.dialect.isSimplePath path.toList with
      | true => rw [get, if_pos hsimple]
      | false => rw [get_text hsimple, bare_compile]

@[simp] theorem bare_set (functions : Resolve.Functions) (session : Session) (route : Route)
    (value : Value) (arguments : List Value) (document : Value) :
    (session.set functions route value arguments document).2.bare = session.bare := by
  cases route with
  | compiled set => rfl
  | text path =>
      cases hsimple : session.dialect.isSimplePath path.toList with
      | true => rw [set, if_pos hsimple]
      | false => rw [set_text hsimple, bare_compile]

/-- **A change of dialect does the same to both**: it is accepted or refused for the same reason. -/
theorem bare_change (session : Session) (change : Change) :
    (session.bare.change change).map bare = (session.change change).map bare := by
  -- What differs between the two is dropped together with the cache.
  have huse : ∀ (result : Except ConfigError Dialect) (use use' : Dialect → Session),
      (∀ dialect, (use dialect).bare = (use' dialect).bare) →
      (result.map use).map bare = (result.map use').map bare := by
    intro result use use' h
    cases result with
    | error fault => rfl
    | ok dialect => exact congrArg Except.ok (h dialect)
  cases change with
  | simple separator =>
      cases separator with
      | some separator => exact huse _ _ _ fun _ => rfl
      | none =>
          rw [change_simple_none, change_simple_none, bare_dialect]
          cases session.dialect.simple <;> rfl
  | reset => rfl
  | _ => exact huse _ _ _ fun _ => rfl

/-! #### What each operation replies -/

/-- A coherent session compiles as its bare form. -/
theorem compile_fst_bare (h : session.Coherent) (path : String) :
    (session.compile path).1 = (session.bare.compile path).1 := by
  rw [compile_eq_tokenize h, compile_eq_tokenize (coherent_bare session), bare_dialect]

/-- A coherent session finds valid what its bare form does. -/
theorem isValid_fst_bare (h : session.Coherent) (path : String) :
    (session.isValid path).1 = (session.bare.isValid path).1 := by
  have hcompile := compile_fst_bare h path
  exact congrArg Except.isOk hcompile

/-- A coherent session reads as its bare form. -/
theorem get_fst_bare (h : session.Coherent) (functions : Resolve.Functions) (route : Route)
    (arguments : List Value) (document : Value) :
    (session.get functions route arguments document).1 =
      (session.bare.get functions route arguments document).1 := by
  cases route with
  | compiled set => rfl
  | text path =>
      rw [get_eq_meaning h, get_eq_meaning (coherent_bare session), bare_dialect]

/-- A coherent session writes as its bare form. -/
theorem set_fst_bare (h : session.Coherent) (functions : Resolve.Functions) (route : Route)
    (value : Value) (arguments : List Value) (document : Value) :
    (session.set functions route value arguments document).1 =
      (session.bare.set functions route value arguments document).1 := by
  cases route with
  | compiled set => rfl
  | text path =>
      rw [set_eq_effect h, set_eq_effect (coherent_bare session), bare_dialect, bare_force]

end Bare

end Session

/-! ### Histories -/

namespace Workspace

/-- The workspace whose session is without a cache. -/
def bare (workspace : Workspace) : Workspace :=
  { workspace with session := workspace.session.bare }

/-- The workspace after the cache of its session lost entries. -/
def lose (workspace : Workspace) (loss : Cache.Loss) : Workspace :=
  { workspace with session := workspace.session.lose loss }

/-- **Requests in sequence without a cache**: each of them finds a session that is bare of it. -/
def runBare (functions : Resolve.Functions) : Workspace → List Request → List Reply × Workspace
  | workspace, [] => ([], workspace)
  | workspace, request :: rest =>
      let (reply, workspace) := workspace.bare.perform functions request
      let (replies, workspace) := runBare functions workspace rest
      (reply :: replies, workspace)

/-- **Requests in sequence with losses**: before each of them the cache loses entries. -/
def runLosing (functions : Resolve.Functions) :
    Workspace → List (Cache.Loss × Request) → List Reply × Workspace
  | workspace, [] => ([], workspace)
  | workspace, (loss, request) :: rest =>
      let (reply, workspace) := (workspace.lose loss).perform functions request
      let (replies, workspace) := runLosing functions workspace rest
      (reply :: replies, workspace)

/-- To run without a loss is to run. -/
theorem runLosing_nothing (functions : Resolve.Functions) (workspace : Workspace)
    (history : List Request) :
    runLosing functions workspace (history.map (.nothing, ·)) = run functions workspace history := by
  induction history generalizing workspace with
  | nil => rfl
  | cons request rest ih =>
      have hlose : workspace.lose .nothing = workspace := rfl
      simp only [List.map_cons, runLosing, run, hlose, ih]

/-- **One request** gets the same reply from a coherent session and from its bare form, and does the
same to both. -/
theorem perform_bare {workspace : Workspace} (h : workspace.session.Coherent)
    (functions : Resolve.Functions) (request : Request) :
    (workspace.perform functions request).1 = (workspace.bare.perform functions request).1 ∧
      (workspace.perform functions request).2.bare =
        (workspace.bare.perform functions request).2.bare := by
  obtain ⟨session, document⟩ := workspace
  cases request with
  | compile path =>
      refine ⟨congrArg Reply.tokens (Session.compile_fst_bare h path), ?_⟩
      simp [perform, keep, bare]
  | isValid path =>
      refine ⟨congrArg Reply.valid (Session.isValid_fst_bare h path), ?_⟩
      simp [perform, keep, bare, Session.isValid]
  | get route arguments =>
      have hvalue := Session.get_fst_bare h functions route arguments document
      exact ⟨congrArg Reply.value hvalue, by simp [perform, keep, bare]⟩
  | get? route arguments =>
      have hvalue := Session.get_fst_bare h functions route arguments document
      refine ⟨?_, by simp [perform, keep, bare]⟩
      exact congrArg (fun found : Except PathError Value => Reply.value? found.toOption) hvalue
  | set route value arguments =>
      have hwritten := Session.set_fst_bare h functions route value arguments document
      simp [perform, bare, hwritten]
  | set? route value arguments =>
      have hwritten := Session.set_fst_bare h functions route value arguments document
      simp [perform, bare, hwritten]
  | setCaching caching => cases caching <;> exact ⟨rfl, rfl⟩
  | change change =>
      have hchange := Session.bare_change session change
      unfold perform bare
      dsimp only
      rcases hnext : session.change change with fault | next <;>
        rcases hbare : session.bare.change change with fault' | next' <;>
        rw [hnext, hbare] at hchange
      · cases hchange
        exact ⟨rfl, rfl⟩
      · cases hchange
      · cases hchange
      · have hsame : next'.bare = next.bare := Except.ok.inj hchange
        exact ⟨rfl, by rw [hsame]⟩
  | _ => exact ⟨rfl, rfl⟩

/-- **Requests in sequence** get the replies that they get without a cache, whatever the cache loses on
the way, and leave the same but for the cache. -/
theorem runLosing_eq_runBare {workspace plain : Workspace} (h : workspace.session.Coherent)
    (hplain : workspace.bare = plain.bare) (functions : Resolve.Functions)
    (history : List (Cache.Loss × Request)) :
    (runLosing functions workspace history).1 =
        (runBare functions plain (history.map (·.2))).1 ∧
      (runLosing functions workspace history).2.bare =
        (runBare functions plain (history.map (·.2))).2.bare := by
  induction history generalizing workspace plain with
  | nil => exact ⟨rfl, hplain⟩
  | cons event rest ih =>
      obtain ⟨loss, request⟩ := event
      have hcoherent : (workspace.lose loss).session.Coherent := Session.coherent_lose h loss
      have hbare : (workspace.lose loss).bare = plain.bare := hplain
      obtain ⟨hreply, hleft⟩ := perform_bare hcoherent functions request
      rw [hbare] at hreply hleft
      obtain ⟨hreplies, hend⟩ := ih (coherent_perform hcoherent functions request) hleft
      simp only [List.map_cons, runLosing, runBare]
      exact ⟨by rw [hreply, hreplies], hend⟩

/-- Requests in sequence keep a session coherent, whatever the cache loses on the way. -/
theorem coherent_runLosing {workspace : Workspace} (h : workspace.session.Coherent)
    (functions : Resolve.Functions) (history : List (Cache.Loss × Request)) :
    (runLosing functions workspace history).2.session.Coherent := by
  induction history generalizing workspace with
  | nil => exact h
  | cons event rest ih =>
      obtain ⟨loss, request⟩ := event
      exact ih (coherent_perform (Session.coherent_lose h loss) functions request)

/-- **The cache is invisible.**  From a new session with any options, the capacity of the cache
included, any requests in sequence get the replies and leave the document of a session that never uses
a cache.  The same holds if the cache loses entries before any of them, and in both cases every entry
that is kept at the end is what the dialect then in use compiles. -/
theorem cache_invisible (functions : Resolve.Functions) (options : Options) (document : Value)
    (history : List (Cache.Loss × Request)) :
    let start : Workspace := ⟨.start options, document⟩
    let requests := history.map (·.2)
    let cached := run functions start requests
    let losing := runLosing functions start history
    let plain := runBare functions start requests
    (cached.1 = plain.1 ∧ cached.2.document = plain.2.document) ∧
      (losing.1 = plain.1 ∧ losing.2.document = plain.2.document) ∧
      (∀ entry ∈ cached.2.session.cache.entries,
        Path.tokenize cached.2.session.dialect entry.1 = .ok entry.2) ∧
      (∀ entry ∈ losing.2.session.cache.entries,
        Path.tokenize losing.2.session.dialect entry.1 = .ok entry.2) := by
  intro start requests cached losing plain
  have hstart : start.session.Coherent := Session.coherent_start options
  have hcached := runLosing_eq_runBare hstart (rfl : start.bare = start.bare) functions
    (requests.map (.nothing, ·))
  have hrequests : (requests.map (Cache.Loss.nothing, ·)).map (·.2) = requests := by
    rw [List.map_map]
    exact List.map_id requests
  rw [runLosing_nothing, hrequests] at hcached
  have hlosing := runLosing_eq_runBare hstart (rfl : start.bare = start.bare) functions history
  refine ⟨⟨hcached.1, ?_⟩, ⟨hlosing.1, ?_⟩, ?_, ?_⟩
  · exact congrArg (·.document) hcached.2
  · exact congrArg (·.document) hlosing.2
  · exact coherent_run hstart functions requests
  · exact coherent_runLosing hstart functions history

end Workspace

end PathExpr

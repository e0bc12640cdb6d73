import PathExpr.Proofs.Lookup
import PathExpr.Session.Request

/-!
# The cache and the dialect belong together

A session keeps compiled path expressions under their texts, and compiles by its dialect.  It is
*coherent* if what it keeps is what its dialect compiles (`Session.Coherent`).  A new session is, since
it keeps nothing; to compile stores nothing else; and a change of dialect either drops everything or
leaves the dialect as it is.  So every session that requests can lead to is coherent
(`Workspace.coherent_after`), and what compiling gives is what the dialect gives, cache or not
(`Session.compile_eq_tokenize`).

The capacity and the order of the entries play no part: entries may be dropped and moved at will.
-/

namespace PathExpr

/-! ### Entries -/

namespace Cache

/-- A store brings in one entry at most. -/
theorem mem_put {cache : Cache} {path : String} {set : TokenSet} {entry : String × TokenSet}
    (h : entry ∈ (cache.put path set).entries) : entry = (path, set) ∨ entry ∈ cache.entries := by
  rcases List.mem_cons.mp (List.mem_of_mem_take h) with hnew | hold
  · exact .inl hnew
  · exact .inr (List.mem_filter.mp hold).1

/-- A look-up finds an entry and brings in none. -/
theorem mem_of_get? {cache next : Cache} {path : String} {set : TokenSet}
    (h : cache.get? path = (some set, next)) :
    (path, set) ∈ cache.entries ∧ ∀ entry ∈ next.entries, entry ∈ cache.entries := by
  unfold get? at h
  cases hlookup : cache.entries.lookup path with
  | none =>
      rw [hlookup] at h
      cases h
  | some found =>
      rw [hlookup] at h
      cases h
      have hmem := mem_of_lookup hlookup
      refine ⟨hmem, fun entry hentry => ?_⟩
      rcases List.mem_cons.mp hentry with rfl | hold
      · exact hmem
      · exact (List.mem_filter.mp hold).1

end Cache

/-! ### Sessions -/

namespace Session

/-- **What a coherent session keeps is what its dialect compiles.** -/
def Coherent (session : Session) : Prop :=
  ∀ entry ∈ session.cache.entries, Path.tokenize session.dialect entry.1 = .ok entry.2

theorem coherent_start (options : Options) : (start options).Coherent := fun _ h => nomatch h

/-- A session that keeps nothing is coherent. -/
theorem coherent_clearCache (session : Session) : session.clearCache.Coherent :=
  fun _ h => nomatch h

/-- To keep less under the same dialect is coherent, too. -/
theorem Coherent.mono {session next : Session} (h : session.Coherent)
    (hdialect : next.dialect = session.dialect)
    (hentries : ∀ entry ∈ next.cache.entries, entry ∈ session.cache.entries) : next.Coherent := by
  intro entry hentry
  rw [hdialect]
  exact h entry (hentries entry hentry)

section Compile

variable {session : Session}

/-- **What compiling can do**: go by the dialect and leave the session as it is, which is all that
happens without the cache or on a text that does not compile; take an entry; or make one. -/
theorem compile_cases (session : Session) (path : String) :
    session.compile path = (Path.tokenize session.dialect path, session) ∨
      (∃ set cache, session.cache.get? path = (some set, cache) ∧
        session.compile path = (.ok set, { session with cache := cache })) ∨
      (∃ set, Path.tokenize session.dialect path = .ok set ∧
        session.compile path = (.ok set, { session with cache := session.cache.put path set })) := by
  unfold compile
  cases hcaching : session.caching with
  | false => exact .inl (if_neg Bool.false_ne_true)
  | true =>
      rw [if_pos rfl]
      rcases hget : session.cache.get? path with ⟨_ | set, cache⟩
      · cases htokens : Path.tokenize session.dialect path with
        | error fault => exact .inl rfl
        | ok set => exact .inr (.inr ⟨set, rfl, rfl⟩)
      · exact .inr (.inl ⟨set, cache, rfl, rfl⟩)

/-- **To compile touches nothing but the cache.** -/
theorem compile_snd (session : Session) (path : String) :
    ∃ cache, (session.compile path).2 = { session with cache := cache } := by
  rcases compile_cases session path with h | ⟨set, cache, -, h⟩ | ⟨set, -, h⟩
  · exact ⟨session.cache, by rw [h]⟩
  · exact ⟨cache, by rw [h]⟩
  · exact ⟨session.cache.put path set, by rw [h]⟩

/-- **What a coherent session compiles is what its dialect compiles**, cache or not. -/
theorem compile_eq_tokenize (hcoherent : session.Coherent) (path : String) :
    (session.compile path).1 = Path.tokenize session.dialect path := by
  rcases compile_cases session path with h | ⟨set, cache, hget, h⟩ | ⟨set, htokens, h⟩
  · rw [h]
  · rw [h, hcoherent (path, set) (Cache.mem_of_get? hget).1]
  · rw [h, htokens]

/-- To compile keeps a session coherent. -/
theorem coherent_compile (hcoherent : session.Coherent) (path : String) :
    (session.compile path).2.Coherent := by
  rcases compile_cases session path with h | ⟨set, cache, hget, h⟩ | ⟨set, htokens, h⟩
  · rw [h]
    exact hcoherent
  · rw [h]
    exact hcoherent.mono rfl (Cache.mem_of_get? hget).2
  · rw [h]
    intro entry hentry
    rcases Cache.mem_put hentry with rfl | hold
    · exact htokens
    · exact hcoherent entry hold

end Compile

section Operations

variable {session next : Session}

/-- To read by a text that is no run of plain names is to read by what it compiles to. -/
theorem get_text {path : String} (h : session.dialect.isSimplePath path.toList = false)
    (functions : Resolve.Functions) (arguments : List Value) (document : Value) :
    session.get functions (.text path) arguments document =
      (match (session.compile path).1 with
        | .ok set => readCompiled functions set arguments document
        | .error fault => .error (.invalid fault),
        (session.compile path).2) := by
  rw [get, if_neg (ne_true_of_eq_false h)]
  rcases session.compile path with ⟨_ | set, next⟩ <;> rfl

/-- To write by a text that is no run of plain names is to write by what it compiles to. -/
theorem set_text {path : String} (h : session.dialect.isSimplePath path.toList = false)
    (functions : Resolve.Functions) (value : Value) (arguments : List Value) (document : Value) :
    session.set functions (.text path) value arguments document =
      (match (session.compile path).1 with
        | .ok set => writeCompiled functions session.force set value arguments document
        | .error fault => ⟨.error (.invalid fault), document⟩,
        (session.compile path).2) := by
  obtain ⟨cache, hcompile⟩ := compile_snd session path
  rw [set, if_neg (ne_true_of_eq_false h)]
  rcases hresult : session.compile path with ⟨_ | set, next⟩
  · rfl
  · -- Compiling leaves the option alone by which is written.
    rw [hresult] at hcompile
    cases hcompile
    rfl

/-- To read keeps a session coherent. -/
theorem coherent_get (h : session.Coherent) (functions : Resolve.Functions) (route : Route)
    (arguments : List Value) (document : Value) :
    (session.get functions route arguments document).2.Coherent := by
  cases route with
  | compiled set => exact h
  | text path =>
      cases hsimple : session.dialect.isSimplePath path.toList with
      | true =>
          rw [get, if_pos hsimple]
          exact h
      | false =>
          rw [get_text hsimple]
          exact coherent_compile h path

/-- To write keeps a session coherent. -/
theorem coherent_set (h : session.Coherent) (functions : Resolve.Functions) (route : Route)
    (value : Value) (arguments : List Value) (document : Value) :
    (session.set functions route value arguments document).2.Coherent := by
  cases route with
  | compiled set => exact h
  | text path =>
      cases hsimple : session.dialect.isSimplePath path.toList with
      | true =>
          rw [set, if_pos hsimple]
          exact h
      | false =>
          rw [set_text hsimple]
          exact coherent_compile h path

/-- To use the cache or not keeps a session coherent. -/
theorem coherent_setCaching (h : session.Coherent) (caching : Bool) :
    (session.setCaching caching).Coherent := by
  cases caching with
  | false => exact coherent_clearCache _
  | true => exact h.mono rfl fun _ hentry => hentry

/-- To enter a simple dialect keeps the one before it, unless that is simple as well. -/
theorem change_simple_some (session : Session) (separator : Char) :
    session.change (.simple (some separator)) =
      (Dialect.ofSeparator separator).map fun dialect =>
        { session with
          saved := if session.dialect.simple then session.saved else some session.dialect }.useDialect
            dialect := rfl

/-- To leave a simple dialect is to return to the one before it, and nothing in any other dialect. -/
theorem change_simple_none (session : Session) :
    session.change (.simple none) =
      if session.dialect.simple then
        .ok ({ session with saved := none }.useDialect (session.saved.getD .standard))
      else .ok { session with saved := none } := rfl

/-- **An accepted change puts a dialect in use**, unless it is one back. -/
theorem exists_useDialect_of_change {change : Change} (hchange : change ≠ .simple none)
    (h : session.change change = .ok next) :
    ∃ dialect saved, next = { session with saved := saved }.useDialect dialect := by
  have huse : ∀ {result : Except ConfigError Dialect} {saved : Option Dialect},
      (result.map fun dialect => { session with saved := saved }.useDialect dialect) = .ok next →
      ∃ dialect saved, next = { session with saved := saved }.useDialect dialect := by
    intro result saved hmap
    cases result with
    | error fault => cases hmap
    | ok dialect =>
        cases hmap
        exact ⟨dialect, saved, rfl⟩
  cases change with
  | simple separator =>
      cases separator with
      | some separator => exact huse h
      | none => exact absurd rfl hchange
  | reset =>
      cases h
      exact ⟨.standard, none, rfl⟩
  | _ => exact @huse _ session.saved h

/-- **An accepted change drops the cache, or leaves it and the dialect as they are.** -/
theorem change_ok {change : Change} (h : session.change change = .ok next) :
    next.cache = session.cache.clear ∨
      (next.dialect = session.dialect ∧ next.cache = session.cache) := by
  by_cases hchange : change = .simple none
  · subst hchange
    rw [change_simple_none] at h
    split at h
    · cases h
      exact .inl rfl
    · cases h
      exact .inr ⟨rfl, rfl⟩
  · obtain ⟨dialect, saved, rfl⟩ := exists_useDialect_of_change hchange h
    exact .inl rfl

/-- An accepted change keeps a session coherent. -/
theorem coherent_change {change : Change} (h : session.Coherent)
    (hchange : session.change change = .ok next) : next.Coherent := by
  rcases change_ok hchange with hcache | ⟨hdialect, hcache⟩
  · intro entry hentry
    rw [hcache] at hentry
    cases hentry
  · exact h.mono hdialect fun entry hentry => hcache ▸ hentry

end Operations

end Session

/-! ### Histories -/

namespace Workspace

/-- The workspace to which requests lead from a new session with a document. -/
def after (functions : Resolve.Functions) (options : Options) (document : Value)
    (history : List Request) : Workspace :=
  (run functions ⟨.start options, document⟩ history).2

/-- To perform one request more is to go on from where the others lead. -/
theorem after_concat (functions : Resolve.Functions) (options : Options) (document : Value)
    (history : List Request) (request : Request) :
    after functions options document (history ++ [request]) =
      ((after functions options document history).perform functions request).2 := by
  have hrun : ∀ workspace : Workspace, (run functions workspace (history ++ [request])).2 =
      ((run functions workspace history).2.perform functions request).2 := by
    induction history with
    | nil => exact fun workspace => rfl
    | cons earlier rest ih => exact fun workspace => ih _
  exact hrun _

/-- One request keeps a session coherent. -/
theorem coherent_perform {workspace : Workspace} (h : workspace.session.Coherent)
    (functions : Resolve.Functions) (request : Request) :
    (workspace.perform functions request).2.session.Coherent := by
  cases request with
  | compile path => exact Session.coherent_compile h path
  | isValid path => exact Session.coherent_compile h path
  | get route arguments => exact Session.coherent_get h functions route arguments _
  | get? route arguments => exact Session.coherent_get h functions route arguments _
  | set route value arguments => exact Session.coherent_set h functions route value arguments _
  | set? route value arguments => exact Session.coherent_set h functions route value arguments _
  | setCaching caching => exact Session.coherent_setCaching h caching
  | setForce force => exact h.mono rfl fun _ hentry => hentry
  | clearCache => exact Session.coherent_clearCache _
  | change change =>
      unfold perform
      cases hchange : workspace.session.change change with
      | error fault =>
          simp only [hchange]
          exact h
      | ok next =>
          simp only [hchange]
          exact Session.coherent_change h hchange
  | _ => exact h

/-- Requests in sequence keep a session coherent. -/
theorem coherent_run {workspace : Workspace} (h : workspace.session.Coherent)
    (functions : Resolve.Functions) (history : List Request) :
    (workspace.run functions history).2.session.Coherent := by
  induction history generalizing workspace with
  | nil => exact h
  | cons request rest ih => exact ih (coherent_perform h functions request)

/-- **Every session that requests lead to is coherent.** -/
theorem coherent_after (functions : Resolve.Functions) (options : Options) (document : Value)
    (history : List Request) : (after functions options document history).session.Coherent :=
  coherent_run (Session.coherent_start options) functions history

end Workspace

end PathExpr

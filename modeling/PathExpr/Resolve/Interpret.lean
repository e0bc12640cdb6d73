import PathExpr.Resolve.Glob
import PathExpr.Resolve.Walk
import PathExpr.Token.Basic
import PathExpr.Value.Key

/-!
# Resolving tokens against a document

Every token takes a context to a result, which is the context of the next.  Only the last one sees
what the resolution is for (`Intent`): a read looks a member up, a write assigns it.  The others
read, and make an empty object where a member is missing if a write is forced.

* `Resolve.advance` — a sequence of tokens, each result pushed on the trail.
* `Resolve.step` — one token; with a broadcast, on every element of its context.
* `Resolve.members` — the items of a collection, all on the same context.

The three recurse together on the tokens and on nothing else: a container resolves the tokens it
holds, and neither the document nor the values met in it can prolong a resolution.

The answers of functions come from the environment, so all that is said of a resolution holds of
any functions.
-/

namespace PathExpr.Resolve

/-- What functions answer: to a function's name, the receiver and the arguments, an answer or
none. -/
abbrev Functions := String → Value → List Value → Option Value

/-- What a resolution is given besides the document and the tokens. -/
structure Env where
  /-- The positional arguments; the first has number 1. -/
  arguments : List Value
  /-- What functions answer. -/
  functions : Functions
  /-- Does a write make the objects that it passes through? -/
  force : Bool

/-- What a resolution is for. -/
inductive Intent where
  | read
  | write (value : Value)

/-- Is it a write? -/
def Intent.isWrite : Intent → Bool
  | .read => false
  | .write _ => true

/-! ### Arguments -/

/-- The number of an argument: digits, with a plus sign in front or not. -/
def argumentNumber? (text : String) : Option Nat :=
  let digits :=
    match text.toList with
    | '+' :: rest => rest
    | text => text
  if !digits.isEmpty && digits.all isDigit && decide (ofDigits digits < indexBound) then
    some (ofDigits digits)
  else none

/-- The argument of a number. -/
def Env.argument (env : Env) (number : Nat) : Except PathError Value :=
  match number with
  | 0 => .error (.missingArgument 0 env.arguments.length)
  | index + 1 =>
      match env.arguments[index]? with
      | some value => .ok value
      | none => .error (.missingArgument number env.arguments.length)

/-- The text of an argument, to name a property by. -/
def Env.placeholder (env : Env) (text : String) : Except PathError String :=
  match argumentNumber? text with
  | none => .error (.mismatch (.placeholder text))
  | some number =>
      match env.argument number with
      | .error fault => .error fault
      | .ok value =>
          match value.key? with
          | some key => .ok key
          | none => .error (.mismatch (.argumentName text value.kind))

/-- The argument of a number, or the text itself if it is no number. -/
def Env.argumentOrText (env : Env) (text : String) : Except PathError Value :=
  match argumentNumber? text with
  | none => .ok (.string text)
  | some number => env.argument number

/-! ### Names -/

/-- **Look up or assign one member.** A missing member is made, as an empty object, if `create` is
set. -/
def access (focus : Focus) (name : String) (intent : Intent) (create : Bool) : Walk Focus :=
  match intent with
  | .write value => Walk.assign focus name value
  | .read => fun s =>
      match focus.child? s.document name with
      | some found => (.ok found, s)
      | none =>
          if create then Walk.assign focus name (.object []) s
          else (.error (.notFound (.member name)), s)

theorem access_read_apply (focus : Focus) (name : String) (create : Bool) (s : State) :
    access focus name .read create s =
      match focus.child? s.document name with
      | some found => (.ok found, s)
      | none =>
          if create then Walk.assign focus name (.object []) s
          else (.error (.notFound (.member name)), s) := rfl

section Access

variable {focus : Focus} {name : String} {create : Bool} {s : State}

/-- A member that is there is read. -/
theorem access_read_of_some {found : Focus} (h : focus.child? s.document name = some found) :
    access focus name .read create s = (.ok found, s) := by
  rw [access_read_apply, h]

/-- A member that is missing is made, or is an error. -/
theorem access_read_of_none (h : focus.child? s.document name = none) :
    access focus name .read create s =
      if create then Walk.assign focus name (.object []) s
      else (.error (.notFound (.member name)), s) := by
  rw [access_read_apply, h]

end Access

/-- **All members that match a pattern**, in the order of the context. -/
def wildcard (focus : Focus) (glob : Glob) (intent : Intent) : Walk Focus := do
  let names ← Walk.asking focus.memberNames
  let found ← Walk.gather intent.isWrite
    ((names.filter glob.matchesName).map fun name => some <$> access focus name intent false)
  return .fan found

/-- **The context that a name starts from**: some levels down the trail, then the document, if the
modifiers say so. -/
def origin (modifiers : Modifiers) (focus : Focus) : Walk Focus :=
  (if 0 < modifiers.parent then Walk.ancestor modifiers.parent else pure focus) >>= fun focus =>
    if modifiers.root then Walk.rewind else pure focus

/-- The name itself, which a placeholder takes from an argument. -/
def Env.wordName (env : Env) (w : Word) : Except PathError String :=
  if w.modifiers.placeholder then env.placeholder w.name else .ok w.name

/-- **A name with modifiers**: first the context it starts from, then the name itself. -/
def word (env : Env) (w : Word) (intent : Intent) (create : Bool) (focus : Focus) :
    Walk Focus := do
  let focus ← origin w.modifiers focus
  if w.modifiers.context then
    match intent with
    | .write _ => Walk.fail (.assignment (.argument w.name))
    | .read => return .detached (← Walk.ofExcept (env.argumentOrText w.name))
  else
    let name ← Walk.ofExcept (env.wordName w)
    match ← Walk.ofExcept (Glob.ofWord? w name) with
    | some glob => wildcard focus glob intent
    | none => access focus name intent create

section Unmodified

variable (env : Env) {w : Word} (h : w.modifiers = .none) (intent : Intent) (create : Bool)
  (focus : Focus)

include h

/-- **A name without modifiers** starts from the context itself, and is not taken from an argument. -/
theorem word_of_unmodified :
    word env w intent create focus =
      (do
        match ← Walk.ofExcept (Glob.ofWord? w w.name) with
        | some glob => wildcard focus glob intent
        | none => access focus w.name intent create) := by
  obtain ⟨name, modifiers, wildcard, each⟩ := w
  cases h
  rfl

/-- If it is a pattern, that is all members that match it. -/
theorem word_of_glob {glob : Glob} (hglob : Glob.ofWord? w w.name = .ok (some glob)) :
    word env w intent create focus = wildcard focus glob intent := by
  rw [word_of_unmodified env h, hglob]
  rfl

/-- If it is none, that is one member. -/
theorem word_of_name (hglob : Glob.ofWord? w w.name = .ok none) :
    word env w intent create focus = access focus w.name intent create := by
  rw [word_of_unmodified env h, hglob]
  rfl

/-- A pattern with a fault fails. -/
theorem word_of_fault {fault : PathError} (hglob : Glob.ofWord? w w.name = .error fault) :
    word env w intent create focus = Walk.fail fault := by
  rw [word_of_unmodified env h, hglob]
  rfl

end Unmodified

/-! ### Containers -/

/-- The text of a computed value, to name a property by. -/
def computedName (found : Focus) : Walk String := do
  let value ← Walk.read found
  match value.key? with
  | some name => return name
  | none => Walk.fail (.mismatch (.computedName value.kind))

/-- The arguments that a resolved argument path gives: a list of results gives each of them, an array
each of its items, and anything else itself. -/
def spreadArguments (found : Focus) : Walk (List Value) :=
  match found with
  | .fan items => Walk.asking fun document => Focus.values document items
  | single => do
      match ← Walk.read single with
      | .array items => return items
      | other => return [other]

/-- What a function is taken from: the context below it. -/
def receiver : Walk Value := do
  match ← Walk.below? with
  | some frame => Walk.read frame
  | none => return .null

/-- **Call a function** on what it was taken from. The function and the receiver are read before the
arguments are resolved. -/
def call (env : Env) (focus : Focus) (arguments : Walk (List Value)) : Walk Focus := do
  match ← Walk.read focus with
  | .function name =>
      let receiver ← receiver
      let arguments ← arguments
      match env.functions name receiver arguments with
      | some answer => return .detached answer
      | none => Walk.fail (.notFound .result)
  | other => Walk.fail (.mismatch (.callee other.kind))

/-- **Broadcast**: apply a step to every element of a context, each of them on top of the trail
meanwhile. Without a broadcast the step is applied to the context itself. -/
def spread (each : Bool) (intent : Intent) (focus : Focus) (apply : Focus → Walk Focus) :
    Walk Focus :=
  if each then do
    let elements ← Walk.asking focus.elements
    let found ← Walk.gather intent.isWrite (elements.map fun element =>
      some <$> Walk.enclosed (do Walk.push element; apply element))
    return .fan found
  else apply focus

/-- Is the token a computed name? -/
def isComputed : Token → Bool
  | .container .evalProperty _ _ => true
  | _ => false

/-! ### Tokens -/

mutual

/-- **Resolve tokens in sequence**, pushing every result on the trail. -/
def advance (env : Env) : List Token → Intent → Bool → Focus → Walk Focus
  | [], _, _, focus => pure focus
  | [token], intent, create, focus => do
      let found ← step env token intent create focus
      Walk.push found
      return found
  | token :: next :: rest, intent, create, focus => do
      let found ← step env token .read (create || (intent.isWrite && env.force)) focus
      Walk.push found
      advance env (next :: rest) intent create found

/-- **Resolve one token.** -/
def step (env : Env) : Token → Intent → Bool → Focus → Walk Focus
  | .plain name, intent, create, focus => access focus name intent create
  | .word w, intent, create, focus => spread w.each intent focus (word env w intent create)
  | .collection items each, intent, _, focus =>
      spread each intent focus fun focus => do
        return .fan (← Walk.gather intent.isWrite (members env items intent focus))
  | .container role inner each, intent, create, focus =>
      spread each intent focus fun focus =>
        match role with
        | .property | .singleQuote | .doubleQuote =>
            Walk.enclosed (advance env inner.tokens intent create focus)
        | .call =>
            match intent with
            | .write _ => Walk.fail (.assignment .call)
            | .read =>
                call env focus
                  (if inner.tokens.isEmpty then pure []
                  else do
                    spreadArguments (← Walk.enclosed (advance env inner.tokens .read false focus)))
        | .evalProperty => do
            let name ← computedName (← Walk.enclosed (advance env inner.tokens .read false focus))
            access focus name intent create

/-- The items of a collection, each as a walk of its own. On a write, a computed name assigns but
adds nothing to the results. -/
def members (env : Env) : List Token → Intent → Focus → List (Walk (Option Focus))
  | [], _, _ => []
  | item :: rest, intent, focus =>
      (do
        let found ← step env item intent false focus
        return if intent.isWrite && isComputed item then none else some found)
      :: members env rest intent focus

end

theorem advance_nil (env : Env) (intent : Intent) (create : Bool) (focus : Focus) :
    advance env [] intent create focus = pure focus := rfl

/-- The last token sees what the resolution is for. -/
theorem advance_singleton (env : Env) (token : Token) (intent : Intent) (create : Bool)
    (focus : Focus) :
    advance env [token] intent create focus =
      (do
        let found ← step env token intent create focus
        Walk.push found
        return found) := rfl

/-- Every other token reads, and makes what is missing if a write is forced. -/
theorem advance_cons_cons (env : Env) (token next : Token) (rest : List Token) (intent : Intent)
    (create : Bool) (focus : Focus) :
    advance env (token :: next :: rest) intent create focus =
      (do
        let found ← step env token .read (create || (intent.isWrite && env.force)) focus
        Walk.push found
        advance env (next :: rest) intent create found) := rfl

theorem step_plain (env : Env) (name : String) (intent : Intent) (create : Bool) (focus : Focus) :
    step env (.plain name) intent create focus = access focus name intent create := rfl

theorem step_word (env : Env) (w : Word) (intent : Intent) (create : Bool) (focus : Focus) :
    step env (.word w) intent create focus =
      spread w.each intent focus (word env w intent create) := rfl

theorem step_collection (env : Env) (items : List Token) (each : Bool) (intent : Intent)
    (create : Bool) (focus : Focus) :
    step env (.collection items each) intent create focus =
      spread each intent focus (fun focus => do
        return .fan (← Walk.gather intent.isWrite (members env items intent focus))) := rfl

theorem step_call_read (env : Env) (inner : TokenSet) (each create : Bool) (focus : Focus) :
    step env (.container .call inner each) .read create focus =
      spread each .read focus fun focus =>
        call env focus
          (if inner.tokens.isEmpty then pure []
          else do
            spreadArguments (← Walk.enclosed (advance env inner.tokens .read false focus))) := rfl

theorem step_call_write (env : Env) (inner : TokenSet) (value : Value) (each create : Bool)
    (focus : Focus) :
    step env (.container .call inner each) (.write value) create focus =
      spread each (.write value) focus fun _ => Walk.fail (.assignment .call) := rfl

theorem step_computed (env : Env) (inner : TokenSet) (each : Bool) (intent : Intent)
    (create : Bool) (focus : Focus) :
    step env (.container .evalProperty inner each) intent create focus =
      spread each intent focus (fun focus => do
        let name ← computedName (← Walk.enclosed (advance env inner.tokens .read false focus))
        access focus name intent create) := rfl

theorem members_nil (env : Env) (intent : Intent) (focus : Focus) :
    members env [] intent focus = [] := rfl

theorem members_cons (env : Env) (item : Token) (rest : List Token) (intent : Intent)
    (focus : Focus) :
    members env (item :: rest) intent focus =
      (do
        let found ← step env item intent false focus
        return if intent.isWrite && isComputed item then none else some found)
      :: members env rest intent focus := rfl

/-! ### Resolutions -/

/-- Resolve tokens from the document on. -/
def walk (env : Env) (tokens : List Token) (intent : Intent) : Walk Focus :=
  Walk.enclosed (advance env tokens intent false .root)

/-- **Read** what tokens reach in a document. -/
def read (env : Env) (tokens : List Token) (document : Value) : Except PathError Value :=
  ((walk env tokens .read >>= Walk.read) (.start document)).1

/-- **Write** a value to what tokens reach in a document. -/
def write (env : Env) (tokens : List Token) (value : Value) (document : Value) : Written :=
  if tokens.isEmpty then ⟨.error (.assignment .noTarget), document⟩
  else
    match walk env tokens (.write value) (.start document) with
    | (.ok _, s) => ⟨.ok (), s.document⟩
    | (.error fault, s) => ⟨.error fault, s.document⟩

end PathExpr.Resolve

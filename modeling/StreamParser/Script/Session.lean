import StreamParser.Script.Term

/-!
# Sessions

A session drives contexts and outcomes by hand, one step at a time. Each is kept in a register
under a name; where a step asks for a context, an outcome stands for the context it carries. A
step that reads a text at an offset that is no place in it halts. What a step makes is kept before
it is shown, so it stays if only the showing halts.
-/

namespace StreamParser.Script

inductive Register where
  | context (c : Context Value)
  | outcome (o : Outcome Value Value)

namespace Register

def toContext : Register → Context Value
  | context c => c
  | outcome o => o.context

def outcome? : Register → Option (Outcome Value Value)
  | context _ => none
  | outcome o => some o

end Register

inductive Fault where
  | pattern (stage : Stage)
  | malformed (message : String)

inductive Comparison where
  | context
  | position
  | outcome
  | error

/-- One operation of a context or an outcome. What it makes is kept under the name `target`. -/
inductive Step where
  | start (input : List Char) (state : Value) (stream : Option String) (options : Option Options)
      (target : String)
  | withStream (source stream target : String)
  | withOptions (source : String) (options : Options) (target : String)
  | withState (source : String) (state : Value) (target : String)
  | advance (source : String) (n : Nat) (target : String)
  | advanceTo (source : String) (rest : List Char) (target : String)
  | nest (source target : String)
  | succeed (source : String) (v : Value) (target : String)
  | succeedWith (source : String) (v : Value) (rest : List Char) (target : String)
  | succeedFrom (source other : String) (v : Value) (target : String)
  | fail (source message target : String)
  | failAt (source other message target : String)
  | failCustom (source message target : String)
  | failSame (source other target : String)
  | parse (source : String) (parser : Except Fault Term) (target : String)
  | mapValue (source : String) (f : Unary) (target : String)
  | intoResult (source : String)
  | intoValue (source : String)
  | summary (source : String)
  | view (source : String)
  | isEmpty (source : String)
  | equal (what : Comparison) (a b : String)

inductive Answer where
  | made (r : Register)
  | nothing
  | refused (e : LocatedError)
  | fault (f : Fault)
  | noRegister (name : String)
  | halted (h : Halt)
  /-- An outcome with its context, without it, and taken apart. -/
  | whole (o : Outcome Value Value)
  | value (o : Outcome Value Value)
  | parts (o : Outcome Value Value)
  | view (c : Context Value)
  | truth (b : Bool)

/-- Registers by name, the latest first. -/
abbrev Session := List (String × Register)

inductive Effect where
  | keep (name : String) (r : Register)
  | reply (a : Answer)

namespace Session

def withRegister (s : Session) (name : String) (f : Register → Run Effect) : Run Effect :=
  match s.lookup name with
  | some r => f r
  | none => return .reply (.noRegister name)

def withContext (s : Session) (name : String) (f : Context Value → Run Effect) : Run Effect :=
  s.withRegister name fun r => f r.toContext

def withOutcome (s : Session) (name : String) (f : Outcome Value Value → Run Effect) : Run Effect :=
  s.withRegister name fun r =>
    match r.outcome? with
    | some o => f o
    | none => return .reply (.noRegister name)

def keepContext (name : String) (c : Context Value) : Effect := .keep name (.context c)

def keepOutcome (name : String) (o : Outcome Value Value) : Effect := .keep name (.outcome o)

def agree (what : Comparison) (a b : Register) : Bool :=
  match what with
  | .context => a.toContext == b.toContext
  | .position => a.toContext.position == b.toContext.position
  | .outcome => a.outcome? == b.outcome?
  | .error => a.outcome?.bind (·.error?) == b.outcome?.bind (·.error?)

/-- Performs a step. Custom errors raised in it bear the given occasion. -/
def perform (rules : Rules) (occasion : Nat) (s : Session) : Step → Run Effect
  | .start input state stream options target =>
    let c := Context.start input state
    let c := match stream with
      | some name => c.withStream name
      | none => c
    let c := match options with
      | some o => c.withOptions o
      | none => c
    return keepContext target c
  | .withStream source stream target => s.withContext source fun c =>
    return keepContext target (c.withStream stream)
  | .withOptions source options target => s.withContext source fun c =>
    return keepContext target (c.withOptions options)
  | .withState source state target => s.withContext source fun c =>
    return keepContext target (c.withState state)
  | .advance source n target => s.withContext source fun c => c.reading fun _ =>
    return keepContext target (c.advance n)
  | .advanceTo source rest target => s.withContext source fun c => c.reading fun _ =>
    match c.advanceTo? rest with
    | some d => return keepContext target d
    | none => return .reply .nothing
  | .nest source target => s.withContext source fun c => do
    match ← c.nest with
    | .ok d => return keepContext target d
    | .error e => return .reply (.refused e)
  | .succeed source v target => s.withContext source fun c =>
    return keepOutcome target (c.succeed v)
  | .succeedWith source v rest target => s.withContext source fun c =>
    keepOutcome target <$> c.succeedWith v rest
  | .succeedFrom source other v target => s.withContext source fun c =>
    s.withContext other fun d => return keepOutcome target (c.succeedFrom v d)
  | .fail source message target => s.withContext source fun c =>
    return keepOutcome target (c.fail (.stated message))
  | .failAt source other message target => s.withContext source fun c =>
    s.withContext other fun d =>
      return keepOutcome target (c.failWith (.located ⟨d.position, .stated message⟩))
  | .failCustom source message target => s.withContext source fun c =>
    return keepOutcome target (c.failWith (.custom ⟨occasion, message⟩))
  | .failSame source other target => s.withContext source fun c =>
    s.withOutcome other fun o =>
      match o.error? with
      | some e => return keepOutcome target (c.failWith e)
      | none => return .reply .nothing
  | .parse source parser target => s.withContext source fun c =>
    match parser with
    | .error f => return .reply (.fault f)
    | .ok t => keepOutcome target <$> t.run rules occasion c
  | .mapValue source f target => s.withOutcome source fun o =>
    return keepOutcome target (o.map f.apply)
  | .intoResult source => s.withOutcome source fun o => o.context.reading fun _ =>
    return .reply (.whole o)
  | .intoValue source => s.withOutcome source fun o => return .reply (.value o)
  | .summary source => s.withOutcome source fun o => return .reply (.parts o)
  | .view source => s.withContext source fun c => c.reading fun _ => return .reply (.view c)
  | .isEmpty source => s.withContext source fun c => return .reply (.truth c.isEmpty)
  | .equal what a b => s.withRegister a fun r => s.withRegister b fun t =>
    return .reply (.truth (agree what r t))

/-- What was made is shown with the text that remains, if there is a place to read it from. -/
def shown (r : Register) : Answer :=
  match r.toContext.remaining? with
  | some _ => .made r
  | none => .halted .misplaced

def step (rules : Rules) (occasion : Nat) (s : Session) (t : Step) :
    List Event × Session × Answer :=
  let run := s.perform rules occasion t
  match run.result with
  | .ok (.keep name r) => (run.trace, (name, r) :: s, shown r)
  | .ok (.reply a) => (run.trace, s, a)
  | .error h => (run.trace, s, .halted h)

def steps (rules : Rules) : (occasion : Nat) → Session → List Step → List (List Event × Answer)
  | _, _, [] => []
  | occasion, s, t :: ts =>
    let (trace, s, answer) := s.step rules occasion t
    (trace, answer) :: steps rules (occasion + 1) s ts

end Session

end StreamParser.Script

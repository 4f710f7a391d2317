import QuantumWiring.Command.Circuit

/-!
# What a command does

Everything that a command does before it writes or calls the engine is settled by the files: it
prints lines and goes on with a result, or fails.  `Prepares` says so of a part of a command and of
the result as a function of the files, and parts that prepare something are put together as their
results are (`Prepares.bind`).  So two commands that prepare a request from the same files get the
same one, whatever each of them prints on the way.  What a command then does with it is said by
`Settles`, where it changes the files, and by `Posts`, where it sends a body; both pass on through
whatever was prepared before.
-/

namespace QuantumWiring

/-- The session with more lines printed. -/
def Session.printing (s : Session) (lines : List String) : Session :=
  { s with printed := s.printed ++ lines }

namespace Command

variable {α β ε : Type} {c : Command α} {s : Session}

theorem perform_bind (c : Command α) (k : α → Command β) (s : Session) :
    perform (c >>= k) s = match perform c s with
      | (.ok a, s') => perform (k a) s'
      | (.error failure, s') => (.error failure, s') := by
  unfold perform
  rw [ExceptT.run_bind, StateT.run_bind]
  rcases (ExceptT.run c).run s with ⟨_ | _, _⟩ <;> rfl

theorem perform_get (s : Session) : perform get s = (.ok s, s) := rfl

/-! ## Preparing a result from the files -/

/-- The part of a command prints lines, and what comes of it is a function of the files. -/
def Prepares (c : Command α) (result : Files → Except CommandFailure α) : Prop :=
  ∀ s, ∃ lines, perform c s = (result s.files, s.printing lines)

theorem prepares_of_eq {result : Files → Except CommandFailure α}
    (h : ∀ s, perform c s = (result s.files, s)) : Prepares c result := by
  intro s
  refine ⟨[], ?_⟩
  rw [h, Session.printing, List.append_nil]

theorem prepares_pure (a : α) : Prepares (pure a) fun _ => .ok a :=
  prepares_of_eq fun _ => rfl

theorem prepares_throw (failure : CommandFailure) :
    Prepares (throw failure : Command α) fun _ => .error failure :=
  prepares_of_eq fun _ => rfl

theorem prepares_print (lines : List String) : Prepares (print lines) fun _ => .ok () :=
  fun _ => ⟨lines, rfl⟩

theorem prepares_require (failure : ε → CommandFailure) (result : Except ε α) :
    Prepares (require failure result) fun _ => result.mapError failure := by
  cases result with
  | error e => exact prepares_throw (failure e)
  | ok a => exact prepares_pure a

theorem Prepares.bind {result : Files → Except CommandFailure α}
    {more : α → Files → Except CommandFailure β} {k : α → Command β} (hc : Prepares c result)
    (hk : ∀ a, Prepares (k a) (more a)) :
    Prepares (c >>= k) fun files => result files >>= (more · files) := by
  intro s
  obtain ⟨lines, hlines⟩ := hc s
  show ∃ lines, perform (c >>= k) s = (result s.files >>= (more · s.files), s.printing lines)
  rw [perform_bind, hlines]
  cases result s.files with
  | error failure => exact ⟨lines, rfl⟩
  | ok a =>
    obtain ⟨later, hlater⟩ := hk a (s.printing lines)
    refine ⟨lines ++ later, hlater.trans ?_⟩
    simp only [Session.printing, List.append_assoc]
    rfl

/-- What comes of a part that looks at the session, if it looks at nothing but the files. -/
theorem prepares_get {k : Session → Command α} {result : Files → Except CommandFailure α}
    (h : ∀ s, Prepares (k s) fun _ => result s.files) : Prepares (get >>= k) result :=
  fun s => h s s

/-! ## Graphs, circuits and tableaux -/

/-- The graph in a file. -/
def graphIn (path : String) (files : Files) : Except CommandFailure CircuitGraph :=
  if files.contains path then do
    let text ← (files.read path).mapError (.unreadable path)
    (CircuitGraph.ofText text).mapError (.notGraph path)
  else .error (.noSuchFile path)

theorem prepares_loadGraph (path : String) : Prepares (loadGraph path) (graphIn path) := by
  refine prepares_get fun s => ?_
  unfold graphIn
  by_cases hcontains : s.files.contains path
  · simp only [hcontains, Bool.not_true, Bool.false_eq_true, if_false, if_true]
    exact (prepares_require _ _).bind fun text => prepares_require _ _
  · simp only [hcontains, Bool.not_false, if_true]
    exact (prepares_throw _).bind fun _ => (prepares_require _ _).bind fun text => prepares_require _ _

/-- The tableau of some words. -/
def tableauOf (words : List String) : Except CommandFailure (Option Tableau) :=
  if words = [] then .ok none
  else do
    let t ← (Tableau.ofGenerators words).mapError .malformedTableau
    return some t

theorem prepares_initialTableau (words : List String) :
    Prepares (initialTableau words) fun _ => tableauOf words := by
  unfold initialTableau tableauOf
  split
  · exact prepares_pure none
  · exact (prepares_require _ _).bind fun t => prepares_pure (some t)

/-- The request to the stabilizer endpoint that starts in the state of some words. -/
def stabilizerRequestOf (c : CompiledCircuit) (words : List String) :
    Except CommandFailure StabilizerRequest := do
  let initial ← tableauOf words
  (c.stabilizerRequest initial).mapError (.compile ∘ .tableau)

theorem prepares_stabilizerRequest (c : CompiledCircuit) (words : List String) :
    Prepares (stabilizerRequest c words) fun _ => stabilizerRequestOf c words :=
  (prepares_initialTableau words).bind fun _ => prepares_require _ _

/-! ## Changing the files -/

/-- How a command ends that printed lines and changed the files, or failed and left them alone. -/
def Session.settled (s : Session) (lines : List String) :
    Except CommandFailure Files → Except CommandFailure Unit × Session
  | .ok files => (.ok (), { s.printing lines with files })
  | .error failure => (.error failure, s.printing lines)

/-- The command sends nothing and what becomes of the files is a function of them; where it fails,
they are what they were. -/
def Settles (c : Command Unit) (outcome : Files → Except CommandFailure Files) : Prop :=
  ∀ s, ∃ lines, perform c s = Session.settled s lines (outcome s.files)

theorem settles_writeFile (path text : String) :
    Settles (writeFile path text) fun files => (files.write path text).mapError (.unwritable path) := by
  have hresult (result : Except FileFault Files) :
      Settles (require (.unwritable path) result >>= fun files => modify fun s => { s with files })
        fun _ => result.mapError (.unwritable path) := by
    intro s
    refine ⟨[], ?_⟩
    have hnothing : s.printing [] = s := by rw [Session.printing, List.append_nil]
    cases result with
    | error fault => exact (congrArg (Prod.mk _) hnothing).symm
    | ok files =>
      show _ = (_, { s.printing [] with files })
      rw [hnothing]
      rfl
  intro s
  unfold writeFile
  rw [perform_bind, perform_get]
  exact hresult (s.files.write path text) s

theorem Prepares.settles_bind {result : Files → Except CommandFailure α}
    {outcome : α → Files → Except CommandFailure Files} {k : α → Command Unit}
    (hc : Prepares c result) (hk : ∀ a, Settles (k a) (outcome a)) :
    Settles (c >>= k) fun files => result files >>= (outcome · files) := by
  intro s
  obtain ⟨lines, hlines⟩ := hc s
  show ∃ lines, _ = Session.settled s lines (result s.files >>= (outcome · s.files))
  rw [perform_bind, hlines]
  cases result s.files with
  | error failure => exact ⟨lines, rfl⟩
  | ok a =>
    obtain ⟨later, hlater⟩ := hk a (s.printing lines)
    refine ⟨lines ++ later, hlater.trans ?_⟩
    show Session.settled _ later (outcome a s.files) = Session.settled s _ (outcome a s.files)
    cases outcome a s.files <;> simp [Session.settled, Session.printing]

theorem Settles.print_bind {k : Unit → Command Unit} {outcome : Files → Except CommandFailure Files}
    (lines : List String) (hk : Settles (k ()) outcome) : Settles (print lines >>= k) outcome :=
  (prepares_print lines).settles_bind fun _ => hk

/-- What is printed in the end changes nothing. -/
theorem Settles.bind_print {c : Command Unit} {outcome : Files → Except CommandFailure Files}
    (hc : Settles c outcome) (lines : List String) :
    Settles (c >>= fun _ => print lines) outcome := by
  intro s
  obtain ⟨before, hbefore⟩ := hc s
  rw [perform_bind, hbefore]
  cases outcome s.files with
  | error failure => exact ⟨before, rfl⟩
  | ok files =>
    refine ⟨before ++ lines, ?_⟩
    simp only [Session.settled, Session.printing, ← List.append_assoc]
    rfl

/-! ## Calling the engine -/

/-- The command sends the body that is prepared from the files, and nothing where that fails. -/
def Posts (c : Command α) (body : Files → Except CommandFailure Json.Value) : Prop :=
  ∀ s, (perform c s).2.sent.map (·.body) =
    s.sent.map (·.body) ++ (body s.files).toOption.toList

theorem Prepares.posts_bind {result : Files → Except CommandFailure α}
    {body : α → Files → Except CommandFailure Json.Value} {k : α → Command β}
    (hc : Prepares c result) (hk : ∀ a, Posts (k a) (body a)) :
    Posts (c >>= k) fun files => result files >>= (body · files) := by
  intro s
  obtain ⟨lines, hlines⟩ := hc s
  show _ = _ ++ (result s.files >>= (body · s.files)).toOption.toList
  rw [perform_bind, hlines]
  cases result s.files with
  | error failure => exact (List.append_nil _).symm
  | ok a => exact hk a (s.printing lines)

theorem Posts.print_bind {k : Unit → Command α} {body : Files → Except CommandFailure Json.Value}
    (lines : List String) (hk : Posts (k ()) body) : Posts (print lines >>= k) body :=
  (prepares_print lines).posts_bind fun _ => hk

theorem prepares_connect (settings : EngineSettings) :
    Prepares (connect settings) fun _ => (Engine.ofSettings settings).mapError .settings :=
  (prepares_print _).bind fun _ => prepares_require _ _

theorem posts_call {exchange : Answer → Exchange α} {body : Json.Value}
    (h : ∀ answer, (exchange answer).sent.map (·.body) = [body]) (lines : α → List String) :
    Posts (call exchange >>= fun a => print (lines a)) fun _ => .ok body := by
  intro s
  have hsent : (perform (call exchange) s).2.sent = s.sent ++ (exchange s.nextAnswer).sent := by
    show (perform (require _ (exchange s.nextAnswer).outcome) _).2.sent = _
    cases (exchange s.nextAnswer).outcome <;> rfl
  have hbody : (perform (call exchange) s).2.sent.map (·.body) = s.sent.map (·.body) ++ [body] := by
    rw [hsent, List.map_append, h]
  rw [perform_bind]
  revert hbody
  rcases perform (call exchange) s with ⟨failure | a, s'⟩ <;> exact id

end Command

end QuantumWiring

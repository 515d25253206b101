import TsProject.Run

/-!
# What runs tell the host

Most steps of a run only write log records and note results: they leave the world and the
started processes alone, and all that the host gets of them is what they tell it. `Session.Tells`
says so of two sessions, `Run.Says` of a run that answers, and both go together along `>>=`
(`Says.bind`). The few steps that do more are followed with `Run.EndsIn`, which also covers runs
that end in a fault: it keeps the world that is left and the processes that have been started,
and forgets what has been told.
-/

namespace TsProject

/-- A message for the host. -/
def Event.told? : Event → Option (Bool × String)
  | .host isError text => some (isError, text)
  | .log _ => none

namespace Session

/-- **The messages** that the host has got, and whether they are errors. -/
def heard (s : Session) : List (Bool × String) := s.events.filterMap Event.told?

/-- **From one session to another**, the host is told some messages and nothing is done. -/
structure Tells (s s' : Session) (told : List (Bool × String)) : Prop where
  world : s'.world = s.world
  starts : s'.starts = s.starts
  heard : s'.heard = s.heard ++ told

/-- Where no event comes up, nothing is told. -/
theorem tells_nil {s s' : Session} (hworld : s'.world = s.world) (hstarts : s'.starts = s.starts)
    (hevents : s'.events = s.events) : s.Tells s' [] where
  world := hworld
  starts := hstarts
  heard := by rw [Session.heard, hevents, ← Session.heard, List.append_nil]

theorem Tells.refl (s : Session) : s.Tells s [] := tells_nil rfl rfl rfl

theorem Tells.trans {s s' s'' : Session} {first second : List (Bool × String)}
    (h : s.Tells s' first) (h' : s'.Tells s'' second) : s.Tells s'' (first ++ second) where
  world := h'.world.trans h.world
  starts := h'.starts.trans h.starts
  heard := by rw [h'.heard, h.heard, List.append_assoc]

end Session

namespace Run

variable {α β : Type} {s s' : Session}

/-! ### Steps of a run -/

theorem bind_of_ok {x : Run α} {a : α} (h : x s = (.ok a, s')) (f : α → Run β) :
    (x >>= f) s = f a s' := by
  simp only [bind, ExceptT.bind, ExceptT.mk, StateT.bind, h]
  rfl

theorem bind_of_error {x : Run α} {e : Fault} (h : x s = (.error e, s')) (f : α → Run β) :
    (x >>= f) s = (.error e, s') := by
  simp only [bind, ExceptT.bind, ExceptT.mk, StateT.bind, h]
  rfl

/-- A run that answers has answered at every step. -/
theorem exists_of_bind_eq_ok {x : Run α} {f : α → Run β} {b : β}
    (h : (x >>= f) s = (.ok b, s')) : ∃ a s₁, x s = (.ok a, s₁) ∧ f a s₁ = (.ok b, s') := by
  rcases hx : x s with ⟨_ | a, s₁⟩
  · rw [bind_of_error hx] at h
    cases (Prod.mk.inj h).1
  · exact ⟨a, s₁, rfl, (bind_of_ok hx f).symm.trans h⟩

/-- What comes after a step depends on how the step ends only. -/
theorem bind_congr_left {x y : Run α} (h : x s = y s') (f : α → Run β) :
    (x >>= f) s = (y >>= f) s' := by
  simp only [bind, ExceptT.bind, ExceptT.mk, StateT.bind, h]

/-- What a span makes of the end of a run. -/
def endSpan : Except Fault α × Session → Except Fault α × Session
  | (.ok a, s) => (.ok a, closeSpan .ok s)
  | (.error e, s) => (.error e, closeSpan (.fault e) s)

theorem withSpan_eq (name : String) (attributes : List (String × Attribute)) (body : Run α)
    (s : Session) :
    withSpan name attributes body s = endSpan (body (openSpan name attributes s)) := by
  rw [withSpan]
  rcases body (openSpan name attributes s) with ⟨_ | _, _⟩ <;> rfl

theorem exists_of_endSpan_eq_ok {r : Except Fault α × Session} {a : α}
    (h : endSpan r = (.ok a, s')) : ∃ s₁, r = (.ok a, s₁) := by
  obtain ⟨_ | b, s₁⟩ := r
  · cases (Prod.mk.inj h).1
  · obtain rfl := Except.ok.inj (Prod.mk.inj h).1
    exact ⟨s₁, rfl⟩

/-! ### Runs that tell -/

/-- **A run that answers** `a` and does nothing but tell the host some messages. -/
def Says (s : Session) (x : Run α) (told : List (Bool × String)) (a : α) : Prop :=
  ∃ s', x s = (.ok a, s') ∧ s.Tells s' told

theorem Says.pure (s : Session) (a : α) : Says s (pure a) [] a := ⟨s, rfl, .refl s⟩

/-- **One run after another** tells the messages of both. -/
theorem Says.bind {x : Run α} {f : α → Run β} {first second : List (Bool × String)} {a : α} {b : β}
    (h : Says s x first a) (h' : ∀ s', Says s' (f a) second b) :
    Says s (x >>= f) (first ++ second) b := by
  obtain ⟨s', hrun, htells⟩ := h
  obtain ⟨s'', hrun', htells'⟩ := h' s'
  exact ⟨s'', (bind_of_ok hrun f).trans hrun', htells.trans htells'⟩

/-- Looking at the world tells nothing. -/
theorem Says.world_bind {f : World → Run β} {told : List (Bool × String)} {b : β}
    (h : Says s (f s.world) told b) : Says s (world >>= f) told b := by
  obtain ⟨s', hrun, htells⟩ := h
  exact ⟨s', (bind_of_ok rfl f).trans hrun, htells⟩

theorem says_log (s : Session) (level : LogLevel) (event : String) (fields : Fields) :
    Says s (log level event fields) [] () := by
  refine ⟨_, rfl, rfl, rfl, ?_⟩
  simp [Session.heard, Event.told?]

theorem says_logInfo (s : Session) (text : String) : Says s (logInfo text) [(false, text)] () := by
  refine ⟨_, rfl, rfl, rfl, ?_⟩
  simp [Session.heard, Event.told?]

theorem says_logError (s : Session) (text : String) : Says s (logError text) [(true, text)] () := by
  refine ⟨_, rfl, rfl, rfl, ?_⟩
  simp [Session.heard, Event.told?]

theorem says_setAttributes (s : Session) (attributes : List (String × Attribute)) :
    Says s (setAttributes attributes) [] () := by
  refine ⟨_, rfl, ?_⟩
  dsimp only
  split
  · exact .refl s
  · exact Session.tells_nil rfl rfl rfl

theorem tells_openSpan (name : String) (attributes : List (String × Attribute)) (s : Session) :
    s.Tells (openSpan name attributes s) [] := Session.tells_nil rfl rfl rfl

theorem tells_closeSpan (status : SpanStatus) (s : Session) :
    s.Tells (closeSpan status s) [] := by
  rw [closeSpan]
  split
  · exact .refl s
  · exact Session.tells_nil rfl rfl rfl

/-- **Ending a span tells nothing** besides what its body tells. -/
theorem Says.endSpan {body : Run α} {told : List (Bool × String)} {a : α}
    (h : Says s body told a) : ∃ s', endSpan (body s) = (.ok a, s') ∧ s.Tells s' told := by
  obtain ⟨s', hrun, htells⟩ := h
  refine ⟨closeSpan .ok s', by rw [hrun, Run.endSpan], ?_⟩
  have htrans := htells.trans (tells_closeSpan .ok s')
  rwa [List.append_nil] at htrans

/-- Telling the host one message for each item of a list. -/
theorem says_forM {ι : Type} {told : ι → Bool × String} {x : ι → Run Unit}
    (h : ∀ s i, Says s (x i) [told i] ()) (s : Session) (is : List ι) :
    Says s (is.forM x) (is.map told) () := by
  induction is generalizing s with
  | nil => exact .pure s ()
  | cons i is ih => exact (h s i).bind fun s' => ih s'

/-! ### Runs that may end in a fault -/

/-- **How a run ends**: with an answer or a fault, in a world, and with some more processes
started. -/
def EndsIn (s : Session) (x : Run α) (r : Except Fault α) (w : World)
    (started : List ProcessStart) : Prop :=
  ∃ s', x s = (r, s') ∧ s'.world = w ∧ s'.starts = s.starts ++ started

section EndsIn

variable {x : Run α} {f : α → Run β} {r : Except Fault α} {r' : Except Fault β} {a : α} {e : Fault}
  {w w' : World} {started more : List ProcessStart}

/-- A run that only tells leaves the world as it is and starts nothing. -/
theorem Says.endsIn {told : List (Bool × String)} (h : Says s x told a) :
    EndsIn s x (.ok a) s.world [] := by
  obtain ⟨s', hrun, htells⟩ := h
  exact ⟨s', hrun, htells.world, by rw [htells.starts, List.append_nil]⟩

theorem endsIn_throw (s : Session) (e : Fault) :
    EndsIn s (throw e : Run α) (.error e) s.world [] :=
  ⟨s, rfl, rfl, (List.append_nil _).symm⟩

theorem endsIn_setWorld (s : Session) (w : World) : EndsIn s (setWorld w) (.ok ()) w [] :=
  ⟨_, rfl, rfl, (List.append_nil _).symm⟩

theorem endsIn_noteStart (s : Session) (start : ProcessStart) :
    EndsIn s (noteStart start) (.ok ()) s.world [start] := ⟨_, rfl, rfl, rfl⟩

/-- **One run after another**, of which the first starts nothing. -/
theorem EndsIn.bind (h : EndsIn s x (.ok a) w [])
    (h' : ∀ s', s'.world = w → EndsIn s' (f a) r' w' more) : EndsIn s (x >>= f) r' w' more := by
  obtain ⟨s₁, hrun, hworld, hstarts⟩ := h
  obtain ⟨s₂, hrun', hworld', hstarts'⟩ := h' s₁ hworld
  refine ⟨s₂, (bind_of_ok hrun f).trans hrun', hworld', ?_⟩
  rw [hstarts', hstarts, List.append_nil]

/-- **One run after another**, of which the second starts nothing. -/
theorem EndsIn.bind_idle (h : EndsIn s x (.ok a) w started)
    (h' : ∀ s', s'.world = w → EndsIn s' (f a) r' w' []) : EndsIn s (x >>= f) r' w' started := by
  obtain ⟨s₁, hrun, hworld, hstarts⟩ := h
  obtain ⟨s₂, hrun', hworld', hstarts'⟩ := h' s₁ hworld
  exact ⟨s₂, (bind_of_ok hrun f).trans hrun', hworld', by rw [hstarts', List.append_nil, hstarts]⟩

/-- A fault ends all. -/
theorem EndsIn.bind_error (h : EndsIn s x (.error e) w started) :
    EndsIn s (x >>= f) (.error e) w started := by
  obtain ⟨s', hrun, hworld, hstarts⟩ := h
  exact ⟨s', bind_of_error hrun f, hworld, hstarts⟩

/-- Looking at the world changes nothing. -/
theorem EndsIn.world_bind {f : World → Run β} (h : EndsIn s (f s.world) r' w' more) :
    EndsIn s (Run.world >>= f) r' w' more := by
  obtain ⟨s', hrun, hends⟩ := h
  exact ⟨s', (bind_of_ok rfl f).trans hrun, hends⟩

/-- Answering with what is there changes nothing. -/
theorem EndsIn.ofExcept_bind (h : EndsIn s (f a) r' w' more) :
    EndsIn s (ofExcept (.ok a) >>= f) r' w' more := by
  obtain ⟨s', hrun, hends⟩ := h
  exact ⟨s', (bind_of_ok rfl f).trans hrun, hends⟩

/-- **What is done in any case** leaves the answer or the fault as it is, unless it ends in one
itself. -/
theorem EndsIn.ensuring {last : Run Unit} (h : EndsIn s x r w started)
    (hlast : ∀ s', s'.world = w → EndsIn s' last (.ok ()) w' []) :
    EndsIn s (Run.ensuring x last) r w' started := by
  obtain ⟨s₁, hrun, hworld, hstarts⟩ := h
  obtain ⟨s₂, hrun', hworld', hstarts'⟩ := hlast s₁ hworld
  refine ⟨s₂, ?_, hworld', by rw [hstarts', hstarts, List.append_nil]⟩
  simp only [Run.ensuring, hrun, hrun']

/-- **A span changes nothing**: its body is run in a session that differs in the open spans only,
and the run ends as the body does. -/
theorem exists_endsIn_withSpan (s : Session) (name : String)
    (attributes : List (String × Attribute)) :
    ∃ opened : Session, opened.world = s.world ∧
      ∀ {x : Run α} {r : Except Fault α} {w : World} {started : List ProcessStart},
        EndsIn opened x r w started → EndsIn s (withSpan name attributes x) r w started := by
  refine ⟨openSpan name attributes s, rfl, ?_⟩
  rintro x r w started ⟨s', hrun, hworld, hstarts⟩
  have hclosed := fun status => tells_closeSpan status s'
  rw [EndsIn, withSpan_eq, hrun]
  cases r with
  | ok a => exact ⟨_, rfl, (hclosed .ok).world.trans hworld, (hclosed .ok).starts.trans hstarts⟩
  | error e =>
    exact ⟨_, rfl, (hclosed (.fault e)).world.trans hworld,
      (hclosed (.fault e)).starts.trans hstarts⟩

end EndsIn

end Run

end TsProject

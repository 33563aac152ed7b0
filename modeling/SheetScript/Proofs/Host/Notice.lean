import SheetScript.Host.Event

/-!
# When the host is told

What the handling of an event asks of the host, and what it answers. The host may do anything in
each of its steps, on a state of its own.

* `Host.traced` is a host that notes the calls made to it and otherwise does what the host does.
* `Occurrence` is an event of an action or of an item.
* `Occurrence.Finds`, `Occurrence.Asks` and `Occurrence.Replies` say how far the host's answers let
  the handling of an event come.
* `Occurrence.Course` lists the courses that the handling may take, each with the calls made and the
  result. There is one for every host and state (`Occurrence.exists_course`), and it is the one that
  is taken (`Occurrence.Course.handle_eq`).
* `Occurrence.told_exactly_when_due` is what follows for the calls and the results.
-/

namespace SheetScript

variable {σ : Type}

/-! ## A host that notes its calls -/

/-- A call to the host. -/
inductive HostCall where
  | action (id : String)
  | item (id : String)
  | script (id : String)
  | charts (rulesetId : String)
  | run (request : RunRequest)
  | notify (modified : List String) (characterId rulesetId : String)

namespace HostCall

/-- The call runs a script. -/
def runs : HostCall → Bool
  | run _ => true
  | _ => false

/-- The call gives notice of attributes. -/
def notifies : HostCall → Bool
  | notify _ _ _ => true
  | _ => false

end HostCall

/-- A result with the calls that have been made. -/
def noting {α : Type} (calls : List HostCall) :
    EStateM.Result EventError σ α → EStateM.Result EventError (σ × List HostCall) α
  | .ok a s => .ok a (s, calls)
  | .error e s => .error e (s, calls)

theorem noting_inj {α : Type} {calls calls' : List HostCall}
    {result result' : EStateM.Result EventError σ α}
    (h : noting calls result = noting calls' result') : calls = calls' ∧ result = result' := by
  cases result <;> cases result' <;> cases h <;> exact ⟨rfl, rfl⟩

/-- A step that notes a call. -/
def HostCall.note {α : Type} (call : HostCall) (act : HostAct σ α) :
    HostAct (σ × List HostCall) α := fun (s, calls) => noting (calls ++ [call]) (act s)

/-- The host that notes the calls made to it. -/
def Host.traced (host : Host σ) : Host (σ × List HostCall) where
  action? id := (HostCall.action id).note (host.action? id)
  item? id := (HostCall.item id).note (host.item? id)
  script? id := (HostCall.script id).note (host.script? id)
  charts rulesetId := (HostCall.charts rulesetId).note (host.charts rulesetId)
  run request := (HostCall.run request).note (host.run request)
  notify modified characterId rulesetId :=
    (HostCall.notify modified characterId rulesetId).note
      (host.notify modified characterId rulesetId)

/-! ## Events -/

/-- Something happens to an action, in a context, or to an item. -/
inductive Occurrence where
  | action (id : String) (context : Option Json)
  | item (id : String)

namespace Occurrence

/-- Handle an event. -/
def handle (host : Host σ) (ids : IdSource) (characterId event : String) :
    Occurrence → HostAct σ (EventOutcome × IdSource)
  | action id context => Handler.actionEvent host ids id characterId context event
  | item id => Handler.itemEvent host ids id characterId event

/-- Look up what the event is about. -/
def target? (host : Host σ) : Occurrence → HostAct σ (Option EventTarget)
  | action id _ => do return (← host.action? id).map fun a => ⟨a.rulesetId, a.scriptId⟩
  | item id => do return (← host.item? id).map fun i => ⟨i.rulesetId, i.scriptId⟩

/-- The call by which it is looked up. -/
def call : Occurrence → HostCall
  | action id _ => .action id
  | item id => .item id

/-- The arguments of the function for the event. -/
def args : Occurrence → List Json
  | action _ context => context.toList
  | item _ => []

/-! ## What the host answers -/

section

variable (o : Occurrence) (host : Host σ) (characterId event : String) (s : σ)

/-- The action or item exists and names a script, and the script exists. -/
inductive Finds : EventTarget → String → Script → σ → Prop
  | intro {target : EventTarget} {id : String} {script : Script} {s₁ s₂ : σ} :
    o.target? host s = .ok (some target) s₁ → target.scriptId = some id →
    host.script? id s₁ = .ok (some script) s₂ → Finds target id script s₂

/-- The script is enabled, and the charts of the ruleset are there: the request can be made. -/
inductive Asks : EventTarget → String → RunRequest → σ → Prop
  | intro {target : EventTarget} {id : String} {script : Script} {charts : List Chart}
    {s₁ s₂ : σ} :
    o.Finds host s target id script s₁ → script.enabled →
    host.charts target.rulesetId s₁ = .ok charts s₂ →
    Asks target id ⟨script, some event, some characterId, o.args, charts⟩ s₂

/-- The request has a reply. -/
inductive Replies : EventTarget → String → RunRequest → RunReply → σ → Prop
  | intro {target : EventTarget} {id : String} {request : RunRequest} {reply : RunReply}
    {s₁ s₂ : σ} :
    o.Asks host characterId event s target id request s₁ → host.run request s₁ = .ok reply s₂ →
    Replies target id request reply s₂

/-- The calls of the look-ups before a request. -/
def lookUps (target : EventTarget) (id : String) : List HostCall :=
  [o.call, .script id, .charts target.rulesetId]

/-- The courses that the handling of an event may take, with the calls that are made to the host and
the result. -/
inductive Course (ids : IdSource) : List HostCall →
    EStateM.Result EventError σ (EventOutcome × IdSource) → Prop
  | entityFails {e s'} : o.target? host s = .error e s' → Course ids [o.call] (.error e s')
  | noEntity {s'} : o.target? host s = .ok none s' → Course ids [o.call] (.ok (.noEntity, ids) s')
  | unnamed {target : EventTarget} {s'} :
    o.target? host s = .ok (some target) s' → target.scriptId = none →
    Course ids [o.call] (.ok (.noScript, ids) s')
  | scriptFails {target : EventTarget} {id e s₁ s'} :
    o.target? host s = .ok (some target) s₁ → target.scriptId = some id →
    host.script? id s₁ = .error e s' → Course ids [o.call, .script id] (.error e s')
  | noScript {target : EventTarget} {id s₁ s'} :
    o.target? host s = .ok (some target) s₁ → target.scriptId = some id →
    host.script? id s₁ = .ok none s' →
    Course ids [o.call, .script id] (.ok (.noScript, ids) s')
  | disabled {target id script s'} :
    o.Finds host s target id script s' → script.enabled = false →
    Course ids [o.call, .script id] (.ok (.disabled, ids) s')
  | chartsFail {target id script e s₁ s'} :
    o.Finds host s target id script s₁ → script.enabled →
    host.charts target.rulesetId s₁ = .error e s' →
    Course ids (o.lookUps target id) (.error e s')
  | runFails {target id request e s₁ s'} :
    o.Asks host characterId event s target id request s₁ → host.run request s₁ = .error e s' →
    Course ids (o.lookUps target id ++ [.run request]) (.error e s')
  | failed {target id request reply err s'} :
    o.Replies host characterId event s target id request reply s' → reply.error = some err →
    Course ids (o.lookUps target id ++ [.run request])
      (.ok (.failed ⟨(ids.next ErrorReport.stem).1, id, some characterId, err.message, err.line,
        ErrorReport.traceText err.trace⟩, (ids.next ErrorReport.stem).2) s')
  | unchanged {target id request reply s'} :
    o.Replies host characterId event s target id request reply s' → reply.error = none →
    reply.modified.getD [] = [] →
    Course ids (o.lookUps target id ++ [.run request]) (.ok (.completed [], ids) s')
  | told {target id request reply modified s₁ s'} :
    o.Replies host characterId event s target id request reply s₁ → reply.error = none →
    reply.modified = some modified → modified ≠ [] →
    host.notify modified characterId target.rulesetId s₁ = .ok () s' →
    Course ids (o.lookUps target id ++
        [.run request, .notify modified characterId target.rulesetId])
      (.ok (.completed modified, ids) s')
  | refused {target id request reply modified e text s₁ s'} :
    o.Replies host characterId event s target id request reply s₁ → reply.error = none →
    reply.modified = some modified → modified ≠ [] →
    host.notify modified characterId target.rulesetId s₁ = .error e s' →
    Handler.asCallback e = .callback text →
    Course ids (o.lookUps target id ++
        [.run request, .notify modified characterId target.rulesetId])
      (.error (.callback text) s')

end

variable {o : Occurrence} {host : Host σ} {characterId event : String} {s : σ} {ids : IdSource}

theorem handle_eq (o : Occurrence) (host : Host σ) (ids : IdSource) (characterId event : String) :
    o.handle host ids characterId event = (do
      match ← o.target? host with
      | none => return (.noEntity, ids)
      | some target => Handler.handle host ids target characterId event o.args) := by
  cases o with
  | action id context =>
    simp only [handle, target?, Handler.actionEvent, bind_assoc, pure_bind]
    congr 1
    funext found
    cases found <;> rfl
  | item id =>
    simp only [handle, target?, Handler.itemEvent, bind_assoc, pure_bind]
    congr 1
    funext found
    cases found <;> rfl

/-! ## A course is the one that is taken -/

theorem bind_ok {α β : Type} {act : HostAct σ α} {next : α → HostAct σ β} {s s' : σ} {a : α}
    (h : act s = .ok a s') : (act >>= next) s = next a s' := by
  simp [bind, EStateM.bind, h]

theorem bind_error {α β : Type} {act : HostAct σ α} {next : α → HostAct σ β} {s s' : σ}
    {e : EventError} (h : act s = .error e s') : (act >>= next) s = .error e s' := by
  simp [bind, EStateM.bind, h]

theorem handle_of_target {target : EventTarget} {s' : σ}
    (h : o.target? host s = .ok (some target) s') :
    o.handle host ids characterId event s =
      Handler.handle host ids target characterId event o.args s' := by
  rw [handle_eq, bind_ok h]

theorem handle_of_named {target : EventTarget} {id : String} (named : target.scriptId = some id)
    {args : List Json} :
    Handler.handle host ids target characterId event args = (do
      match ← host.script? id with
      | none => return (.noScript, ids)
      | some script =>
        if script.enabled then Handler.runFor host ids target script characterId event args
        else return (.disabled, ids)) := by
  obtain ⟨rulesetId, scriptId⟩ := target
  obtain rfl : scriptId = some id := named
  rfl

theorem Finds.handle_eq {target : EventTarget} {id : String} {script : Script} {s' : σ}
    (h : o.Finds host s target id script s') :
    o.handle host ids characterId event s =
      if script.enabled then Handler.runFor host ids target script characterId event o.args s'
      else .ok (.disabled, ids) s' := by
  obtain ⟨entity, named, found⟩ := h
  rw [handle_of_target entity, handle_of_named named, bind_ok found]
  dsimp only
  cases enabled : script.enabled with
  | true => rfl
  | false => rfl

/-- What a reply leads to. -/
def answer (host : Host σ) (ids : IdSource) (target : EventTarget) (characterId : String)
    (reply : RunReply) : HostAct σ (EventOutcome × IdSource) := do
  match reply.error with
  | some e =>
    let (report, ids) := ErrorReport.new ids (target.scriptId.getD "") (some characterId) e.message
      e.line e.trace
    return (.failed report, ids)
  | none =>
    let modified := reply.modified.getD []
    Handler.tell host modified characterId target.rulesetId
    return (.completed modified, ids)

theorem Asks.handle_eq {target : EventTarget} {id : String} {request : RunRequest} {s' : σ}
    (h : o.Asks host characterId event s target id request s') :
    o.handle host ids characterId event s =
      (host.run request >>= answer host ids target characterId) s' := by
  obtain ⟨finds, enabled, charts⟩ := h
  rw [finds.handle_eq, if_pos enabled, Handler.runFor, bind_ok charts]
  rfl

theorem Asks.named {target : EventTarget} {id : String} {request : RunRequest} {s' : σ}
    (h : o.Asks host characterId event s target id request s') : target.scriptId = some id := by
  obtain ⟨⟨-, named, -⟩, -, -⟩ := h
  exact named

theorem Replies.handle_eq {target : EventTarget} {id : String} {request : RunRequest}
    {reply : RunReply} {s' : σ}
    (h : o.Replies host characterId event s target id request reply s') :
    o.handle host ids characterId event s = answer host ids target characterId reply s' := by
  obtain ⟨asks, ran⟩ := h
  rw [asks.handle_eq, bind_ok ran]

/-- **A course is the one that is taken.** -/
theorem Course.handle_eq {calls : List HostCall}
    {result : EStateM.Result EventError σ (EventOutcome × IdSource)}
    (h : o.Course host characterId event s ids calls result) :
    o.handle host ids characterId event s = result := by
  cases h with
  | entityFails entity => rw [Occurrence.handle_eq, bind_error entity]
  | noEntity entity => rw [Occurrence.handle_eq, bind_ok entity]; rfl
  | unnamed entity unnamed => rw [handle_of_target entity, Handler.handle, unnamed]; rfl
  | scriptFails entity named script =>
    rw [handle_of_target entity, handle_of_named named, bind_error script]
  | noScript entity named script =>
    rw [handle_of_target entity, handle_of_named named, bind_ok script]
    rfl
  | disabled finds disabled => rw [finds.handle_eq, if_neg (by simp [disabled])]
  | chartsFail finds enabled charts =>
    rw [finds.handle_eq, if_pos enabled, Handler.runFor, bind_error charts]
  | runFails asks ran => rw [asks.handle_eq, bind_error ran]
  | failed replies failed =>
    rw [replies.handle_eq, answer, failed]
    obtain ⟨asks, -⟩ := replies
    rw [asks.named]
    rfl
  | unchanged replies ok unchanged =>
    rw [replies.handle_eq, answer, ok, unchanged]
    rfl
  | @told target _ _ _ modified s₁ s' replies ok written changed told =>
    have tell : Handler.tell host modified characterId target.rulesetId s₁ = .ok () s' := by
      rw [Handler.tell, if_neg (by simpa using changed), told]
    rw [replies.handle_eq, answer, ok, written]
    exact bind_ok tell
  | @refused target _ _ _ modified e _ s₁ s' replies ok written changed refused text =>
    have tell : Handler.tell host modified characterId target.rulesetId s₁ =
        .error (Handler.asCallback e) s' := by
      rw [Handler.tell, if_neg (by simpa using changed), refused]
    rw [replies.handle_eq, answer, ok, written, ← text]
    exact bind_error tell

/-! ## Noting the calls does not change the course -/

theorem note_ok {α : Type} {act : HostAct σ α} {a : α} {s s' : σ} (call : HostCall)
    (calls : List HostCall) (h : act s = .ok a s') :
    call.note act (s, calls) = .ok a (s', calls ++ [call]) := by
  simp [HostCall.note, noting, h]

theorem note_error {α : Type} {act : HostAct σ α} {e : EventError} {s s' : σ} (call : HostCall)
    (calls : List HostCall) (h : act s = .error e s') :
    call.note act (s, calls) = .error e (s', calls ++ [call]) := by
  simp [HostCall.note, noting, h]

theorem note_map {α β : Type} (call : HostCall) (act : HostAct σ α) (f : α → β) :
    (do return f (← call.note act)) = call.note (do return f (← act)) := by
  funext step
  simp only [bind, EStateM.bind, HostCall.note]
  cases act step.1 with
  | ok a s' => rfl
  | error e s' => rfl

theorem target?_traced (o : Occurrence) (host : Host σ) :
    o.target? host.traced = o.call.note (o.target? host) := by
  cases o with
  | action id context => exact note_map ..
  | item id => exact note_map ..

variable {before : List HostCall}

theorem target?_traced_ok {found : Option EventTarget} {s' : σ}
    (h : o.target? host s = .ok found s') :
    o.target? host.traced (s, before) = .ok found (s', before ++ [o.call]) := by
  rw [target?_traced]
  exact note_ok _ _ h

theorem Finds.traced {target : EventTarget} {id : String} {script : Script} {s' : σ}
    (h : o.Finds host s target id script s') :
    o.Finds host.traced (s, before) target id script (s', before ++ [o.call, .script id]) := by
  obtain ⟨entity, named, found⟩ := h
  have found' := note_ok (.script id) (before ++ [o.call]) found
  rw [List.append_assoc] at found'
  exact .intro (target?_traced_ok entity) named found'

theorem Asks.traced {target : EventTarget} {id : String} {request : RunRequest} {s' : σ}
    (h : o.Asks host characterId event s target id request s') :
    o.Asks host.traced characterId event (s, before) target id request
      (s', before ++ o.lookUps target id) := by
  obtain ⟨finds, enabled, charts⟩ := h
  have charts' := note_ok (.charts target.rulesetId) (before ++ [o.call, .script id]) charts
  rw [List.append_assoc] at charts'
  exact .intro finds.traced enabled charts'

theorem Replies.traced {target : EventTarget} {id : String} {request : RunRequest}
    {reply : RunReply} {s' : σ}
    (h : o.Replies host characterId event s target id request reply s') :
    o.Replies host.traced characterId event (s, before) target id request reply
      (s', before ++ (o.lookUps target id ++ [.run request])) := by
  obtain ⟨asks, ran⟩ := h
  have ran' := note_ok (.run request) (before ++ o.lookUps target id) ran
  rw [List.append_assoc] at ran'
  exact .intro asks.traced ran'

/-- **Noting the calls does not change the course**, and the calls noted are those of the course. -/
theorem Course.traced {calls : List HostCall}
    {result : EStateM.Result EventError σ (EventOutcome × IdSource)}
    (h : o.Course host characterId event s ids calls result) :
    o.Course host.traced characterId event (s, before) ids calls
      (noting (before ++ calls) result) := by
  cases h with
  | entityFails entity =>
    refine .entityFails ?_
    rw [target?_traced]
    exact note_error _ _ entity
  | noEntity entity => exact .noEntity (target?_traced_ok entity)
  | unnamed entity unnamed => exact .unnamed (target?_traced_ok entity) unnamed
  | @scriptFails _ id _ _ _ entity named script =>
    have script' := note_error (.script id) (before ++ [o.call]) script
    rw [List.append_assoc] at script'
    exact .scriptFails (target?_traced_ok entity) named script'
  | @noScript _ id _ _ entity named script =>
    have script' := note_ok (.script id) (before ++ [o.call]) script
    rw [List.append_assoc] at script'
    exact .noScript (target?_traced_ok entity) named script'
  | disabled finds disabled => exact .disabled finds.traced disabled
  | @chartsFail target id _ _ _ _ finds enabled charts =>
    have charts' := note_error (.charts target.rulesetId) (before ++ [o.call, .script id]) charts
    rw [List.append_assoc] at charts'
    exact .chartsFail finds.traced enabled charts'
  | @runFails target id request _ _ _ asks ran =>
    have ran' := note_error (.run request) (before ++ o.lookUps target id) ran
    rw [List.append_assoc] at ran'
    exact .runFails asks.traced ran'
  | failed replies failed => exact .failed replies.traced failed
  | unchanged replies ok unchanged => exact .unchanged replies.traced ok unchanged
  | @told target id request _ modified _ _ replies ok written changed told =>
    have told' := note_ok (.notify modified characterId target.rulesetId)
      (before ++ (o.lookUps target id ++ [.run request])) told
    rw [List.append_assoc, List.append_assoc] at told'
    exact .told replies.traced ok written changed told'
  | @refused target id request _ modified _ _ _ _ replies ok written changed refused text =>
    have refused' := note_error (.notify modified characterId target.rulesetId)
      (before ++ (o.lookUps target id ++ [.run request])) refused
    rw [List.append_assoc, List.append_assoc] at refused'
    exact .refused replies.traced ok written changed refused' text

theorem exists_asCallback (e : EventError) : ∃ text, Handler.asCallback e = .callback text := by
  cases e with
  | store text => exact ⟨_, rfl⟩
  | runner text => exact ⟨_, rfl⟩
  | callback text => exact ⟨_, rfl⟩

/-- When there is something to tell, the host is told. -/
theorem exists_course_of_due (ids : IdSource) {target : EventTarget} {id : String} {request : RunRequest}
    {reply : RunReply} {modified : List String} {s' : σ}
    (h : o.Replies host characterId event s target id request reply s') (ok : reply.error = none)
    (written : reply.modified = some modified) (changed : modified ≠ []) :
    ∃ result, o.Course host characterId event s ids
      (o.lookUps target id ++ [.run request, .notify modified characterId target.rulesetId])
      result := by
  cases told : host.notify modified characterId target.rulesetId s' with
  | ok done s'' => exact ⟨_, .told h ok written changed told⟩
  | error e s'' =>
    obtain ⟨text, callback⟩ := exists_asCallback e
    exact ⟨_, .refused h ok written changed told callback⟩

/-- When a request can be made, it is made. -/
theorem exists_course_of_asks (ids : IdSource) {target : EventTarget} {id : String}
    {request : RunRequest} {s' : σ}
    (h : o.Asks host characterId event s target id request s') :
    ∃ calls result, .run request ∈ calls ∧ o.Course host characterId event s ids calls result := by
  have made : ∀ more, .run request ∈ o.lookUps target id ++ .run request :: more := by simp
  cases ran : host.run request s' with
  | error e s'' => exact ⟨_, _, made _, .runFails h ran⟩
  | ok reply s'' =>
    have replies := Replies.intro h ran
    cases failed : reply.error with
    | some err => exact ⟨_, _, made _, .failed replies failed⟩
    | none =>
      by_cases changed : reply.modified.getD [] = []
      · exact ⟨_, _, made _, .unchanged replies failed changed⟩
      · cases written : reply.modified with
        | none => exact absurd (by rw [written]; rfl) changed
        | some modified =>
          rw [written] at changed
          obtain ⟨result, course⟩ := exists_course_of_due ids replies failed written changed
          exact ⟨_, _, made _, course⟩

/-- **For every host and state there is a course.** -/
theorem exists_course (o : Occurrence) (host : Host σ) (characterId event : String) (s : σ)
    (ids : IdSource) : ∃ calls result, o.Course host characterId event s ids calls result := by
  cases entity : o.target? host s with
  | error e s' => exact ⟨_, _, .entityFails entity⟩
  | ok found s₁ =>
    cases found with
    | none => exact ⟨_, _, .noEntity entity⟩
    | some target =>
      cases named : target.scriptId with
      | none => exact ⟨_, _, .unnamed entity named⟩
      | some id =>
        cases script : host.script? id s₁ with
        | error e s' => exact ⟨_, _, .scriptFails entity named script⟩
        | ok found s₂ =>
          cases found with
          | none => exact ⟨_, _, .noScript entity named script⟩
          | some script' =>
            have finds := Finds.intro entity named script
            cases enabled : script'.enabled with
            | false => exact ⟨_, _, .disabled finds enabled⟩
            | true =>
              cases charts : host.charts target.rulesetId s₂ with
              | error e s' => exact ⟨_, _, .chartsFail finds enabled charts⟩
              | ok list s₃ =>
                obtain ⟨calls, result, -, course⟩ :=
                  exists_course_of_asks ids (.intro finds enabled charts)
                exact ⟨calls, result, course⟩

/-! ## What a course says -/

section

variable {calls calls' : List HostCall}
  {result result' : EStateM.Result EventError σ (EventOutcome × IdSource)}

theorem Course.handle_traced (h : o.Course host characterId event s ids calls result) :
    o.handle host.traced ids characterId event (s, []) = noting calls result := h.traced.handle_eq

/-- There is no other course. -/
theorem Course.unique (h : o.Course host characterId event s ids calls result)
    (h' : o.Course host characterId event s ids calls' result') :
    calls = calls' ∧ result = result' := noting_inj (h.handle_traced.symm.trans h'.handle_traced)

/-- At most one script is run, and the host is told at most once. -/
theorem Course.count_le (h : o.Course host characterId event s ids calls result) :
    calls.countP HostCall.runs ≤ 1 ∧ calls.countP HostCall.notifies ≤ 1 := by
  cases h <;> cases o <;>
    simp [lookUps, call, List.countP_cons, HostCall.runs, HostCall.notifies]

/-- The host is told of what a run without error has written. -/
theorem Course.due {modified : List String} {character ruleset : String}
    (h : o.Course host characterId event s ids calls result)
    (mem : .notify modified character ruleset ∈ calls) :
    character = characterId ∧ ∃ target id request reply s',
      o.Replies host characterId event s target id request reply s' ∧ reply.error = none ∧
        reply.modified = some modified ∧ modified ≠ [] ∧ ruleset = target.rulesetId := by
  have apart : .notify modified character ruleset ≠ o.call := by
    cases o <;> exact HostCall.noConfusion
  cases h with
  | told replies ok written changed | refused replies ok written changed =>
    simp only [lookUps, List.cons_append, List.nil_append, List.mem_cons, apart, reduceCtorEq,
      HostCall.notify.injEq, List.not_mem_nil, or_false, false_or] at mem
    obtain ⟨rfl, rfl, rfl⟩ := mem
    exact ⟨rfl, _, _, _, _, _, replies, ok, written, changed, rfl⟩
  | _ => simp [lookUps, apart] at mem

/-- A script is run when the request can be made. -/
theorem Course.asks {request : RunRequest}
    (h : o.Course host characterId event s ids calls result) (mem : .run request ∈ calls) :
    ∃ target id s', o.Asks host characterId event s target id request s' := by
  have apart : .run request ≠ o.call := by
    cases o <;> exact HostCall.noConfusion
  cases h with
  | runFails asks =>
    simp [lookUps, apart] at mem
    exact ⟨_, _, _, mem ▸ asks⟩
  | failed replies | unchanged replies | told replies | refused replies =>
    simp [lookUps, apart] at mem
    obtain ⟨asks, -⟩ := replies
    exact ⟨_, _, _, mem ▸ asks⟩
  | _ => simp [lookUps, apart] at mem

end

/-- **The host is told exactly when there is something to tell.** Whatever the host does in its
steps, an event of an action or item makes it take at most one notice. It takes one exactly if the
entity exists and names a script, the script exists and is enabled, the charts are found, the script
runs, and the reply has no error and names attributes; the notice names these, the character of the
event and the ruleset of the entity. At most one script is run, and one exactly if the request can
be made. The result is that of the one course that fits the host's answers: a failure of a look-up
or of the runner is passed on as it is, one of the notice as a failure of the notice, an error of
the script is reported, and else the attributes written are listed. -/
theorem told_exactly_when_due (host : Host σ) (o : Occurrence) (ids : IdSource)
    (characterId event : String) (s : σ) :
    ∃ calls, o.handle host.traced ids characterId event (s, []) =
        noting calls (o.handle host ids characterId event s) ∧
      (calls.countP HostCall.notifies ≤ 1 ∧ ∀ modified character ruleset,
        .notify modified character ruleset ∈ calls ↔
          character = characterId ∧ ∃ target id request reply s',
            o.Replies host characterId event s target id request reply s' ∧ reply.error = none ∧
              reply.modified = some modified ∧ modified ≠ [] ∧ ruleset = target.rulesetId) ∧
      (calls.countP HostCall.runs ≤ 1 ∧ ∀ request, .run request ∈ calls ↔
        ∃ target id s', o.Asks host characterId event s target id request s') ∧
      ∀ result, o.handle host ids characterId event s = result ↔
        o.Course host characterId event s ids calls result := by
  obtain ⟨calls, result, course⟩ := exists_course o host characterId event s ids
  refine ⟨calls, ?_, ⟨course.count_le.2, ?_⟩, ⟨course.count_le.1, ?_⟩, ?_⟩
  · rw [course.handle_eq]
    exact course.handle_traced
  · intro modified character ruleset
    refine ⟨course.due, ?_⟩
    rintro ⟨rfl, target, id, request, reply, s', replies, ok, written, changed, rfl⟩
    obtain ⟨result', told⟩ := exists_course_of_due ids replies ok written changed
    rw [(course.unique told).1]
    simp
  · intro request
    refine ⟨course.asks, ?_⟩
    rintro ⟨target, id, s', asks⟩
    obtain ⟨calls', result', mem, course'⟩ := exists_course_of_asks ids asks
    rwa [(course.unique course').1]
  · intro result'
    refine ⟨?_, Course.handle_eq⟩
    rintro rfl
    rwa [course.handle_eq]

end Occurrence

end SheetScript

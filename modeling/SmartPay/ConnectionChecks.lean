import SmartPay.ExchangeChecks

/-!
Several POST connections on the one HTTP thread. Whether a POST carried data is
kept in one flag for all of them, so a connection gets its own outcome only when
no other one has set or cleared the flag in between.
-/

namespace SmartPay

open CLib

structure ConnectionCall where
  connection : Nat
  call : Call
  locals : HandlerLocals

structure Connections where
  server : Server
  conCls : Nat → ConCls
  replies : List (Nat × Text)

namespace Connections

def start (mgr : EquipmentMgr) : Connections where
  server := { mgr := mgrInit mgr, postWithDataFlag := false }
  conCls := fun _ => .null
  replies := []

end Connections

def handle (url : Text) (state : Connections) (action : ConnectionCall) :
    Except Fault Connections := do
  let result ← answerToConnection action.locals url (lit "POST") action.call
    (state.conCls action.connection) state.server
  let replies := match result.answer with
    | .reply json => state.replies ++ [(action.connection, json)]
    | _ => state.replies
  .ok { server := result.server
        conCls := Function.update state.conCls action.connection result.conCls
        replies }

/-! What libmicrohttpd promises: a first call, at most one with data, a last one. -/

def callsOf (connection : Nat) (calls : List ConnectionCall) : List Call :=
  (calls.filter fun action => action.connection == connection).map ConnectionCall.call

def NextCall : List Call → Call → Prop
  | [], .first => True
  | [.first], .data uploadData => uploadData ≠ []
  | [.first], .last => True
  | [.first, .data _], .last => True
  | _, _ => False

def FollowsContract (before : List ConnectionCall) (action : ConnectionCall) : Prop :=
  NextCall (callsOf action.connection before) action.call

/-! The outcome of each connection alone. -/

/-- The service without the shared flag: a connection has the body of its own data call, and at its
last call that body is stored, or the reply says that there was none. -/
structure Isolated where
  bodies : Nat → Option Text
  texts : List Text
  replies : List (Nat × Text)

def isolatedStep (done : Isolated) (action : ConnectionCall) : Isolated :=
  match action.call with
  | .first => done
  | .data uploadData =>
      { done with
        bodies := Function.update done.bodies action.connection (some (Text.ofBytes uploadData)) }
  | .last =>
      match done.bodies action.connection with
      | none =>
          { done with replies := done.replies ++ [(action.connection, jsonPostWithNoData)] }
      | some body =>
          { done with
            texts := done.texts ++ [body]
            replies := done.replies ++ [(action.connection, postReply (done.texts.length + 1))] }

def isolated (calls : List ConnectionCall) : Isolated :=
  calls.foldl isolatedStep { bodies := fun _ => none, texts := [], replies := [] }

theorem isolated_snoc (calls : List ConnectionCall) (action : ConnectionCall) :
    isolated (calls ++ [action]) = isolatedStep (isolated calls) action := by
  simp only [isolated, List.foldl_append, List.foldl_cons, List.foldl_nil]

theorem isolated_replies_grow (calls rest : List ConnectionCall) :
    (isolated calls).replies <+: (isolated (calls ++ rest)).replies := by
  induction rest generalizing calls with
  | nil => simp
  | cons action rest ih =>
      have later := ih (calls ++ [action])
      rw [List.append_assoc, List.singleton_append] at later
      refine List.IsPrefix.trans ?_ later
      rw [isolated_snoc, isolatedStep]
      split
      · exact List.prefix_rfl
      · exact List.prefix_rfl
      · split
        · exact List.prefix_append _ _
        · exact List.prefix_append _ _

theorem handle_replies_grow {url : Text} {state next : Connections} {action : ConnectionCall}
    (done : handle url state action = .ok next) : state.replies <+: next.replies := by
  obtain ⟨result, _, done⟩ := bind_eq_ok.mp done
  cases done
  simp only
  split
  · exact List.prefix_append _ _
  · exact List.prefix_rfl

theorem run_replies_grow {url : Text} {state final : Connections} {calls : List ConnectionCall}
    (done : runFrom (handle url) state calls = .ok final) : state.replies <+: final.replies := by
  induction calls generalizing state with
  | nil =>
      cases done
      exact List.prefix_rfl
  | cons action rest ih =>
      obtain ⟨next, taken, later⟩ := bind_eq_ok.mp done
      exact (handle_replies_grow taken).trans (ih later)

/-! When a connection is left alone. -/

def ConnectionCall.CarriesData (action : ConnectionCall) : Prop :=
  ∃ uploadData, action.call = .data uploadData

def HasData (connection : Nat) (before : List ConnectionCall) : Prop :=
  ∃ action ∈ before, action.connection = connection ∧ action.CarriesData

/-- Some connection has made a call with data, and none has made its last call since. -/
def DataSinceLast (before : List ConnectionCall) : Prop :=
  ∃ front action back, before = front ++ action :: back ∧ action.CarriesData ∧
    ∀ other ∈ back, other.call ≠ .last

def Undisturbed (before : List ConnectionCall) (action : ConnectionCall) : Prop :=
  action.call = .last → (HasData action.connection before ↔ DataSinceLast before)

/-- The body of a connection at its last call fits the arrays, and its id an `int`. -/
def BodyFits (before : List ConnectionCall) (action : ConnectionCall) : Prop :=
  action.call = .last → ∀ body, (isolated before).bodies action.connection = some body →
    body.length < dataSize ∧ ((isolated before).texts.length : Int) < intMax

theorem good_of_ne {before : List ConnectionCall} {action : ConnectionCall}
    (notLast : action.call ≠ .last) : Undisturbed before action ∧ BodyFits before action :=
  ⟨fun last => absurd last notLast, fun last => absurd last notLast⟩

theorem hasData_snoc (connection : Nat) (before : List ConnectionCall) (action : ConnectionCall) :
    HasData connection (before ++ [action]) ↔
      HasData connection before ∨ action.connection = connection ∧ action.CarriesData := by
  simp only [HasData, List.mem_append, List.mem_singleton]
  constructor
  · rintro ⟨other, old | rfl, facts⟩
    · exact Or.inl ⟨other, old, facts⟩
    · exact Or.inr facts
  · rintro (⟨other, old, facts⟩ | facts)
    · exact ⟨other, Or.inl old, facts⟩
    · exact ⟨action, Or.inr rfl, facts⟩

theorem dataSinceLast_snoc (before : List ConnectionCall) (action : ConnectionCall) :
    DataSinceLast (before ++ [action]) ↔
      action.CarriesData ∨ action.call ≠ .last ∧ DataSinceLast before := by
  constructor
  · rintro ⟨front, found, back, split, data, quiet⟩
    rcases List.eq_nil_or_concat' back with rfl | ⟨middle, final, rfl⟩
    · obtain ⟨_, same⟩ := List.append_inj' split rfl
      cases same
      exact Or.inl data
    · have shape : before ++ [action] = (front ++ found :: middle) ++ [final] := by
        simpa using split
      obtain ⟨same, last⟩ := List.append_inj' shape rfl
      cases last
      refine Or.inr ⟨quiet action (by simp), front, found, middle, same, data, ?_⟩
      intro other member
      exact quiet other (by simp [member])
  · rintro (data | ⟨notLast, front, found, back, rfl, data, quiet⟩)
    · exact ⟨before, action, [], rfl, data, by simp⟩
    · refine ⟨front, found, back ++ [action], by simp, data, ?_⟩
      intro other member
      rcases List.mem_append.mp member with old | new
      · exact quiet other old
      · rw [List.mem_singleton.mp new]
        exact notLast

theorem isolated_bodies_iff (connection : Nat) (before : List ConnectionCall) :
    ((isolated before).bodies connection).isSome = true ↔ HasData connection before := by
  induction before using List.reverseRecOn with
  | nil => simp [isolated, HasData]
  | append_singleton before action ih =>
      rw [hasData_snoc, ← ih, isolated_snoc, isolatedStep]
      obtain ⟨owner, call, locals⟩ := action
      cases call with
      | first => simp [ConnectionCall.CarriesData]
      | data uploadData =>
          by_cases same : owner = connection
          · subst owner
            simp [ConnectionCall.CarriesData]
          · simp [ConnectionCall.CarriesData, Function.update_of_ne (Ne.symm same), same]
      | last =>
          simp only [ConnectionCall.CarriesData, reduceCtorEq, exists_false, and_false, or_false]
          split <;> rfl

theorem callsOf_snoc (connection : Nat) (before : List ConnectionCall) (action : ConnectionCall) :
    callsOf connection (before ++ [action]) =
      if action.connection = connection then callsOf connection before ++ [action.call]
      else callsOf connection before := by
  simp only [callsOf, List.filter_append, List.map_append]
  split
  · rename_i same
    simp [same]
  · rename_i different
    simp [different]

theorem isolatedStep_bodies_ne (done : Isolated) {action : ConnectionCall} {connection : Nat}
    (different : connection ≠ action.connection) :
    (isolatedStep done action).bodies connection = done.bodies connection := by
  simp only [isolatedStep]
  split
  · rfl
  · exact Function.update_of_ne different ..
  · split <;> rfl

/-! The server agrees with the service until a connection is disturbed. -/

/-- `*con_cls` of a connection that has made these calls, and the body it has handed over. -/
def ConClsAgrees : List Call → Option Text → ConCls → Prop
  | [], body, conCls => body = none ∧ conCls = .null
  | [.first], body, conCls => body = none ∧ conCls = .post { status := true, buff := none }
  | [.first, .data uploadData], body, conCls =>
      body = some (Text.ofBytes uploadData) ∧
        conCls = .post { status := true, buff := some (Text.ofBytes uploadData) }
  | _, _, _ => True

structure Agrees (before : List ConnectionCall) (state : Connections) : Prop where
  idle : Idle state.server.mgr (isolated before).texts
  replies : state.replies = (isolated before).replies
  flag : state.server.postWithDataFlag = true ↔ DataSinceLast before
  conCls : ∀ connection, ConClsAgrees (callsOf connection before)
    ((isolated before).bodies connection) (state.conCls connection)

theorem Agrees.start {mgr : EquipmentMgr} (running : mgr.sigEqMgrFlag = true) :
    Agrees [] (Connections.start mgr) := by
  refine ⟨Idle.mgrInit running, rfl, ?_, fun connection => ⟨rfl, rfl⟩⟩
  simp [Connections.start, DataSinceLast]

section Steps

variable {url : Text} {before : List ConnectionCall} {state : Connections}
  {connection : Nat} {locals : HandlerLocals}

theorem Agrees.snoc {action : ConnectionCall} {next : Connections} {own : ConCls}
    (agrees : Agrees before state)
    (idle : Idle next.server.mgr (isolated (before ++ [action])).texts)
    (replies : next.replies = (isolated (before ++ [action])).replies)
    (flag : next.server.postWithDataFlag = true ↔ DataSinceLast (before ++ [action]))
    (conCls : next.conCls = Function.update state.conCls action.connection own)
    (ownAgrees : ConClsAgrees (callsOf action.connection before ++ [action.call])
      ((isolated (before ++ [action])).bodies action.connection) own) :
    Agrees (before ++ [action]) next := by
  refine ⟨idle, replies, flag, ?_⟩
  intro connection
  rw [conCls, callsOf_snoc]
  by_cases same : action.connection = connection
  · subst connection
    rw [if_pos rfl, Function.update_self]
    exact ownAgrees
  · rw [if_neg same, Function.update_of_ne (Ne.symm same), isolated_snoc,
      isolatedStep_bodies_ne _ (Ne.symm same)]
    exact agrees.conCls connection

theorem handle_first (resource : strstr url terminalsResource = true)
    (passes : Passes locals url) (agrees : Agrees before state)
    (contract : NextCall (callsOf connection before) .first) :
    ∃ next, handle url state ⟨connection, .first, locals⟩ = .ok next ∧
      Agrees (before ++ [⟨connection, .first, locals⟩]) next := by
  have own := agrees.conCls connection
  have nothing : callsOf connection before = [] := by
    unfold NextCall at contract
    split at contract <;> simp_all
  rw [nothing] at own
  obtain ⟨noBody, null⟩ := own
  refine ⟨{ state with
    conCls := Function.update state.conCls connection (.post { status := true, buff := none }) },
    ?_, agrees.snoc ?_ ?_ ?_ rfl ?_⟩
  · simp only [handle, null, answerToConnection_post resource, answerPost_first passes, bind,
      Except.bind]
  · rw [isolated_snoc]
    exact agrees.idle
  · rw [isolated_snoc]
    exact agrees.replies
  · rw [dataSinceLast_snoc]
    simpa [ConnectionCall.CarriesData] using agrees.flag
  · rw [isolated_snoc, nothing]
    exact ⟨noBody, rfl⟩

theorem handle_data (resource : strstr url terminalsResource = true)
    (passes : Passes locals url) (agrees : Agrees before state) {uploadData : List UInt8}
    (contract : NextCall (callsOf connection before) (.data uploadData)) :
    ∃ next, handle url state ⟨connection, .data uploadData, locals⟩ = .ok next ∧
      Agrees (before ++ [⟨connection, .data uploadData, locals⟩]) next := by
  have own := agrees.conCls connection
  have begun : callsOf connection before = [.first] ∧ uploadData ≠ [] := by
    unfold NextCall at contract
    split at contract <;> simp_all
  rw [begun.1] at own
  obtain ⟨noBody, post⟩ := own
  refine ⟨{ state with
    server := { state.server with postWithDataFlag := true }
    conCls := Function.update state.conCls connection
      (.post { status := true, buff := some (Text.ofBytes uploadData) }) }, ?_,
    agrees.snoc ?_ ?_ ?_ rfl ?_⟩
  · simp only [handle, post, answerToConnection_post resource, answerPost_data passes begun.2, bind,
      Except.bind]
  · rw [isolated_snoc]
    exact agrees.idle
  · rw [isolated_snoc]
    exact agrees.replies
  · rw [dataSinceLast_snoc]
    simp [ConnectionCall.CarriesData]
  · rw [isolated_snoc, begun.1]
    simp [isolatedStep, ConClsAgrees]

theorem conCls_before_last (agrees : Agrees before state)
    (contract : NextCall (callsOf connection before) .last) :
    state.conCls connection =
      .post { status := true, buff := (isolated before).bodies connection } := by
  have own := agrees.conCls connection
  unfold NextCall at contract
  split at contract
  all_goals simp_all [ConClsAgrees]

theorem conClsAgrees_after_last {calls : List Call} (contract : NextCall calls .last)
    (body : Option Text) (conCls : ConCls) : ConClsAgrees (calls ++ [.last]) body conCls := by
  unfold NextCall at contract
  split at contract
  all_goals simp_all [ConClsAgrees]

theorem last_once {calls : List Call} (contract : NextCall calls .last) : Call.last ∉ calls := by
  unfold NextCall at contract
  split at contract
  all_goals simp_all

theorem not_dataSinceLast_last :
    ¬DataSinceLast (before ++ [⟨connection, .last, locals⟩]) := by
  rw [dataSinceLast_snoc]
  simp [ConnectionCall.CarriesData]

theorem isolatedStep_last_none {done : Isolated} (nothing : done.bodies connection = none) :
    isolatedStep done ⟨connection, .last, locals⟩ =
      { done with replies := done.replies ++ [(connection, jsonPostWithNoData)] } := by
  simp only [isolatedStep, nothing]

theorem isolatedStep_last_some {done : Isolated} {body : Text}
    (some : done.bodies connection = some body) :
    isolatedStep done ⟨connection, .last, locals⟩ =
      { done with
        texts := done.texts ++ [body]
        replies := done.replies ++ [(connection, postReply (done.texts.length + 1))] } := by
  simp only [isolatedStep, some]

theorem handle_last_noData (resource : strstr url terminalsResource = true)
    (passes : Passes locals url) (agrees : Agrees before state)
    (contract : NextCall (callsOf connection before) .last)
    (flag : state.server.postWithDataFlag = false) :
    handle url state ⟨connection, .last, locals⟩ = .ok {
      server := state.server
      conCls := Function.update state.conCls connection .dangling
      replies := state.replies ++ [(connection, jsonPostWithNoData)] } := by
  simp only [handle, conCls_before_last agrees contract, answerToConnection_post resource,
    answerPost_last passes, answerPostLast_noData flag, bind, Except.bind, sendResponse]

theorem handle_last_ok (resource : strstr url terminalsResource = true)
    (passes : Passes locals url) (agrees : Agrees before state)
    (contract : NextCall (callsOf connection before) .last)
    (undisturbed : HasData connection before ↔ DataSinceLast before)
    (fits : ∀ body, (isolated before).bodies connection = some body →
      body.length < dataSize ∧ ((isolated before).texts.length : Int) < intMax) :
    ∃ next, handle url state ⟨connection, .last, locals⟩ = .ok next ∧
      Agrees (before ++ [⟨connection, .last, locals⟩]) next := by
  rw [← agrees.flag, ← isolated_bodies_iff] at undisturbed
  cases own : (isolated before).bodies connection with
  | none =>
      have flag : state.server.postWithDataFlag = false := by simpa [own] using undisturbed
      refine ⟨_, handle_last_noData resource passes agrees contract flag,
        agrees.snoc ?_ ?_ ?_ rfl (conClsAgrees_after_last contract _ _)⟩
      · rw [isolated_snoc, isolatedStep_last_none own]
        exact agrees.idle
      · rw [isolated_snoc, isolatedStep_last_none own, ← agrees.replies]
      · exact iff_of_false (by simp [flag]) not_dataSinceLast_last
  | some body =>
      have flag : state.server.postWithDataFlag = true := by simpa [own] using undisturbed
      let post : PostStatus := { status := true, buff := some body }
      have collected : post.buff = some body := rfl
      have decided := answerPostLast_data agrees.idle flag collected locals .last
      rw [if_pos (fits body own)] at decided
      obtain ⟨mgr, stored, idle⟩ := decided
      have conCls := conCls_before_last agrees contract
      rw [own] at conCls
      refine ⟨{ server := { mgr, postWithDataFlag := false }
                conCls := Function.update state.conCls connection .dangling
                replies := state.replies ++
                  [(connection, postReply ((isolated before).texts.length + 1))] }, ?_,
        agrees.snoc ?_ ?_ ?_ rfl (conClsAgrees_after_last contract _ _)⟩
      · simp only [handle, conCls, answerToConnection_post resource, answerPost_last passes, bind,
          Except.bind]
        rw [show answerPostLast locals .last { status := true, buff := some body } state.server = _
          from stored]
        rfl
      · rw [isolated_snoc, isolatedStep_last_some own]
        exact idle
      · rw [isolated_snoc, isolatedStep_last_some own, ← agrees.replies]
      · exact iff_of_false (by simp) not_dataSinceLast_last

/-- A disturbed connection reads a pointer that was never set, or is told it had no data; a body
that does not fit overflows. -/
theorem handle_last_wrong (resource : strstr url terminalsResource = true)
    (passes : Passes locals url) (agrees : Agrees before state)
    (contract : NextCall (callsOf connection before) .last)
    (wrong : ¬((HasData connection before ↔ DataSinceLast before) ∧
      ∀ body, (isolated before).bodies connection = some body →
        body.length < dataSize ∧ ((isolated before).texts.length : Int) < intMax)) :
    (∃ fault, handle url state ⟨connection, .last, locals⟩ = .error fault) ∨
      ∃ next id, handle url state ⟨connection, .last, locals⟩ = .ok next ∧
        next.replies = state.replies ++ [(connection, jsonPostWithNoData)] ∧
        (isolated (before ++ [⟨connection, .last, locals⟩])).replies =
          state.replies ++ [(connection, postReply id)] := by
  rw [← agrees.flag, ← isolated_bodies_iff] at wrong
  have conCls := conCls_before_last agrees contract
  cases own : (isolated before).bodies connection with
  | none =>
      have flag : state.server.postWithDataFlag = true := by simpa [own] using wrong
      rw [own] at conCls
      refine Or.inl ⟨.uninitialised, ?_⟩
      simp only [handle, conCls, answerToConnection_post resource, answerPost_last passes,
        answerPostLast_uninitialised flag, bind, Except.bind]
  | some body =>
      rw [own] at conCls
      cases flag : state.server.postWithDataFlag with
      | false =>
          refine Or.inr ⟨_, (isolated before).texts.length + 1,
            handle_last_noData resource passes agrees contract flag, rfl, ?_⟩
          rw [isolated_snoc, isolatedStep_last_some own, ← agrees.replies]
      | true =>
          let post : PostStatus := { status := true, buff := some body }
          have collected : post.buff = some body := rfl
          have tooMuch : ¬(body.length < dataSize ∧
              ((isolated before).texts.length : Int) < intMax) := by
            intro fits
            apply wrong
            simp only [own, flag, Option.isSome_some, Option.some.injEq, true_and]
            rintro other rfl
            exact fits
          have decided := answerPostLast_data agrees.idle flag collected locals .last
          rw [if_neg tooMuch] at decided
          refine Or.inl ⟨postFault body, ?_⟩
          simp only [handle, conCls, answerToConnection_post resource, answerPost_last passes, bind,
            Except.bind]
          rw [show answerPostLast locals .last { status := true, buff := some body } state.server = _
            from decided]

end Steps

/-! Whole schedules. -/

theorem postReply_ne_noData (id : Int) : jsonPostWithNoData ≠ postReply id := by
  intro same
  have starts := wrapResponse_starts (lit "\"terminalID\": " ++ decimal id)
  rw [← postReply, ← same] at starts
  exact absurd starts (by decide)

theorem run_isolated_iff {url : Text} (resource : strstr url terminalsResource = true)
    {before schedule : List ConnectionCall} {state : Connections} (agrees : Agrees before state)
    (contract : AtEach FollowsContract before schedule)
    (passes : ∀ action ∈ schedule, Passes action.locals url) :
    (∃ final, runFrom (handle url) state schedule = .ok final ∧
      final.replies = (isolated (before ++ schedule)).replies ∧
      Stores final.server.mgr (isolated (before ++ schedule)).texts) ↔
      AtEach (fun before action => Undisturbed before action ∧ BodyFits before action) before
        schedule := by
  induction schedule generalizing before state with
  | nil =>
      rw [List.append_nil]
      exact iff_of_true ⟨state, rfl, agrees.replies, agrees.idle.store⟩ trivial
  | cons action rest ih =>
      obtain ⟨follows, later⟩ := contract
      have now := passes action (by simp)
      have soon : ∀ other ∈ rest, Passes other.locals url := by
        intro other member
        exact passes other (by simp [member])
      have whole : before ++ action :: rest = before ++ [action] ++ rest := by simp
      have continues {next : Connections} (taken : handle url state action = .ok next)
          (nextAgrees : Agrees (before ++ [action]) next)
          (good : Undisturbed before action ∧ BodyFits before action) :
          (∃ final, runFrom (handle url) state (action :: rest) = .ok final ∧
            final.replies = (isolated (before ++ action :: rest)).replies ∧
            Stores final.server.mgr (isolated (before ++ action :: rest)).texts) ↔
          AtEach (fun before action => Undisturbed before action ∧ BodyFits before action) before
            (action :: rest) := by
        rw [AtEach, and_iff_right good, ← ih nextAgrees later soon, whole]
        simp only [runFrom, taken, bind, Except.bind]
      obtain ⟨connection, call, locals⟩ := action
      cases call with
      | first =>
          obtain ⟨next, taken, nextAgrees⟩ := handle_first resource now agrees follows
          exact continues taken nextAgrees (good_of_ne (by simp))
      | data uploadData =>
          obtain ⟨next, taken, nextAgrees⟩ := handle_data resource now agrees follows
          exact continues taken nextAgrees (good_of_ne (by simp))
      | last =>
          by_cases good : (HasData connection before ↔ DataSinceLast before) ∧
              ∀ body, (isolated before).bodies connection = some body →
                body.length < dataSize ∧ ((isolated before).texts.length : Int) < intMax
          · obtain ⟨next, taken, nextAgrees⟩ :=
              handle_last_ok resource now agrees follows good.1 good.2
            exact continues taken nextAgrees ⟨fun _ => good.1, fun _ => good.2⟩
          · refine iff_of_false ?_ fun all => good ⟨all.1.1 rfl, all.1.2 rfl⟩
            rintro ⟨final, done, replies, _⟩
            obtain ⟨next, taken, after⟩ := bind_eq_ok.mp done
            rcases handle_last_wrong resource now agrees follows good with
              ⟨fault, failed⟩ | ⟨other, id, otherTaken, told, expected⟩
            · rw [failed] at taken
              cases taken
            · cases otherTaken.symm.trans taken
              have toldPrefix := run_replies_grow after
              have expectedPrefix :=
                isolated_replies_grow (before ++ [⟨connection, .last, locals⟩]) rest
              rw [← whole, ← replies, expected] at expectedPrefix
              rw [told] at toldPrefix
              have same := List.prefix_of_prefix_length_le toldPrefix expectedPrefix (by simp)
              have equal := same.eq_of_length (by simp)
              simp only [List.append_cancel_left_eq, List.cons.injEq, Prod.mk.injEq, true_and,
                and_true] at equal
              exact postReply_ne_noData id equal

theorem alone_undisturbed {connection : Nat} {before schedule : List ConnectionCall}
    (begun : ∀ action ∈ before, action.connection = connection)
    (one : ∀ action ∈ schedule, action.connection = connection)
    (contract : AtEach FollowsContract before schedule) :
    AtEach Undisturbed before schedule := by
  induction schedule generalizing before with
  | nil => trivial
  | cons action rest ih =>
      obtain ⟨follows, later⟩ := contract
      have own := one action (by simp)
      refine ⟨?_, ih ?_ (fun other member => one other (by simp [member])) later⟩
      · intro last
        have calls : callsOf connection before = before.map ConnectionCall.call := by
          rw [callsOf, List.filter_eq_self.mpr (by simpa using begun)]
        have quiet : ∀ other ∈ before, other.call ≠ .last := by
          intro other member isLast
          have inside : Call.last ∈ callsOf connection before := by
            rw [calls, ← isLast]
            exact List.mem_map_of_mem member
          rw [FollowsContract, own, last] at follows
          exact last_once follows inside
        rw [own]
        constructor
        · rintro ⟨other, member, _, data⟩
          obtain ⟨front, back, split⟩ := List.append_of_mem member
          refine ⟨front, other, back, split, data, ?_⟩
          intro next inside
          exact quiet next (by simp [split, inside])
        · rintro ⟨front, other, back, split, data, _⟩
          have member : other ∈ before := by simp [split]
          exact ⟨other, member, begun other member, data⟩
      · intro other member
        rcases List.mem_append.mp member with old | new
        · exact begun other old
        · rw [List.mem_singleton.mp new]
          exact own

/-- A connection served alone from a fresh start gets its outcome in the service. -/
theorem alone_outcome {url : Text} (resource : strstr url terminalsResource = true)
    {mgr : EquipmentMgr} (running : mgr.sigEqMgrFlag = true) {connection : Nat}
    {schedule : List ConnectionCall} (one : ∀ action ∈ schedule, action.connection = connection)
    (contract : AtEach FollowsContract [] schedule)
    (passes : ∀ action ∈ schedule, Passes action.locals url)
    (fits : AtEach BodyFits [] schedule) :
    ∃ final, runFrom (handle url) (Connections.start mgr) schedule = .ok final ∧
      final.replies = (isolated schedule).replies ∧
      Stores final.server.mgr (isolated schedule).texts := by
  have undisturbed := alone_undisturbed (by simp) one contract
  exact (run_isolated_iff resource (Agrees.start running) contract passes).mpr
    (atEach_and.mpr ⟨undisturbed, fits⟩)

/-- Interleaved connections get the outcomes they get alone exactly when, at every last call, the
connection had data if and only if some call with data came after the last call before it, and
the bodies stored fit. -/
theorem connections_isolated_iff {url : Text} (resource : strstr url terminalsResource = true)
    {mgr : EquipmentMgr} (running : mgr.sigEqMgrFlag = true) {schedule : List ConnectionCall}
    (contract : AtEach FollowsContract [] schedule)
    (passes : ∀ action ∈ schedule, Passes action.locals url) :
    (∃ final, runFrom (handle url) (Connections.start mgr) schedule = .ok final ∧
      final.replies = (isolated schedule).replies ∧
      Stores final.server.mgr (isolated schedule).texts) ↔
      AtEach Undisturbed [] schedule ∧ AtEach BodyFits [] schedule := by
  rw [← atEach_and]
  exact run_isolated_iff resource (Agrees.start running) contract passes

def orderly : List ConnectionCall :=
  [⟨0, .first, HandlerLocals.blank⟩, ⟨0, .data [97], HandlerLocals.blank⟩,
    ⟨0, .last, HandlerLocals.blank⟩, ⟨1, .first, HandlerLocals.blank⟩,
    ⟨1, .last, HandlerLocals.blank⟩]

theorem connections_isolated_orderly :
    ∃ final, runFrom (handle terminalsResource) (Connections.start EquipmentMgr.blank) orderly =
        .ok final ∧
      final.replies = (isolated orderly).replies ∧
      Stores final.server.mgr (isolated orderly).texts := by
  have passes : ∀ action ∈ orderly, Passes action.locals terminalsResource := by
    simp [orderly, passes_blank]
  have contract : AtEach FollowsContract [] orderly := by
    simp [orderly, AtEach, FollowsContract, callsOf, NextCall]
  have notLast {call : Call} {goal : Prop} (other : call ≠ .last) (last : call = .last) : goal :=
    absurd last other
  refine (connections_isolated_iff strstr_resource rfl contract passes).mpr ⟨?_, ?_⟩
  · refine ⟨notLast (by simp), notLast (by simp), fun _ => ?_, notLast (by simp), fun _ => ?_,
      trivial⟩
    · refine iff_of_true ⟨⟨0, .data [97], HandlerLocals.blank⟩, by simp, rfl, [97], rfl⟩ ?_
      exact (dataSinceLast_snoc [_] _).mpr (Or.inl ⟨[97], rfl⟩)
    · refine iff_of_false (by simp [HasData, ConnectionCall.CarriesData]) ?_
      intro pending
      have before := (dataSinceLast_snoc [_, _, _] _).mp pending
      have earlier := (dataSinceLast_snoc [_, _] _).mp (before.resolve_left (by
        simp [ConnectionCall.CarriesData])).2
      simp [ConnectionCall.CarriesData] at earlier
  · refine ⟨notLast (by simp), notLast (by simp), fun _ => ?_, notLast (by simp), fun _ => ?_,
      trivial⟩
    · rintro body same
      cases same
      exact ⟨by decide, by decide⟩
    · rintro body same
      cases same

def alternating : List ConnectionCall :=
  [⟨0, .first, HandlerLocals.blank⟩, ⟨1, .first, HandlerLocals.blank⟩,
    ⟨0, .data [97], HandlerLocals.blank⟩, ⟨1, .data [98], HandlerLocals.blank⟩,
    ⟨0, .last, HandlerLocals.blank⟩, ⟨1, .last, HandlerLocals.blank⟩]

/-- The second of the two is told that it had no data, and its body is lost. -/
theorem alternating_loses_body :
    (runFrom (handle terminalsResource) (Connections.start EquipmentMgr.blank)
        alternating).map Connections.replies =
        .ok [(0, postReply 1), (1, jsonPostWithNoData)] ∧
      (isolated alternating).replies = [(0, postReply 1), (1, postReply 2)] := by
  constructor
  · decide +kernel
  · decide

end SmartPay
